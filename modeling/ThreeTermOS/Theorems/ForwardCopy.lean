import ThreeTermOS.Lemmas.MemcpyAsm
import ThreeTermOS.Lemmas.Screens

/-!
# memcpy and scrolling

The assembly of `memcpy` copies a range to any address that is not above it, whatever the alignment and the overlap, and so a screen
is scrolled by copying it onto itself.
-/

namespace ThreeTermOS

open Bytes Runs Screens

/-- A memory in which the `n` bytes at `dest` are those another had at `src`, and no other byte has changed. -/
structure Copied (m m' : CPtr) (dest src n : Nat) : Prop where
  range : ∀ i < n, m' (dest + i) = m (src + i)
  frame : ∀ a, ¬(dest ≤ a ∧ a < dest + n) → m' a = m a

/-- A memory in which the screens at some addresses have moved up by a row: the last row of each is blank, and no other byte has
changed. -/
structure ScrolledUp (m m' : CPtr) (bases : List Nat) : Prop where
  rows : ∀ base ∈ bases, ∀ i < 2 * ((numRows - 1) * numCols), m' (base + i) = m (base + 2 * numCols + i)
  last : ∀ base ∈ bases, ∀ j < numCols,
    m' (base + 2 * ((numRows - 1) * numCols + j)) = 0x20 ∧ m' (base + 2 * ((numRows - 1) * numCols + j) + 1) = attrib
  frame : ∀ a, (∀ base ∈ bases, ¬InArea base a) → m' a = m a

namespace ForwardCopyAux

open LibAux MemcpyAsmAux ScreensAux

variable {m m' : CPtr} {base : Nat}

theorem copied_memcpy (m : CPtr) {dest src : Nat} (n : Nat) (h : dest ≤ src) : Copied m (memcpy m dest src n) dest src n := by
  rw [memcpy_eq_blit n m dest src (Or.inl h)]
  constructor
  case range =>
    intro i hi
    rw [blit_of_mem m (by omega) (by omega), Nat.add_sub_cancel_left]
  case frame => exact fun a ha => blit_of_not_mem m ha

/-- One screen scrolled. -/
theorem scrolledUp_scrollDown (m : CPtr) (base : Nat) : ScrolledUp m (scrollDown m base) [base] := by
  rw [scrollDown_eq]
  constructor
  case rows =>
    simp only [List.mem_singleton, forall_eq]
    unfold numRows numCols
    intro i hi
    rw [fill_of_not_mem _ _ (by omega), blit_of_mem _ (by omega) (by omega), Nat.add_sub_cancel_left]
  case last =>
    simp only [List.mem_singleton, forall_eq]
    unfold numRows numCols
    intro j hj
    rw [fill_of_mem _ _ (by omega) (by omega), fill_of_mem _ _ (by omega) (by omega), if_pos (by omega), if_neg (by omega)]
    exact ⟨rfl, rfl⟩
  case frame =>
    simp only [List.mem_singleton, forall_eq]
    intro a ha
    unfold InArea at ha
    rw [screenSize_eq] at ha
    rw [fill_of_not_mem _ _ (by omega), blit_of_not_mem _ (by omega)]

/-- A byte of a screen, in its rows or in its last row. -/
theorem inArea_add {base i : Nat} (hi : i < 4000) : InArea base (base + i) := by
  unfold InArea
  rw [screenSize_eq]
  omega

/-- Two screens that do not meet, scrolled one after the other. -/
theorem scrolledUp_both {m₁ : CPtr} {b b' : Nat} (h : ScrolledUp m m₁ [b]) (h' : ScrolledUp m₁ m' [b'])
    (hb : ∀ a, InArea b a → ¬InArea b' a) : ScrolledUp m m' [b, b'] := by
  obtain ⟨hrows, hlast, hframe⟩ := h
  obtain ⟨hrows', hlast', hframe'⟩ := h'
  simp only [List.mem_singleton, forall_eq] at hrows hlast hframe hrows' hlast' hframe'
  -- the second leaves the first as it is, and finds its own as it was
  have hkeep (i : Nat) (hi : i < 4000) : m' (b + i) = m₁ (b + i) := hframe' _ (hb _ (inArea_add hi))
  have hfind (i : Nat) (hi : i < 4000) : m₁ (b' + i) = m (b' + i) := hframe _ (fun hin => hb _ hin (inArea_add hi))
  constructor
  case rows =>
    simp only [List.mem_cons, List.not_mem_nil, or_false, forall_eq_or_imp, forall_eq]
    unfold numRows numCols at *
    refine ⟨fun i hi => ?_, fun i hi => ?_⟩
    · rw [hkeep i (by omega), hrows i hi]
    · rw [hrows' i hi, Nat.add_assoc, hfind _ (by omega)]
  case last =>
    simp only [List.mem_cons, List.not_mem_nil, or_false, forall_eq_or_imp, forall_eq]
    refine ⟨fun j hj => ?_, hlast'⟩
    have hj' := hlast j hj
    unfold numRows numCols at *
    rwa [hkeep _ (by omega), Nat.add_assoc, hkeep _ (by omega)]
  case frame =>
    simp only [List.mem_cons, List.not_mem_nil, or_false, forall_eq_or_imp, forall_eq]
    intro a ha
    rw [hframe' a ha.2, hframe a ha.1]

end ForwardCopyAux

open ForwardCopyAux MemcpyAsmAux ScreensAux in
/-- From any state of the processor, the assembly of `memcpy` ends, and what it has done by then is what `memcpy` does: a copy of the
whole range, when the destination is not above the source. It never writes outside the destination. A terminal's screen scrolled
with it has moved up by exactly one row. -/
theorem memcpy_copies_forward {dest src : Nat} (h : dest ≤ src) (n : Nat) (c : MemcpyCpu) :
    (∃ c' k, (∀ j > k, run memcpyStep (c.enterMemcpy dest src n) (List.replicate j ()) = .stop .done c') ∧
      c'.mem = memcpy c.mem dest src n ∧ Copied c.mem c'.mem dest src n) ∧
    (∀ j, ∀ a ∈ collect memcpyStep memcpyWrites (c.enterMemcpy dest src n) (List.replicate j ()), dest ≤ a ∧ a < dest + n) ∧
    (∀ k : Console, ScrolledUp k.mem (terminalScrollDownCurr k).mem [videoBuffer k.currTerm]) ∧
    (∀ k : Console, ScrolledUp k.mem (terminalScrollDownDisp k).mem [videoBuffer k.dispTerm, video]) := by
  have hat : (c.enterMemcpy dest src n).At 0 c.mem dest src := ⟨rfl, rfl, rfl, rfl⟩
  obtain ⟨c', hwrites, hend⟩ := runs_memcpy n hat rfl
  obtain ⟨⟨k, hstops⟩, hin⟩ := writesWithin_ends hwrites hend
  refine ⟨⟨c', k, hstops, hend.mem, ?_⟩, hin, fun k => scrolledUp_scrollDown k.mem _, fun k => ?_⟩
  · rw [hend.mem]
    exact copied_memcpy c.mem n h
  · exact scrolledUp_both (scrolledUp_scrollDown k.mem _) (scrolledUp_scrollDown _ video) (fun a => not_inArea_video)

/-- A processor whose direction flag is set, and a memory that holds its addresses. -/
def downwardCpu : MemcpyCpu :=
  { mem := fun a => a.toUInt8, regs := fun _ => 0, al := 0, ds := 0x18, es := 0, zf := false, df := true, eip := 0 }

/-- Ten bytes moved down by three, from one address that is not aligned to another. -/
theorem memcpy_copies_forward_overlapping :
    5 ≤ 8 ∧ ∃ c' k, (∀ j > k, run memcpyStep (downwardCpu.enterMemcpy 5 8 10) (List.replicate j ()) = .stop .done c') ∧
      ∀ i < 10, c'.mem (5 + i) = (8 + i).toUInt8 := by
  obtain ⟨⟨c', k, hstops, -, hcopied⟩, -⟩ := memcpy_copies_forward (show 5 ≤ 8 by decide) 10 downwardCpu
  exact ⟨by decide, c', k, hstops, hcopied.range⟩

end ThreeTermOS
