import ThreeTermOS.Lemmas.Lib
import ThreeTermOS.MemcpyAsm

/-!
# Running the assembly of memcpy

Each loop of the assembly is one of the loops of `memcpy` in `ThreeTermOS.Lib`. A turn of a loop is a straight run of instructions,
evaluated as it stands, and the loops are by induction on the register they count down.
-/

namespace ThreeTermOS

open Bytes Runs

/-- The processor is at an instruction, with a memory and the two addresses of the copy. -/
structure MemcpyCpu.At (c : MemcpyCpu) (eip : Nat) (m : CPtr) (edi esi : Nat) : Prop where
  eip : c.eip = eip
  mem : c.mem = m
  edi : c.regs .edi = edi
  esi : c.regs .esi = esi

/-- The assembly gets from one state to another, and all it writes on its way is in the `n` bytes at an address. -/
def WritesWithin (c c' : MemcpyCpu) (a n : Nat) : Prop :=
  ∃ l, Leads memcpyStep memcpyWrites c c' l ∧ ∀ x ∈ l, a ≤ x ∧ x < a + n

variable {c c' c'' : MemcpyCpu} {m : CPtr} {a edi esi n k : Nat}

theorem WritesWithin.of_leads {l : List Nat} (h : Leads memcpyStep memcpyWrites c c' l) (hl : ∀ x ∈ l, a ≤ x ∧ x < a + n) :
    WritesWithin c c' a n := ⟨l, h, hl⟩

theorem WritesWithin.trans (h : WritesWithin c c' a n) (h' : WritesWithin c' c'' (a + n) k) : WritesWithin c c'' a (n + k) := by
  obtain ⟨l, hleads, hl⟩ := h
  obtain ⟨l', hleads', hl'⟩ := h'
  refine ⟨l ++ l', hleads.trans hleads', fun x hx => ?_⟩
  rcases List.mem_append.mp hx with hx | hx
  · have hin := hl x hx
    omega
  · have hin := hl' x hx
    omega

namespace MemcpyAsmAux

/-! ### Straight runs -/

section Straight

attribute [local simp] collect memcpyStep memcpyWrites memcpyText Instr.exec Instr.writes MemcpyCpu.arith Label.offset Outcome.isOk
  List.replicate

/-- A turn of the loop that aligns the destination. -/
theorem leads_byte (h : c.At 0 m edi esi) (hn : c.regs .ecx = n + 1) (hedi : edi &&& 3 ≠ 0) :
    ∃ c', Leads memcpyStep memcpyWrites c c' [edi] ∧ c'.At 0 (movsb m edi esi) (edi + 1) (esi + 1) ∧ c'.regs .ecx = n := by
  obtain ⟨mem, regs, al, ds, es, zf, df, eip⟩ := c
  obtain ⟨rfl, rfl, rfl, rfl⟩ := h
  dsimp only at hn hedi
  refine ⟨_, ⟨List.replicate 10 (), Outcome.eq_ok_of_isOk ?_, ?_⟩, ⟨?_, ?_, ?_, ?_⟩, ?_⟩
  all_goals simp [hn, hedi, movsb]

/-- The way to the double words. -/
theorem leads_aligned (h : c.At 0 m edi esi) (hn : c.regs .ecx = n + 1) (hedi : edi &&& 3 = 0) :
    ∃ c', Leads memcpyStep memcpyWrites c c' [] ∧ c'.At 16 m edi esi ∧ c'.regs .ecx = (n + 1) >>> 2 ∧
      c'.regs .edx = (n + 1) &&& 3 ∧ c'.df = false := by
  obtain ⟨mem, regs, al, ds, es, zf, df, eip⟩ := c
  obtain ⟨rfl, rfl, rfl, rfl⟩ := h
  dsimp only at hn hedi
  refine ⟨_, ⟨List.replicate 10 (), Outcome.eq_ok_of_isOk ?_, ?_⟩, ⟨?_, ?_, ?_, ?_⟩, ?_, ?_, ?_⟩
  all_goals simp [hn, hedi]

/-- One double word of `rep movsl`. -/
theorem leads_dword (h : c.At 16 m edi esi) (hn : c.regs .ecx = n + 1) (hdf : c.df = false) :
    ∃ c', Leads memcpyStep memcpyWrites c c' [edi, edi + 1, edi + 2, edi + 3] ∧ c'.At 16 (movsl m edi esi) (edi + 4) (esi + 4) ∧
      c'.regs .ecx = n ∧ c'.regs .edx = c.regs .edx ∧ c'.df = false := by
  obtain ⟨mem, regs, al, ds, es, zf, df, eip⟩ := c
  obtain ⟨rfl, rfl, rfl, rfl⟩ := h
  dsimp only at hn hdf
  refine ⟨_, ⟨[()], Outcome.eq_ok_of_isOk ?_, ?_⟩, ⟨?_, ?_, ?_, ?_⟩, ?_, ?_, ?_⟩
  all_goals simp [hn, hdf]

/-- The end of `rep movsl`. -/
theorem leads_repEnd (h : c.At 16 m edi esi) (hn : c.regs .ecx = 0) :
    ∃ c', Leads memcpyStep memcpyWrites c c' [] ∧ c'.At 17 m edi esi ∧ c'.regs .edx = c.regs .edx := by
  obtain ⟨mem, regs, al, ds, es, zf, df, eip⟩ := c
  obtain ⟨rfl, rfl, rfl, rfl⟩ := h
  dsimp only at hn
  refine ⟨_, ⟨[()], Outcome.eq_ok_of_isOk ?_, ?_⟩, ⟨?_, ?_, ?_, ?_⟩, ?_⟩
  all_goals simp [hn]

/-- A turn of the loop over the bytes that are left. -/
theorem leads_tail (h : c.At 17 m edi esi) (hn : c.regs .edx = n + 1) :
    ∃ c', Leads memcpyStep memcpyWrites c c' [edi] ∧ c'.At 17 (movsb m edi esi) (edi + 1) (esi + 1) ∧ c'.regs .edx = n := by
  obtain ⟨mem, regs, al, ds, es, zf, df, eip⟩ := c
  obtain ⟨rfl, rfl, rfl, rfl⟩ := h
  dsimp only at hn
  refine ⟨_, ⟨List.replicate 8 (), Outcome.eq_ok_of_isOk ?_, ?_⟩, ⟨?_, ?_, ?_, ?_⟩, ?_⟩
  all_goals simp [hn, movsb]

/-- The two ways to the end. -/
theorem leads_done (h : c.At 0 m edi esi ∧ c.regs .ecx = 0 ∨ c.At 17 m edi esi ∧ c.regs .edx = 0) :
    ∃ c', Leads memcpyStep memcpyWrites c c' [] ∧ c'.At 25 m edi esi := by
  obtain ⟨mem, regs, al, ds, es, zf, df, eip⟩ := c
  rcases h with ⟨⟨rfl, rfl, rfl, rfl⟩, hn⟩ | ⟨⟨rfl, rfl, rfl, rfl⟩, hn⟩
  all_goals
    dsimp only at hn
    refine ⟨_, ⟨[(), ()], Outcome.eq_ok_of_isOk ?_, ?_⟩, ⟨?_, ?_, ?_, ?_⟩⟩
  all_goals simp [hn]

/-- Past the last instruction the assembly has ended. -/
theorem memcpyStep_done (h : c.At 25 m edi esi) : memcpyStep c () = .stop .done c := by
  simp [h.eip]

theorem memcpyWrites_done (h : c.At 25 m edi esi) : memcpyWrites c () = [] := by
  simp [h.eip]

end Straight

/-! ### The loops -/

/-- `rep movsl`. -/
theorem runs_repMovsl (n : Nat) : ∀ {c m edi esi}, c.At 16 m edi esi → c.regs .ecx = n → c.df = false →
    ∃ c', WritesWithin c c' edi (4 * n) ∧ c'.At 17 (repMovsl m edi esi n) (edi + 4 * n) (esi + 4 * n) ∧
      c'.regs .edx = c.regs .edx := by
  induction n with
  | zero =>
    intro c m edi esi h hn _
    obtain ⟨c', hleads, hat, hedx⟩ := leads_repEnd h hn
    exact ⟨c', .of_leads hleads (by simp), hat, hedx⟩
  | succ n ih =>
    intro c m edi esi h hn hdf
    obtain ⟨c', hleads, hat, hecx, hedx, hdf'⟩ := leads_dword h hn hdf
    obtain ⟨c'', hrest, hat', hedx'⟩ := ih hat hecx hdf'
    have hsplit : 4 * (n + 1) = 4 + 4 * n := by omega
    rw [hsplit, ← Nat.add_assoc, ← Nat.add_assoc]
    exact ⟨c'', (WritesWithin.of_leads hleads (by simp)).trans hrest, hat', hedx'.trans hedx⟩

/-- `.memcpy_bottom`. -/
theorem runs_memcpyBottom (n : Nat) : ∀ {c m edi esi}, c.At 17 m edi esi → c.regs .edx = n →
    ∃ c', WritesWithin c c' edi n ∧ c'.At 25 (memcpyBottom m edi esi n) (edi + n) (esi + n) := by
  induction n with
  | zero =>
    intro c m edi esi h hn
    obtain ⟨c', hleads, hat⟩ := leads_done (Or.inr ⟨h, hn⟩)
    exact ⟨c', .of_leads hleads (by simp), hat⟩
  | succ n ih =>
    intro c m edi esi h hn
    obtain ⟨c', hleads, hat, hedx⟩ := leads_tail h hn
    obtain ⟨c'', hrest, hat'⟩ := ih hat hedx
    rw [memcpyBottom, Nat.add_comm n 1, ← Nat.add_assoc, ← Nat.add_assoc]
    exact ⟨c'', (WritesWithin.of_leads hleads (by simp)).trans hrest, hat'⟩

/-- `.memcpy_aligned`, with bytes to copy. -/
theorem runs_memcpyAligned (h : c.At 0 m edi esi) (hn : c.regs .ecx = n + 1) (hedi : edi % 4 = 0) :
    ∃ c', WritesWithin c c' edi (n + 1) ∧ c'.At 25 (memcpyAligned m edi esi (n + 1)) (edi + (n + 1)) (esi + (n + 1)) := by
  have hand (x : Nat) : x &&& 3 = x % 4 := Nat.and_two_pow_sub_one_eq_mod x 2
  obtain ⟨c₁, hleads, hat, hecx, hedx, hdf⟩ := leads_aligned h hn (by rwa [hand])
  rw [Nat.shiftRight_eq_div_pow] at hecx
  rw [hand] at hedx
  obtain ⟨c₂, hdwords, hat₂, hedx₂⟩ := runs_repMovsl ((n + 1) / 4) hat hecx hdf
  obtain ⟨c₃, hbytes, hat₃⟩ := runs_memcpyBottom ((n + 1) % 4) hat₂ (hedx₂.trans hedx)
  have hsum : 4 * ((n + 1) / 4) + (n + 1) % 4 = n + 1 := Nat.div_add_mod _ 4
  rw [Nat.add_assoc, Nat.add_assoc, hsum] at hat₃
  have hwrites := (WritesWithin.of_leads (n := 0) hleads (by simp)).trans (hdwords.trans hbytes)
  rw [Nat.zero_add, hsum] at hwrites
  exact ⟨c₃, hwrites, hat₃⟩

/-- The assembly, from its start to its end. -/
theorem runs_memcpy (n : Nat) : ∀ {c m edi esi}, c.At 0 m edi esi → c.regs .ecx = n →
    ∃ c', WritesWithin c c' edi n ∧ c'.At 25 (memcpy m edi esi n) (edi + n) (esi + n) := by
  induction n with
  | zero =>
    intro c m edi esi h hn
    obtain ⟨c', hleads, hat⟩ := leads_done (Or.inl ⟨h, hn⟩)
    exact ⟨c', .of_leads hleads (by simp), hat⟩
  | succ n ih =>
    intro c m edi esi h hn
    rw [memcpy]
    by_cases hedi : edi % 4 = 0
    · rw [if_pos hedi]
      exact runs_memcpyAligned h hn hedi
    · have hand : edi &&& 3 ≠ 0 := by rwa [Nat.and_two_pow_sub_one_eq_mod edi 2]
      obtain ⟨c', hleads, hat, hecx⟩ := leads_byte h hn hand
      obtain ⟨c'', hrest, hat'⟩ := ih hat hecx
      rw [if_neg hedi, Nat.add_comm n 1, ← Nat.add_assoc, ← Nat.add_assoc]
      exact ⟨c'', (WritesWithin.of_leads hleads (by simp)).trans hrest, hat'⟩

/-- A run as long as may be: it stops in the state where the assembly ends, and writes nothing on from there. -/
theorem writesWithin_ends (h : WritesWithin c c' a n) {edi esi : Nat} (hat : c'.At 25 m edi esi) :
    (∃ k, ∀ j > k, run memcpyStep c (List.replicate j ()) = .stop .done c') ∧
      ∀ j, ∀ x ∈ collect memcpyStep memcpyWrites c (List.replicate j ()), a ≤ x ∧ x < a + n := by
  obtain ⟨l, ⟨es, hrun, hout⟩, hl⟩ := h
  have hes : es = List.replicate es.length () := List.eq_replicate_of_mem (fun _ _ => rfl)
  have hstop (i : Nat) : run memcpyStep c' (List.replicate (i + 1) ()) = .stop .done c' := by
    rw [List.replicate_succ, run_cons, memcpyStep_done hat, Outcome.andThen_stop]
  have hquiet (i : Nat) : collect memcpyStep memcpyWrites c' (List.replicate i ()) = [] := by
    cases i with
    | zero => rfl
    | succ i => simp [List.replicate_succ, collect, memcpyWrites_done hat, memcpyStep_done hat]
  refine ⟨⟨es.length, fun j hj => ?_⟩, fun j x hx => hl x ?_⟩
  · obtain ⟨i, rfl⟩ := Nat.exists_eq_add_of_lt hj
    rw [Nat.add_assoc, ← List.replicate_append_replicate, ← hes, run_append, hrun, Outcome.andThen_ok, hstop]
  · -- a shorter run writes a part of the list, a longer one the whole of it
    rcases Nat.le_total j es.length with hle | hle
    · obtain ⟨i, hi⟩ := Nat.exists_eq_add_of_le hle
      rw [hes, hi, ← List.replicate_append_replicate] at hout
      rw [← hout]
      exact (collect_initial memcpyStep memcpyWrites c _ _).subset hx
    · obtain ⟨i, rfl⟩ := Nat.exists_eq_add_of_le hle
      rw [← List.replicate_append_replicate, ← hes, collect_append hrun, hquiet, List.append_nil, hout] at hx
      exact hx

end MemcpyAsmAux

end ThreeTermOS
