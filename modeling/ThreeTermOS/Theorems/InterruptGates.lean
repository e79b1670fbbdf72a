import ThreeTermOS.Idt

/-!
# The ways into the kernel

The processor finds in the table that `fill_idt` leaves the kernel's handlers at their vectors and nothing else, wherever the linker put
them; and a program gets through one of the gates only.
-/

namespace ThreeTermOS

open X86 Runs

/-- The gates of the kernel: interrupt gates for the exceptions and the devices, which no program may use, and a trap gate for the system
calls. -/
def kernelGates (l : IdtLayout) (n : Nat) : Option Gate :=
  if n < 20 then some { selector := kernelCS, offset := (l.exception n).toNat, trap := false, dpl := 0 }
  else if n = 0x80 then some { selector := kernelCS, offset := l.syscallHandler.toNat, trap := true, dpl := 3 }
  else ([Intr.pit, Intr.kb, Intr.rtc].find? (fun h => h.idtEntry = n)).map (fun h =>
    { selector := kernelCS, offset := (l.handler h).toNat, trap := false, dpl := 0 })

/-- The table as `x86_desc.S` leaves it, filled in. -/
def kernelIdt (l : IdtLayout) (n : Nat) : Option Gate := gateOf (fillIdt l (fun _ => 0) n)

namespace InterruptGatesAux

/-! ### Entries -/

/-- What the processor reads of an entry are the fields it was made from. -/
theorem word_fields (d : IdtDesc) :
    d.word.extractLsb' 40 8 = d.access ∧ d.word.extractLsb' 16 16 = d.segSelector ∧ d.word.extractLsb' 48 16 = d.offset3116 ∧
      d.word.extractLsb' 0 16 = d.offset1500 := by
  unfold IdtDesc.word
  refine ⟨?_, ?_, ?_, BitVec.extractLsb'_append_eq_right⟩
  · rw [BitVec.extractLsb'_append_eq_of_le (by decide), BitVec.extractLsb'_append_eq_of_le (by decide),
      BitVec.extractLsb'_append_eq_of_le (by decide)]
    exact BitVec.extractLsb'_append_eq_right
  · rw [BitVec.extractLsb'_append_eq_of_le (by decide)]
    exact BitVec.extractLsb'_append_eq_right
  · rw [BitVec.extractLsb'_append_eq_of_le (by decide), BitVec.extractLsb'_append_eq_of_le (by decide),
      BitVec.extractLsb'_append_eq_of_le (by decide)]
    exact BitVec.extractLsb'_append_eq_left

/-- The two halves of an address that `SET_IDT_ENTRY` stores are the address. -/
theorem offset_setIdtEntry (d : IdtDesc) (handler : Word) :
    (setIdtEntry d handler).offset3116 ++ (setIdtEntry d handler).offset1500 = handler := by
  have hhigh : ∀ i < 32, (0xFFFF0000#32).getLsbD i = decide (16 ≤ i) := by decide
  have hlow : ∀ i < 32, (0xFFFF#32).getLsbD i = decide (i < 16) := by decide
  apply BitVec.eq_of_getLsbD_eq
  intro i hi
  unfold setIdtEntry
  rw [BitVec.getLsbD_append]
  by_cases h16 : i < 16
  · rw [if_pos h16]
    simp only [h16, decide_true, BitVec.getLsbD_setWidth, BitVec.getLsbD_and, Bool.true_and]
    rw [show (0xFFFF : Word).getLsbD i = true from (hlow i hi).trans (decide_eq_true h16), Bool.and_true]
  · have hsub : 16 + (i - 16) = i := by omega
    rw [if_neg h16]
    simp only [BitVec.getLsbD_setWidth, BitVec.getLsbD_ushiftRight, BitVec.getLsbD_and, hsub]
    rw [show (0xFFFF0000 : Word).getLsbD i = true from (hhigh i hi).trans (decide_eq_true (by omega)), Bool.and_true,
      decide_eq_true (by omega), Bool.true_and]

/-- An entry made by `SET_IDT_ENTRY`, as the processor takes it. -/
theorem gateOf_setIdtEntry {d : IdtDesc} (handler : Word) (hpresent : d.access.getLsbD 7 = true)
    (htype : d.access.extractLsb' 1 4 = 0b0111) :
    gateOf (setIdtEntry d handler).word =
      some { selector := d.segSelector, offset := handler.toNat, trap := d.access.getLsbD 0,
             dpl := (d.access.extractLsb' 5 2).toNat } := by
  obtain ⟨haccess, hselector, hhigh, hlow⟩ := word_fields (setIdtEntry d handler)
  have hsame : (setIdtEntry d handler).access = d.access := rfl
  unfold gateOf
  rw [haccess, hsame, hselector, hhigh, hlow, offset_setIdtEntry]
  exact if_pos ⟨hpresent, htype⟩

/-! ### The table -/

theorem foldl_update_range (g : Nat → BitVec 64) (f : Nat → BitVec 64) (m n : Nat) :
    (List.range m).foldl (fun f i => Function.update f i (g i)) f n = if n < m then g n else f n := by
  induction m with
  | zero => rfl
  | succ m ih =>
    rw [List.range_succ, List.foldl_append, List.foldl_cons, List.foldl_nil]
    by_cases hn : n = m
    · rw [hn, Function.update_self, if_pos (Nat.lt_succ_self m)]
    · rw [Function.update_of_ne hn, ih]
      by_cases hlt : n < m
      · rw [if_pos hlt, if_pos (by omega)]
      · rw [if_neg hlt, if_neg (by omega)]

theorem gateOf_interrupt (handler : Word) :
    gateOf (setIdtEntry idtTemp handler).word = some { selector := kernelCS, offset := handler.toNat, trap := false, dpl := 0 } :=
  gateOf_setIdtEntry handler (by decide) (by decide)

theorem gateOf_trap (handler : Word) :
    gateOf (setIdtEntry { idtTemp with dpl := 3, reserved3 := 1 } handler).word =
      some { selector := kernelCS, offset := handler.toNat, trap := true, dpl := 3 } :=
  gateOf_setIdtEntry handler (by decide) (by decide)

theorem kernelIdt_eq (l : IdtLayout) (n : Nat) : kernelIdt l n = kernelGates l n := by
  unfold kernelIdt kernelGates fillIdt fillIdtInterruptsSys
  dsimp only
  by_cases h80 : n = 0x80
  · subst h80
    rw [Function.update_self, gateOf_trap]
    rfl
  · rw [Function.update_of_ne h80]
    by_cases hrtc : n = Intr.rtc.idtEntry
    · subst hrtc
      rw [Function.update_self, gateOf_interrupt]
      rfl
    · rw [Function.update_of_ne hrtc]
      by_cases hkb : n = Intr.kb.idtEntry
      · subst hkb
        rw [Function.update_self, gateOf_interrupt]
        rfl
      · rw [Function.update_of_ne hkb]
        by_cases hpit : n = Intr.pit.idtEntry
        · subst hpit
          rw [Function.update_self, gateOf_interrupt]
          rfl
        · rw [Function.update_of_ne hpit, fillIdtExceptions, foldl_update_range]
          by_cases hlt : n < 20
          · rw [if_pos hlt, if_pos hlt, gateOf_interrupt]
          · rw [if_neg hlt, if_neg hlt, if_neg h80]
            simp [Ne.symm hpit, Ne.symm hkb, Ne.symm hrtc]
            decide

theorem kernelGates_vector (l : IdtLayout) {v : Pic8259.Byte} {h : Intr} (hv : intrOfVector v = some h) :
    kernelGates l v.toNat = some { selector := kernelCS, offset := (l.handler h).toNat, trap := false, dpl := 0 } := by
  have hentry : h.idtEntry = v.toNat := by simpa using List.find?_some hv
  rw [← hentry]
  cases h <;> rfl

/-- The gate of the system calls is the only one for programs. -/
theorem dpl_kernelGates (l : IdtLayout) {n : Nat} {g : Gate} (hn : n ≠ 0x80) (hg : kernelGates l n = some g) : g.dpl = 0 := by
  unfold kernelGates at hg
  by_cases hlt : n < 20
  · rw [if_pos hlt] at hg
    rw [← Option.some.inj hg]
  · rw [if_neg hlt, if_neg hn, Option.map_eq_some_iff] at hg
    obtain ⟨h, -, rfl⟩ := hg
    rfl

end InterruptGatesAux

open InterruptGatesAux

/-- Wherever the linker put the handlers, the processor finds in the table that `fill_idt` leaves the exception handlers at 0 to 19, the
device handlers at the vectors the interrupt controllers hand over, `syscall_handler` at 0x80, and no other gate; and whatever the
program, an `int n` at level 3 enters `syscall_handler`, with interrupts as they were, if `n` is 0x80, and faults if it is not. -/
theorem syscall_gate_only (l : IdtLayout) {φ : Type} (text : Nat → Option (Insn φ)) (gdt : List (BitVec 64))
    (fns : φ → Processor → Processor) :
    (∀ n, kernelIdt l n = kernelGates l n) ∧
      (∀ v h, intrOfVector v = some h →
        kernelIdt l v.toNat = some { selector := kernelCS, offset := (l.handler h).toNat, trap := false, dpl := 0 }) ∧
      ∀ (c : Processor) (n : Nat), level (c.segs .cs) = 3 → text c.eip = some (.int n) →
        X86.step { text := text, idt := kernelIdt l, gdt := gdt, fns := fns } c () =
          if n = 0x80 then
            .ok (c.enter { selector := kernelCS, offset := l.syscallHandler.toNat, trap := true, dpl := 3 } (c.eip + 1))
          else .stop (if (kernelGates l n).isSome then .protection else .noGate) c := by
  refine ⟨kernelIdt_eq l, fun v h hv => (kernelIdt_eq l _).trans (kernelGates_vector l hv), fun c n hlevel htext => ?_⟩
  have hgate := kernelIdt_eq l n
  simp only [X86.step, htext, Insn.exec, hgate, hlevel]
  by_cases hn : n = 0x80
  · subst hn
    rfl
  · rw [if_neg hn]
    cases hg : kernelGates l n with
    | none => rfl
    | some g =>
      dsimp only
      rw [dpl_kernelGates l hn hg]
      rfl

/-- Handlers one after the other. -/
def rowOfHandlers : IdtLayout where
  exception n := BitVec.ofNat 32 (0x400100 + n)
  handler h := BitVec.ofNat 32 (0x400200 + h.idtEntry)
  syscallHandler := 0x400300

/-- A program that asks for the timer's handler. -/
def forgedTick : Processor where
  regs _ := 0
  esp := 0x83FFFFC
  mem _ := 0
  eflags := 0x202
  segs s := if s = .cs then userCS else userDS
  eip := 0x8048094
  esp0 := 0x7FFFFC
  ss0 := kernelDS

/-- Its code, with the kernel's table. -/
def forgedTickCode : Code CFunction where
  text _ := some (.int 0x20)
  idt := kernelIdt rowOfHandlers
  gdt := gdtSegments
  fns _ k := k

theorem syscall_gate_only_forged : X86.step forgedTickCode forgedTick () = .stop .protection forgedTick := by
  obtain ⟨-, -, hint⟩ := syscall_gate_only rowOfHandlers forgedTickCode.text forgedTickCode.gdt forgedTickCode.fns
  exact hint forgedTick 0x20 (by decide) rfl

end ThreeTermOS
