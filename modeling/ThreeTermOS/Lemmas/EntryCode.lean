import ThreeTermOS.EntryCode

/-!
# What the entry code leaves

`syscall_handler` in its pieces: what it has on its stack at each of its labels, and where the processor goes from there.
-/

namespace ThreeTermOS

open Runs X86

/-- The numbers of system calls. -/
def IsCallNumber (eax : Word) : Prop := 1 ≤ eax.toInt ∧ eax.toInt ≤ 10

instance (eax : Word) : Decidable (IsCallNumber eax) := inferInstanceAs (Decidable (_ ∧ _))

/-- The registers `syscall_handler` calls a function with: the status of `halt` is cut to a byte. -/
def callRegs (regs : Gpr → Word) : Gpr → Word :=
  if regs .eax = 1 then Function.update regs .ebx (regs .ebx &&& 0xFF) else regs

/-- The code of the system calls and what `int $0x80` needs of it: the gate leads to `syscall_handler`, there is room on the stack, and
`TEMP` is not on it. -/
structure SyscallReady (M : Code CFunction) (base temp : Nat) (g : Gate) (c : Processor) : Prop where
  code : CodeAt M base (syscallHandler base temp)
  addressable : base + 23 < 2 ^ 32
  gate : M.idt 0x80 = some g
  offset : g.offset = base
  selector : g.selector = kernelCS
  dpl : g.dpl = 3
  gdt : M.gdt.take 6 = gdtSegments
  usable : c.SegsUsable M.gdt
  int : M.text c.eip = some (.int 0x80)
  room : 72 ≤ c.top g
  temp : temp + 4 ≤ c.top g - 72 ∨ c.top g ≤ temp
  esp : c.esp < 2 ^ 32
  eip : c.eip + 1 < 2 ^ 32

/-- What the handler of an interrupt needs: the gate leads to it, and there is room on the stack. -/
structure InterruptReady (M : Code CFunction) (base : Nat) (i : Intr) (g : Gate) (c : Processor) : Prop where
  code : CodeAt M base (interruptHandlers base)
  addressable : base + 12 < 2 ^ 32
  offset : g.offset = base + i.offset
  usable : c.SegsUsable M.gdt
  room : 56 ≤ c.top g
  esp : c.esp < 2 ^ 32
  eip : c.eip < 2 ^ 32

variable {M : Code CFunction} {c z : Processor} {g : Gate} {next base temp : Nat}

theorem level_kernelCS : level kernelCS = 0 := rfl

/-- The level of a segment is what the text of `x86_desc.S` says. -/
theorem segDpl_eq {l : List (BitVec 64)} (h : l.take 6 = gdtSegments) {selector : BitVec 16} (hsel : selector.toNat / 8 < 6) :
    segDpl l selector = segDpl gdtSegments selector := by
  unfold segDpl
  rw [← h, List.getElem?_take_of_lt hsel]

theorem segDpl_kernelDS : segDpl gdtSegments kernelDS = 0 := rfl

/-- The kernel's data segment is lost on the way to a program. -/
theorem segsBack_kernelDS {l : List (BitVec 64)} {segs : Seg → BitVec 16} (hgdt : l.take 6 = gdtSegments) (hsel : g.selector = kernelCS)
    (hds : segs .ds = kernelDS) : c.segsBack l g segs .ds = if level (c.segs .cs) = 0 then kernelDS else 0 := by
  unfold Processor.segsBack
  rw [if_neg (by decide), hds, hsel, level_kernelCS, keptSeg, segDpl_eq hgdt (by decide), segDpl_kernelDS]
  by_cases hlevel : level (c.segs .cs) = 0
  · rw [if_pos hlevel, if_neg (by omega)]
  · have hpos : 0 < level (c.segs .cs) := Nat.pos_of_ne_zero hlevel
    rw [if_neg hlevel, if_pos hpos, if_pos hpos]

/-- A function called from a handler that has returned: the state is kept, and the handler goes on behind the call. -/
theorem kept_call {f : CFunction} {n : Nat} (h : z.Keeps c g next n) (hn : 32 ≤ n) (hroom : 4 ≤ z.esp) (heip : z.eip + 1 < 2 ^ 32)
    (hret : Returned (fun x => z.esp ≤ x ∧ x < c.top g) (z.push (BitVec.ofNat 32 (z.eip + 1)))
      (M.fns f (z.push (BitVec.ofNat 32 (z.eip + 1))))) :
    let k := M.fns f (z.push (BitVec.ofNat 32 (z.eip + 1)))
    k.Keeps c g next n ∧ k.esp = z.esp ∧ k.eip = z.eip + 1 := by
  intro k
  have hesp : k.esp = z.esp := by
    rw [hret.esp, push_esp]
    omega
  have hback : k.eip = z.eip + 1 := by
    rw [hret.eip, stack_push_zero, BitVec.toNat_ofNat, Nat.mod_eq_of_lt heip]
  refine ⟨h.congr hn hesp hret.cs hret.ss (fun x hx hx' => ?_), hesp, hback⟩
  rw [hret.mem x ⟨hx, hx'⟩]
  exact push_mem_other z _ hroom (Or.inr hx)

/-! ### syscall_handler -/

/-- Every system call has its function. -/
theorem callNumber_table {eax : Word} (h : IsCallNumber eax) : ∃ f, syscallJumpTable[eax.toNat]? = some (some f) := by
  have hsmall : eax.toNat ≤ 10 ∧ 1 ≤ eax.toNat := by
    obtain ⟨h1, h2⟩ := h
    rw [BitVec.toInt_eq_toNat_cond] at h1 h2
    have hlt := eax.isLt
    split at h1 <;> omega
  have hall : ∀ n ≤ 10, 1 ≤ n → (syscallJumpTable[n]?.bind id).isSome = true := by decide
  obtain ⟨f, hf⟩ := Option.isSome_iff_exists.mp (hall _ hsmall.1 hsmall.2)
  exact ⟨f, by simpa [Option.bind_eq_some_iff] using hf⟩

/-- `syscall_handler` from its label `end` on. -/
theorem handler_end (hcode : CodeAt M base (syscallHandler base temp)) (hz : z.Keeps c g next 36) (heip : z.eip = base + 19) {v : Word}
    (hv : load z.mem temp = v) :
    Reachable (X86.step M) z { z with
      regs := Function.update c.regs .eax v, esp := c.esp, eflags := c.eflags, eip := next, segs := c.segsBack M.gdt g z.segs } := by
  have hops := reaches_ops (M := M) (c := z) [.popal, .popfl, .movlFromMem temp .eax] (heip ▸ hcode.ops (k := 19) rfl)
  have hexec : execOps z [.popal, .popfl, .movlFromMem temp .eax] =
      ((({ z with regs := c.regs, esp := z.esp + 36, eflags := load z.mem (z.esp + 32) } : Processor)).setReg .eax v) := by
    change Op.exec (Op.exec (Op.exec z .popal) .popfl) (.movlFromMem temp .eax) = _
    rw [hz.popal_eq, ← hv]
    rfl
  rw [hexec, heip] at hops
  refine hops.trans ?_
  exact reaches_iret (hcode.instr (k := 22) rfl) (hz.entered.congr rfl rfl rfl (fun _ _ _ => rfl))

/-- A double word as an integer is at most a number when the flags say so after the comparison. -/
theorem atMost_compareFlags (fl a b : Word) :
    (less (compareFlags fl a b) || zero (compareFlags fl a b)) = true ↔ a.toInt ≤ b.toInt := by
  rw [less_compareFlags, zero_compareFlags, BitVec.slt_eq_decide, ← Bool.decide_or, decide_eq_true_eq, ← BitVec.toInt_inj]
  omega

/-- The checks of `syscall_handler`: the registers are saved, and it goes on at `valid` or at `invalid`. -/
theorem handler_checks (hcode : CodeAt M base (syscallHandler base temp)) (heip : z.eip = base) :
    ∃ fl, Reachable (X86.step M) z { Op.pushal.exec (z.push z.eflags) with
      eflags := fl, eip := if IsCallNumber (z.regs .eax) then base + 8 else base + 6 } := by
  let w (fl : Word) (a : Nat) : Processor := { Op.pushal.exec (z.push z.eflags) with eflags := fl, eip := a }
  let fl₁ := compareFlags z.eflags (z.regs .eax) 10
  let fl₂ := compareFlags fl₁ (z.regs .eax) 1
  have hsave : Reachable (X86.step M) z (w fl₁ (base + 3)) := by
    have hops := reaches_ops (M := M) (c := z) [.pushfl, .pushal, .cmplImm 10 .eax] (heip ▸ hcode.ops (k := 0) rfl)
    rw [heip] at hops
    exact hops
  have hjg : Reachable (X86.step M) (w fl₁ (base + 3)) (w fl₁ (if (z.regs .eax).toInt ≤ 10 then base + 4 else base + 6)) := by
    refine reaches_instr (hcode.instr (k := 3) rfl) ?_
    exact congrArg (fun a => Outcome.ok (w fl₁ a)) (if_congr (atMost_compareFlags z.eflags (z.regs .eax) 10) rfl rfl)
  have hjnl : Reachable (X86.step M) (w fl₁ (base + 4)) (w fl₂ (if (z.regs .eax).toInt < 1 then base + 6 else base + 8)) := by
    refine (reaches_instr (hcode.instr (k := 4) rfl) rfl).trans (reaches_instr (hcode.instr (k := 5) rfl) ?_)
    have hlt : less fl₂ = true ↔ (z.regs .eax).toInt < 1 := by
      rw [less_compareFlags, BitVec.slt_eq_decide, decide_eq_true_eq]
      rfl
    exact congrArg (fun a => Outcome.ok (w fl₂ a)) (if_congr hlt rfl rfl)
  by_cases hle : (z.regs .eax).toInt ≤ 10
  · rw [if_pos hle] at hjg
    refine ⟨fl₂, hsave.trans (hjg.trans ?_)⟩
    change Reachable (X86.step M) _ (w fl₂ (if IsCallNumber (z.regs .eax) then base + 8 else base + 6))
    by_cases hlt : (z.regs .eax).toInt < 1
    · have hnot : ¬IsCallNumber (z.regs .eax) := fun h => absurd h.1 (by omega)
      rw [if_pos hlt] at hjnl
      rwa [if_neg hnot]
    · have hcall : IsCallNumber (z.regs .eax) := ⟨by omega, hle⟩
      rw [if_neg hlt] at hjnl
      rwa [if_pos hcall]
  · have hnot : ¬IsCallNumber (z.regs .eax) := fun h => hle h.2
    rw [if_neg hle] at hjg
    refine ⟨fl₁, hsave.trans ?_⟩
    change Reachable (X86.step M) _ (w fl₁ (if IsCallNumber (z.regs .eax) then base + 8 else base + 6))
    rwa [if_neg hnot]

theorem callRegs_other (regs : Gpr → Word) {r : Gpr} (hr : r ≠ .ebx) : callRegs regs r = regs r := by
  unfold callRegs
  split
  · exact Function.update_of_ne hr _ _
  · rfl

/-- `syscall_handler` from its label `valid` on, up to its call. -/
theorem handler_args (hcode : CodeAt M base (syscallHandler base temp)) (heip : z.eip = base + 8) :
    ∃ v : Processor, Reachable (X86.step M) z v ∧ v.eip = base + 16 ∧ v.regs .eax = z.regs .eax ∧
      v.mem = (((z.push (z.regs .edx)).push (z.regs .ecx)).push (callRegs z.regs .ebx)).mem ∧
      v.esp = z.esp - 4 - 4 - 4 ∧ v.segs = Function.update z.segs .ds kernelDS := by
  -- the status of `halt`
  have hstatus : ∃ fl, Reachable (X86.step M) z { z with regs := callRegs z.regs, eflags := fl, eip := base + 11 } := by
    let fl₁ := compareFlags z.eflags (z.regs .eax) 1
    let w (a : Nat) : Processor := { z with eflags := fl₁, eip := a }
    have hcmp : Reachable (X86.step M) z (w (base + 9)) := by
      have hops := reaches_ops (M := M) (c := z) [.cmplImm 1 .eax] (heip ▸ hcode.ops (k := 8) rfl)
      rw [heip] at hops
      exact hops
    have hjne : Reachable (X86.step M) (w (base + 9)) (w (if z.regs .eax = 1 then base + 10 else base + 11)) := by
      refine reaches_instr (hcode.instr (k := 9) rfl) ?_
      have heq : zero fl₁ = true ↔ z.regs .eax = 1 := by rw [zero_compareFlags, decide_eq_true_eq]
      exact congrArg (fun a => Outcome.ok (w a)) (if_congr heq rfl rfl)
    unfold callRegs
    by_cases hhalt : z.regs .eax = 1
    · rw [if_pos hhalt] at hjne
      rw [if_pos hhalt]
      exact ⟨_, hcmp.trans (hjne.trans (reaches_instr (hcode.instr (k := 10) rfl) rfl))⟩
    · rw [if_neg hhalt] at hjne
      rw [if_neg hhalt]
      exact ⟨fl₁, hcmp.trans hjne⟩
  obtain ⟨fl, hstatus⟩ := hstatus
  let r : Processor := { z with regs := callRegs z.regs, eflags := fl, eip := base + 11 }
  have hops := reaches_ops (M := M) (c := r) [.pushl .edx, .pushl .ecx, .pushl .ebx, .movwImm kernelDS .esi, .movwToSeg .esi .ds]
    (hcode.ops (k := 11) rfl)
  refine ⟨_, hstatus.trans hops, rfl, ?_, ?_, rfl, ?_⟩
  · exact callRegs_other z.regs (by decide)
  · change (((r.push (callRegs z.regs .edx)).push (callRegs z.regs .ecx)).push (callRegs z.regs .ebx)).mem = _
    rw [callRegs_other z.regs (by decide), callRegs_other z.regs (by decide)]
    rfl
  · change Function.update z.segs .ds (((callRegs z.regs .esi).extractLsb' 16 16 ++ kernelDS).setWidth 16) = _
    rw [BitVec.setWidth_append]
    rfl

/-- What `int $0x80` leaves: the handler's first state, with the state it is to go back to on its stack. -/
theorem int80_enters (h : SyscallReady M base temp g c) : Reachable (X86.step M) c (c.enter g (c.eip + 1)) := by
  have hlevel : ¬g.dpl < level (c.segs .cs) := by
    have hlt : level (c.segs .cs) < 4 := Nat.mod_lt _ (by decide)
    have hdpl := h.dpl
    omega
  exact reaches_int h.int h.gate hlevel

/-- `syscall_handler` up to its checks: the registers are saved below what takes it back. -/
theorem handler_saves (h : SyscallReady M base temp g c) :
    ∃ w : Processor, Reachable (X86.step M) c w ∧ w.Keeps c g (c.eip + 1) 36 ∧ w.regs = c.regs ∧
      w.eip = (if IsCallNumber (c.regs .eax) then base + 8 else base + 6) ∧ (∀ s, s ≠ .cs → s ≠ .ss → w.segs s = c.segs s) ∧
      (w.esp0 = c.esp0 ∧ w.ss0 = c.ss0) ∧ ∀ x, x < c.top g - 56 ∨ c.top g ≤ x → w.mem x = c.mem x := by
  have hsize := frame_le c g
  have hroom := h.room
  have hent := enter_entered c g (c.eip + 1) (by omega) h.esp h.eip
  have htop : (c.enter g (c.eip + 1)).esp + c.frame g = c.top g := hent.top
  have hmem : ∀ x, x < c.top g - c.frame g ∨ c.top g ≤ x → (c.enter g (c.eip + 1)).mem x = c.mem x :=
    fun x hx => enter_mem (by omega) hx
  have hsegs : ∀ s, s ≠ .cs → s ≠ .ss → (c.enter g (c.eip + 1)).segs s = c.segs s := fun s => enter_segs
  have hregs : (c.enter g (c.eip + 1)).regs = c.regs := enter_regs
  have htss : (c.enter g (c.eip + 1)).esp0 = c.esp0 ∧ (c.enter g (c.eip + 1)).ss0 = c.ss0 := enter_tss
  obtain ⟨fl, hchecks⟩ := handler_checks (z := c.enter g (c.eip + 1)) h.code h.offset
  have hreach := (int80_enters h).trans hchecks
  rw [hregs] at hreach
  generalize c.enter g (c.eip + 1) = e at *
  have hflags : ({ e.push e.eflags with esp := (e.push e.eflags).esp + 4 } : Processor).Entered c g (c.eip + 1) := by
    refine hent.congr ?_ rfl rfl (fun x hx _ => push_mem_other e e.eflags (by omega) (Or.inr hx))
    change e.esp - 4 + 4 = e.esp
    omega
  have hkeeps := Processor.Keeps.of_pushal (k := e.push e.eflags) hflags hregs (by rw [push_esp]; omega)
  refine ⟨_, hreach, hkeeps.congr (by decide) rfl rfl rfl (fun _ _ _ => rfl), hregs, rfl, hsegs, htss, fun x hx => ?_⟩
  change (Op.pushal.exec (e.push e.eflags)).mem x = c.mem x
  rw [pushal_mem _ (by rw [push_esp]; omega) (by rw [push_esp]; omega), push_mem_other e _ (by omega) (by omega), hmem x (by omega)]

/-- A number that is no system call's: -1, and no function is called. -/
theorem int80_invalid (h : SyscallReady M base temp g c) (hnot : ¬IsCallNumber (c.regs .eax)) :
    ∃ m, (∀ x, (x < c.top g - 56 ∨ c.top g ≤ x) → (x < temp ∨ temp + 4 ≤ x) → m x = c.mem x) ∧
      Reachable (X86.step M) c { c with regs := Function.update c.regs .eax (-1), eip := c.eip + 1, mem := m } := by
  obtain ⟨w, hreach, hkeeps, hregs, heip, hsegs, ⟨hesp0, hss0⟩, hmem⟩ := handler_saves h
  rw [if_neg hnot] at heip
  have hsize := frame_le c g
  have hroom := h.room
  have htemp := h.temp
  have htop : w.esp + 36 + c.frame g = c.top g := hkeeps.entered.top
  have hstore := reaches_instr (c := w) (M := M) (i := .op (.movlImmMem (-1) temp)) (heip ▸ h.code.instr (k := 6) rfl) rfl
  rw [heip] at hstore
  let v : Processor := { w with mem := store w.mem temp (-1), eip := base + 19 }
  have hv : Reachable (X86.step M) c v := hreach.trans (hstore.trans (reaches_instr (h.code.instr (k := 7) rfl) rfl))
  have hkeep' : v.Keeps c g (c.eip + 1) 36 :=
    hkeeps.congr (by decide) rfl rfl rfl (fun x hx hx' => store_apply_other w.mem (-1) (by omega))
  have hend := handler_end h.code hkeep' rfl (load_store_self w.mem temp (-1))
  have hback : c.segsBack M.gdt g v.segs = c.segs := funext (fun s => segsBack_of_eq h.usable (hsegs s))
  have hv0 : v.esp0 = c.esp0 ∧ v.ss0 = c.ss0 := ⟨hesp0, hss0⟩
  rw [hback, hv0.1, hv0.2] at hend
  refine ⟨v.mem, fun x hx hx' => ?_, hv.trans hend⟩
  rw [← hmem x hx]
  exact store_apply_other w.mem (-1) (by omega)

/-- The segments of a system call on the way back, where its function has left them alone. -/
theorem segsBack_call (h : SyscallReady M base temp g c) {segs : Seg → BitVec 16}
    (hsegs : ∀ s, s ≠ .cs → s ≠ .ss → segs s = if s = .ds then kernelDS else c.segs s) :
    c.segsBack M.gdt g segs = Function.update c.segs .ds (if level (c.segs .cs) = 0 then kernelDS else 0) := by
  funext s
  by_cases hds : s = .ds
  · rw [hds, Function.update_self, segsBack_kernelDS h.gdt h.selector ((hsegs .ds nofun nofun).trans (if_pos rfl))]
  · rw [Function.update_of_ne hds]
    refine segsBack_of_eq h.usable (fun hcs hss => ?_)
    rw [hsegs s hcs hss, if_neg hds]

/-- A system call: its function is called with the registers as its arguments, and once it has returned, what it returns is in `EAX`. -/
theorem int80_valid (h : SyscallReady M base temp g c) (hcall : IsCallNumber (c.regs .eax)) {f : CFunction}
    (hf : syscallJumpTable[(c.regs .eax).toNat]? = some (some f)) :
    ∃ k, k.stack 1 = callRegs c.regs .ebx ∧ k.stack 2 = c.regs .ecx ∧ k.stack 3 = c.regs .edx ∧ k.esp + 52 + c.frame g = c.top g ∧
      (∀ s, s ≠ .cs → s ≠ .ss → k.segs s = if s = .ds then kernelDS else c.segs s) ∧
      (∀ x, (x < c.top g - 72 ∨ c.top g ≤ x) → k.mem x = c.mem x) ∧
      Reachable (X86.step M) c (M.fns f k) ∧
      (Returned (fun x => k.esp + 16 ≤ x ∧ x < c.top g) k (M.fns f k) → Reachable (X86.step M) (M.fns f k)
        { c with
          regs := Function.update c.regs .eax ((M.fns f k).regs .eax)
          eip := c.eip + 1
          segs := c.segsBack M.gdt g (M.fns f k).segs
          mem := store (M.fns f k).mem temp ((M.fns f k).regs .eax)
          esp0 := (M.fns f k).esp0
          ss0 := (M.fns f k).ss0 }) := by
  obtain ⟨w, hreach, hkeeps, hregs, heip, hsegs, -, hmem⟩ := handler_saves h
  rw [if_pos hcall] at heip
  have hsize := frame_le c g
  have hroom := h.room
  have htemp := h.temp
  have hbase := h.addressable
  have htop : w.esp + 36 + c.frame g = c.top g := hkeeps.entered.top
  obtain ⟨v, hv, hveip, hveax, hvmem, hvesp, hvsegs⟩ := handler_args h.code heip
  rw [hregs] at hveax hvmem
  -- the call
  let k := v.push (BitVec.ofNat 32 (v.eip + 1))
  have hcalled : Reachable (X86.step M) v (M.fns f k) :=
    reaches_callTable (hveip ▸ h.code.instr (k := 16) rfl) (by rw [hveax, hf])
  have hkesp : k.esp + 16 = w.esp := by
    change v.esp - 4 + 16 = w.esp
    omega
  have hksegs : k.segs = Function.update w.segs .ds kernelDS := hvsegs
  have hstack : ∀ i < 3, k.stack (i + 1) = (((w.push (c.regs .edx)).push (c.regs .ecx)).push (callRegs c.regs .ebx)).stack i := by
    intro i _
    rw [stack_push_succ v _ i (by omega)]
    exact stack_congr (n := i + 1) hvesp (fun x _ _ => congrFun hvmem x) (Nat.lt_succ_self i)
  refine ⟨k, ?_, ?_, ?_, by omega, fun s hcs hss => ?_, fun x hx => ?_, (hreach.trans hv).trans hcalled, fun hret => ?_⟩
  · rw [hstack 0 (by decide), stack_push_zero]
  · rw [hstack 1 (by decide), stack_push_succ _ _ _ (by simp only [push_esp]; omega), stack_push_zero]
  · rw [hstack 2 (by decide)]
    simp (disch := first | omega | simp only [push_esp]; omega) only [stack_push_succ, stack_push_zero]
  · rw [hksegs]
    by_cases hds : s = .ds
    · rw [hds, Function.update_self, if_pos rfl]
    · rw [Function.update_of_ne hds, if_neg hds, hsegs s hcs hss]
  · change (v.push _).mem x = c.mem x
    rw [push_mem_other v _ (by omega) (by omega), hvmem, ← hmem x (by omega)]
    simp (disch := first | omega | simp only [push_esp]; omega) only [push_mem_other]
  -- the value stored and the arguments dropped
  have hback : (M.fns f k).eip = base + 17 := by
    rw [hret.eip, stack_push_zero, BitVec.toNat_ofNat, hveip, Nat.mod_eq_of_lt (by omega)]
  let r := M.fns f k
  let y : Processor := { Op.exec { r with mem := store r.mem temp (r.regs .eax) } (.addlEsp 12) with eip := base + 19 }
  have hy : Reachable (X86.step M) r y := by
    have hops := reaches_ops (M := M) (c := r) [.movlToMem .eax temp, .addlEsp 12] (hback ▸ h.code.ops (k := 17) rfl)
    rw [hback] at hops
    exact hops
  have hyesp : y.esp = w.esp := by
    change r.esp + 12 = w.esp
    rw [hret.esp]
    omega
  have hkeep : y.Keeps c g (c.eip + 1) 36 := by
    refine hkeeps.congr (by decide) hyesp ?_ ?_ (fun x hx hx' => ?_)
    · change r.segs .cs = w.segs .cs
      rw [hret.cs, hksegs, Function.update_of_ne (by decide)]
    · change r.segs .ss = w.segs .ss
      rw [hret.ss, hksegs, Function.update_of_ne (by decide)]
    · change store r.mem temp (r.regs .eax) x = w.mem x
      rw [store_apply_other _ _ (by omega), hret.mem x ⟨by omega, hx'⟩]
      change (v.push _).mem x = w.mem x
      rw [push_mem_other v _ (by omega) (by omega), hvmem]
      simp (disch := first | omega | simp only [push_esp]; omega) only [push_mem_other]
  exact hy.trans (handler_end h.code hkeep rfl (v := r.regs .eax) (load_store_self r.mem temp (r.regs .eax)))

end ThreeTermOS
