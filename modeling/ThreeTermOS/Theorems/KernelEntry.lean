import ThreeTermOS.Lemmas.EntryCode

/-!
# Into the kernel and back

The assembly around the kernel's functions does what a caller relies on: each function is called with its arguments, and once it has
returned, an interrupt gives every general register back, a system call every one but `EAX`, and a call of the library is a call like
any other. Whether a function returns is no matter of this code: `halt_func` never does, and `pit_handler` does when its program goes on.
The data segments are what the function leaves in them, and `DS` is the kernel's during a system call. A program begins with the
registers `push_stack_iret` is given.
-/

namespace ThreeTermOS

open Runs X86

/-! ## Code with its functions -/

/-- The handlers, a call of `read` and the entry of a program, with functions that return 42 at once. -/
def linkedCode : Code CFunction where
  text a :=
    if a < 100 then (interruptHandlers 0)[a]?
    else if a < 200 then (syscallHandler 100 4096)[a - 100]?
    else if a < 300 then (doCall 3)[a - 200]?
    else (pushStackIret .ebx .ecx .edx .esi)[a - 300]?
  idt n := some { selector := kernelCS, offset := if n = 0x80 then 100 else 3, trap := n = 0x80, dpl := 3 }
  gdt := gdtSegments
  fns _ k := { k.setReg .eax 42 with esp := k.esp + 4, eip := (k.stack 0).toNat }

/-- A program about to call `read`, with interrupts on. -/
def callingProgram : Processor where
  regs _ := 7
  esp := 0x83FFF00
  mem _ := 5
  eflags := 0x202
  segs s := if s = .cs then userCS else userDS
  eip := 200
  esp0 := 0x7FDFF8
  ss0 := kernelDS

namespace KernelEntryAux

variable {M : Code CFunction} {c z : Processor} {g : Gate} {base temp : Nat}

/-- A handler up to its call: the registers are saved, and nothing else has changed. -/
theorem interrupt_saves {i : Intr} (h : InterruptReady M base i g c) :
    ∃ z : Processor, Reachable (X86.step M) (c.enter g c.eip) z ∧ z.Keeps c g c.eip 32 ∧ z.eip = base + 9 ∧
      intrJumpTable[(z.regs .eax).toNat]? = some (some i.fn) ∧ z.eflags = (c.enter g c.eip).eflags ∧
      (∀ s, s ≠ .cs → s ≠ .ss → z.segs s = c.segs s) ∧ ∀ x, x < c.top g - 52 ∨ c.top g ≤ x → z.mem x = c.mem x := by
  have hsize := frame_le c g
  have hroom := h.room
  have hent := enter_entered c g c.eip (by omega) h.esp h.eip
  have htop : (c.enter g c.eip).esp + c.frame g = c.top g := hent.top
  have hmem : ∀ x, x < c.top g - c.frame g ∨ c.top g ≤ x → (c.enter g c.eip).mem x = c.mem x := fun x hx => enter_mem (by omega) hx
  have hsegs : ∀ s, s ≠ .cs → s ≠ .ss → (c.enter g c.eip).segs s = c.segs s := fun s => enter_segs
  have hregs : (c.enter g c.eip).regs = c.regs := enter_regs
  have hstart : (c.enter g c.eip).eip = base + i.offset := h.offset
  generalize c.enter g c.eip = e at *
  have hops : CodeAt M e.eip (([.pushal, .movlImm (BitVec.ofNat 32 i.number) .eax] : List Op).map .op) := by
    rw [hstart]
    exact h.code.ops (by cases i <;> rfl)
  have hjmp : M.text (e.eip + 2) = some (.jmp (base + 9)) := by
    rw [hstart, Nat.add_assoc]
    exact h.code.instr (by cases i <;> rfl)
  have hkeeps := Processor.Keeps.of_pushal (n := 0) hent hregs (by omega)
  refine ⟨_, (reaches_ops _ hops).trans (reaches_instr hjmp rfl), hkeeps.congr (Nat.le_refl 32) rfl rfl rfl (fun _ _ _ => rfl), rfl,
    by cases i <;> rfl, rfl, hsegs, fun x hx => ?_⟩
  change (Op.pushal.exec e).mem x = c.mem x
  rw [pushal_mem e (by omega) (by omega), hmem x (by omega)]

end KernelEntryAux

open KernelEntryAux in
/-- Whatever is interrupted, and wherever: the function of the interrupt is called, with interrupts off where the gate says so and the
data segments of what is interrupted. When it has returned, the handler goes back with every general register, the flags, the stack and
the instruction pointer as they were. The data segments are those the function leaves, less what a program may not have: as they were,
if the function has not changed them. Only the function has done anything else. -/
theorem interrupt_transparent {M : Code CFunction} {base : Nat} {i : Intr} {g : Gate} {c : Processor}
    (h : InterruptReady M base i g c) :
    ∃ k, (g.trap = false → k.eflags.getLsbD ifBit = false) ∧ (∀ s, s ≠ .cs → s ≠ .ss → k.segs s = c.segs s) ∧
      (∀ x, x < c.top g - 56 ∨ c.top g ≤ x → k.mem x = c.mem x) ∧
      Reachable (X86.step M) (c.enter g c.eip) (M.fns i.fn k) ∧
      (Returned (fun x => k.esp + 4 ≤ x ∧ x < c.top g) k (M.fns i.fn k) → Reachable (X86.step M) (M.fns i.fn k)
        { c with
          segs := c.segsBack M.gdt g (M.fns i.fn k).segs
          mem := (M.fns i.fn k).mem
          esp0 := (M.fns i.fn k).esp0
          ss0 := (M.fns i.fn k).ss0 }) ∧
      ((M.fns i.fn k).segs = k.segs → c.segsBack M.gdt g (M.fns i.fn k).segs = c.segs) := by
  obtain ⟨z, hz, hkeeps, heip, hfn, hflags, hsegs, hmem⟩ := interrupt_saves h
  have hroom := h.room
  have hbase := h.addressable
  have hsize := frame_le c g
  have htop : z.esp + 32 + c.frame g = c.top g := hkeeps.entered.top
  let k := z.push (BitVec.ofNat 32 (z.eip + 1))
  have hcall : Reachable (X86.step M) z (M.fns i.fn k) := reaches_callTable (heip ▸ h.code.instr (k := 9) rfl) hfn
  have hkesp : k.esp + 4 = z.esp := by
    change z.esp - 4 + 4 = z.esp
    omega
  refine ⟨k, fun htrap => ?_, hsegs, fun x hx => ?_, hz.trans hcall, fun hret => ?_, fun hkept => ?_⟩
  · change z.eflags.getLsbD ifBit = false
    rw [hflags]
    change (if g.trap then c.eflags else withBit c.eflags ifBit false).getLsbD ifBit = false
    rw [htrap, if_neg Bool.false_ne_true, getLsbD_withBit_self _ _ (by decide)]
  · change (z.push _).mem x = c.mem x
    rw [push_mem_other z _ (by omega) (by omega), hmem x (by omega)]
  · rw [hkesp] at hret
    obtain ⟨hkeeps', -, hback⟩ := kept_call hkeeps (Nat.le_refl 32) (by omega) (by omega) hret
    change (M.fns i.fn k).Keeps c g c.eip 32 at hkeeps'
    change (M.fns i.fn k).eip = z.eip + 1 at hback
    rw [heip] at hback
    -- the registers are taken back, and `iret`
    have hpopal := reaches_instr (c := M.fns i.fn k) (M := M) (i := .op .popal) (hback ▸ h.code.instr (k := 10) rfl) rfl
    rw [hkeeps'.popal_eq, hback] at hpopal
    have hiret := reaches_iret (M := M) (z := { M.fns i.fn k with regs := c.regs, esp := (M.fns i.fn k).esp + 32, eip := base + 10 + 1 })
      (h.code.instr (k := 11) rfl) (hkeeps'.entered.congr rfl rfl rfl (fun _ _ _ => rfl))
    exact hpopal.trans hiret
  · rw [hkept]
    exact funext (fun s => segsBack_of_eq h.usable (hsegs s))

/-- The handlers of the linked code. -/
theorem linkedCode_handlers : CodeAt linkedCode 0 (interruptHandlers 0) := by
  intro i hi
  have hi' : i < 12 := hi
  change (if 0 + i < 100 then _ else _) = _
  rw [if_pos (by omega), Nat.zero_add]

/-- A function of the linked code returns. -/
theorem linkedCode_returned (keep : Nat → Prop) (f : CFunction) (k : Processor) : Returned keep k (linkedCode.fns f k) :=
  ⟨rfl, rfl, rfl, rfl, fun _ _ => rfl⟩

/-- The program has its own data segments. -/
theorem callingProgram_usable : callingProgram.SegsUsable gdtSegments := by
  intro s hcs _
  have hseg : callingProgram.segs s = userDS := if_neg hcs
  rw [hseg]
  exact .inr (by decide)

/-- A timer tick in the program. -/
theorem interrupt_transparent_tick :
    ∃ k, k.eflags.getLsbD ifBit = false ∧
      Reachable (X86.step linkedCode) (callingProgram.enter { selector := kernelCS, offset := 3, trap := false, dpl := 3 } 200)
        { callingProgram with mem := (linkedCode.fns .pitHandler k).mem, esp0 := k.esp0, ss0 := k.ss0 } := by
  have hready : InterruptReady linkedCode 0 .pit { selector := kernelCS, offset := 3, trap := false, dpl := 3 } callingProgram :=
    { code := linkedCode_handlers, addressable := by decide, offset := rfl, usable := callingProgram_usable, room := by decide,
      esp := by decide, eip := by decide }
  obtain ⟨k, hflags, -, -, hcall, hreturn, hsegs⟩ := interrupt_transparent hready
  have hback := hreturn (linkedCode_returned _ _ k)
  rw [hsegs rfl] at hback
  exact ⟨k, hflags rfl, hcall.trans hback⟩

/-! ## int $0x80 -/

open KernelEntryAux in
/-- From any state at `int $0x80`, with anything in `EAX`. A number from 1 to 10 has its function called, with `EBX`, `ECX` and `EDX` as
arguments (of a status for `halt`, the low byte) and the kernel's `DS`. When the function has returned, the processor goes on behind the
instruction with what it returned in `EAX` and every other general register, the flags and the stack pointer as they were. The data
segments are those the function leaves, less what a program may not have: if the function has not changed them, all as they were but for
`DS`, which is the kernel's; a program has lost it. Any other number, a negative one too, calls nothing and leaves -1, and `DS` too is as
it was. -/
theorem int80_returns {M : Code CFunction} {base temp : Nat} {g : Gate} {c : Processor} (h : SyscallReady M base temp g c) :
    (IsCallNumber (c.regs .eax) →
      ∃ f k, syscallJumpTable[(c.regs .eax).toNat]? = some (some f) ∧
        k.stack 1 = callRegs c.regs .ebx ∧ k.stack 2 = c.regs .ecx ∧ k.stack 3 = c.regs .edx ∧
        (∀ s, s ≠ .cs → s ≠ .ss → k.segs s = if s = .ds then kernelDS else c.segs s) ∧
        (∀ x, x < c.top g - 72 ∨ c.top g ≤ x → k.mem x = c.mem x) ∧
        Reachable (X86.step M) c (M.fns f k) ∧
        (Returned (fun x => k.esp + 16 ≤ x ∧ x < c.top g) k (M.fns f k) → Reachable (X86.step M) (M.fns f k)
          { c with
            regs := Function.update c.regs .eax ((M.fns f k).regs .eax)
            eip := c.eip + 1
            segs := c.segsBack M.gdt g (M.fns f k).segs
            mem := store (M.fns f k).mem temp ((M.fns f k).regs .eax)
            esp0 := (M.fns f k).esp0
            ss0 := (M.fns f k).ss0 }) ∧
        ((M.fns f k).segs = k.segs →
          c.segsBack M.gdt g (M.fns f k).segs = Function.update c.segs .ds (if level (c.segs .cs) = 0 then kernelDS else 0))) ∧
    (¬IsCallNumber (c.regs .eax) →
      ∃ m, (∀ x, x < c.top g - 56 ∨ c.top g ≤ x → x < temp ∨ temp + 4 ≤ x → m x = c.mem x) ∧
        Reachable (X86.step M) c { c with regs := Function.update c.regs .eax (-1), eip := c.eip + 1, mem := m }) := by
  refine ⟨fun hcall => ?_, int80_invalid h⟩
  obtain ⟨f, hf⟩ := callNumber_table hcall
  obtain ⟨k, hebx, hecx, hedx, -, hsegs, hmem, hreach, hreturn⟩ := int80_valid h hcall hf
  exact ⟨f, k, hf, hebx, hecx, hedx, hsegs, hmem, hreach, hreturn, fun hkept => segsBack_call h (by rw [hkept]; exact hsegs)⟩

/-- `syscall_handler` of the linked code. -/
theorem linkedCode_syscall : CodeAt linkedCode 100 (syscallHandler 100 4096) := by
  intro i hi
  have hi' : i < 23 := hi
  change (if 100 + i < 100 then _ else if 100 + i < 200 then _ else _) = _
  rw [if_neg (by omega), if_pos (by omega), Nat.add_sub_cancel_left]

/-- A processor of the linked code at an `int $0x80` of a program is ready for it. -/
theorem linkedCode_ready {c : Processor} (heip : c.eip = 205) (hesp : c.esp < 2 ^ 32) (hsegs : c.segs = callingProgram.segs)
    (htss : c.esp0 = callingProgram.esp0) :
    SyscallReady linkedCode 100 4096 { selector := kernelCS, offset := 100, trap := true, dpl := 3 } c := by
  have htop : c.top { selector := kernelCS, offset := 100, trap := true, dpl := 3 } = 0x7FDFF8 := by
    unfold Processor.top
    rw [hsegs, htss]
    rfl
  exact {
    code := linkedCode_syscall
    addressable := by decide
    gate := rfl
    offset := rfl
    selector := rfl
    dpl := rfl
    gdt := rfl
    usable := fun s hcs hss => by
      rw [hsegs]
      exact callingProgram_usable s hcs hss
    int := by
      rw [heip]
      rfl
    room := by rw [htop]; decide
    temp := by rw [htop]; decide
    esp := hesp
    eip := by rw [heip]; decide }

/-- The eleventh system call does not exist, and the seventh has its function called. -/
theorem int80_returns_linked :
    (∃ m, Reachable (X86.step linkedCode) { callingProgram with eip := 205, regs := fun _ => 11 }
      { callingProgram with regs := Function.update (fun _ => 11) .eax (-1), eip := 206, mem := m }) ∧
    ∃ m, ∃ k : Processor, k.stack 1 = 7 ∧ k.stack 2 = 7 ∧ k.stack 3 = 7 ∧
      Reachable (X86.step linkedCode) { callingProgram with eip := 205 } { callingProgram with
        regs := Function.update (fun _ => 7) .eax 42
        eip := 206
        segs := Function.update callingProgram.segs .ds 0
        mem := m
        esp0 := k.esp0
        ss0 := k.ss0 } := by
  have hready (v : Word) : SyscallReady linkedCode 100 4096 { selector := kernelCS, offset := 100, trap := true, dpl := 3 }
      { callingProgram with eip := 205, regs := fun _ => v } := linkedCode_ready rfl (by change 0x83FFF00 < 2 ^ 32; decide) rfl rfl
  constructor
  · obtain ⟨m, -, hreach⟩ := (int80_returns (hready 11)).2 (by decide)
    exact ⟨m, hreach⟩
  · obtain ⟨f, k, -, hebx, hecx, hedx, -, -, hcall, hreturn, hsegs⟩ := (int80_returns (hready 7)).1 (by decide)
    have hback := hreturn (linkedCode_returned _ f k)
    rw [hsegs rfl] at hback
    exact ⟨_, k, hebx, hecx, hedx, hcall.trans hback⟩

/-! ## The library -/

/-- The processor at the `int` of a system call of the library. -/
def atInt (number : Word) (c : Processor) : Processor :=
  { execOps c [.pushl .ebx, .movlImm number .eax, .movlStack 8 .ebx, .movlStack 12 .ecx, .movlStack 16 .edx] with eip := c.eip + 5 }

namespace KernelEntryAux

variable {M : Code CFunction} {c : Processor} {n : Word}

/-- The arguments on the stack are in the registers. -/
theorem atInt_regs (hroom : 4 ≤ c.esp) : (atInt n c).regs .eax = n ∧ (atInt n c).regs .ebx = c.stack 1 ∧
    (atInt n c).regs .ecx = c.stack 2 ∧ (atInt n c).regs .edx = c.stack 3 ∧
    ∀ r, r = .ebp ∨ r = .esi ∨ r = .edi → (atInt n c).regs r = c.regs r := by
  have hload (i : Nat) : load (c.push (c.regs .ebx)).mem ((c.push (c.regs .ebx)).esp + 4 * (i + 1)) = c.stack i :=
    stack_push_succ c (c.regs .ebx) i hroom
  refine ⟨rfl, hload 1, hload 2, hload 3, fun r hr => ?_⟩
  obtain rfl | rfl | rfl := hr <;> rfl

/-- The library behind its `int`. -/
theorem doCall_ends {w : Nat} {y : Processor} (hcode : CodeAt M w (doCall n)) (heip : y.eip = w + 6) :
    Reachable (X86.step M) y
      { y with regs := Function.update y.regs .ebx (y.stack 0), esp := y.esp + 8, eip := (y.stack 1).toNat } := by
  have hpop := reaches_instr (c := y) (M := M) (i := .op (.popl .ebx)) (heip ▸ hcode.instr (k := 6) rfl) rfl
  rw [heip] at hpop
  exact hpop.trans (reaches_instr (hcode.instr (k := 7) rfl) rfl)

end KernelEntryAux

open KernelEntryAux in
/-- A system call of the library is a call of the kernel's function, which gets the arguments of the call (of a status, the low byte). When
the function has returned, and left the two words the library has on the program's stack, so has the library, with the function's result
in `EAX` and the caller's `EBX`, `EBP`, `ESI`, `EDI` and flags. The program's memory is as the function has left it, and so are the data
segments, less what a program may not have. -/
theorem doCall_calls {M : Code CFunction} {base temp : Nat} {g : Gate} {c : Processor} {number : Word}
    (hcode : CodeAt M c.eip (doCall number)) (hnumber : IsCallNumber number) (h : SyscallReady M base temp g (atInt number c))
    (hroom : 4 ≤ c.esp) (hslots : c.esp + 4 ≤ (atInt number c).top g - 72 ∨ (atInt number c).top g ≤ c.esp - 4)
    (htemp : temp + 4 ≤ c.esp - 4 ∨ c.esp + 4 ≤ temp) :
    ∃ f k, syscallJumpTable[number.toNat]? = some (some f) ∧
      k.stack 1 = (if number = 1 then c.stack 1 &&& 0xFF else c.stack 1) ∧ k.stack 2 = c.stack 2 ∧ k.stack 3 = c.stack 3 ∧
      (∀ s, s ≠ .cs → s ≠ .ss → k.segs s = if s = .ds then kernelDS else c.segs s) ∧
      (∀ x, x < (atInt number c).top g - 72 ∨ (atInt number c).top g ≤ x → x < c.esp - 4 ∨ c.esp ≤ x → k.mem x = c.mem x) ∧
      Reachable (X86.step M) c (M.fns f k) ∧
      (Returned (fun x => k.esp + 16 ≤ x ∧ x < (atInt number c).top g ∨ c.esp - 4 ≤ x ∧ x < c.esp + 4) k (M.fns f k) →
        Reachable (X86.step M) (M.fns f k)
          { c with
            regs := Function.update (Function.update (Function.update c.regs .ecx (c.stack 2)) .edx (c.stack 3)) .eax
              ((M.fns f k).regs .eax)
            esp := c.esp + 4
            eip := (c.stack 0).toNat
            segs := c.segsBack M.gdt g (M.fns f k).segs
            mem := store (M.fns f k).mem temp ((M.fns f k).regs .eax)
            esp0 := (M.fns f k).esp0
            ss0 := (M.fns f k).ss0 }) ∧
      ((M.fns f k).segs = k.segs →
        c.segsBack M.gdt g (M.fns f k).segs = Function.update c.segs .ds (if level (c.segs .cs) = 0 then kernelDS else 0)) := by
  obtain ⟨heax, hebx, hecx, hedx, hregs⟩ := atInt_regs (n := number) hroom
  have hargs : Reachable (X86.step M) c (atInt number c) := reaches_ops _ (hcode.ops (k := 0) rfl)
  have hesp : (atInt number c).esp = c.esp - 4 := rfl
  have heip : (atInt number c).eip = c.eip + 5 := rfl
  have hmem : (atInt number c).mem = (c.push (c.regs .ebx)).mem := rfl
  have hkept : (atInt number c).segs = c.segs ∧ (atInt number c).eflags = c.eflags := ⟨rfl, rfl⟩
  generalize atInt number c = u at *
  obtain ⟨hsegs, hflags⟩ := hkept
  have hsegsBack : ∀ segs, u.segsBack M.gdt g segs = c.segsBack M.gdt g segs := by
    intro segs
    funext s
    unfold Processor.segsBack
    rw [hsegs]
  obtain ⟨f, hf⟩ := callNumber_table hnumber
  obtain ⟨k, hk1, hk2, hk3, -, hksegs, hkmem, hcall, hreturn⟩ := int80_valid h (heax ▸ hnumber) (heax ▸ hf)
  refine ⟨f, k, hf, ?_, hk2.trans hecx, hk3.trans hedx, ?_, fun x hx hx' => ?_, hargs.trans hcall, fun hret => ?_, fun hleft => ?_⟩
  · rw [hk1, callRegs, heax]
    split
    · rw [Function.update_self, hebx]
    · exact hebx
  · rw [hsegs] at hksegs
    exact hksegs
  · rw [hkmem x hx, hmem]
    exact push_mem_other c _ hroom hx'
  · have hback := hreturn (hret.mono (fun x hx => .inl hx))
    rw [heip, hsegsBack, hflags] at hback
    refine hback.trans ?_
    have hend := doCall_ends (M := M) (w := c.eip) (y := { u with
      regs := Function.update u.regs .eax ((M.fns f k).regs .eax)
      eflags := c.eflags
      eip := c.eip + 5 + 1
      segs := c.segsBack M.gdt g (M.fns f k).segs
      mem := store (M.fns f k).mem temp ((M.fns f k).regs .eax)
      esp0 := (M.fns f k).esp0
      ss0 := (M.fns f k).ss0 }) hcode rfl
    -- the stack of the program is as the library has left it
    have hstack : ∀ i < 2,
        load (store (M.fns f k).mem temp ((M.fns f k).regs .eax)) (c.esp - 4 + 4 * i) = (c.push (c.regs .ebx)).stack i :=
      fun i hi => load_congr (fun x hx hx' => by
        rw [store_apply_other _ _ (by omega), hret.mem x (.inr (by omega)), hkmem x (by omega), hmem])
    have h0 : load (store (M.fns f k).mem temp ((M.fns f k).regs .eax)) (u.esp + 4 * 0) = c.regs .ebx := by
      rw [hesp, hstack 0 (by decide), stack_push_zero]
    have h1 : load (store (M.fns f k).mem temp ((M.fns f k).regs .eax)) (u.esp + 4 * 1) = c.stack 0 := by
      rw [hesp, hstack 1 (by decide), stack_push_succ c _ 0 hroom]
    unfold Processor.stack at hend
    dsimp only at hend
    rw [h0, h1] at hend
    have hregs' : Function.update (Function.update u.regs .eax ((M.fns f k).regs .eax)) .ebx (c.regs .ebx) =
        Function.update (Function.update (Function.update c.regs .ecx (c.stack 2)) .edx (c.stack 3)) .eax ((M.fns f k).regs .eax) := by
      funext r
      cases r with
      | ecx => exact hecx
      | edx => exact hedx
      | eax => rfl
      | ebx => rfl
      | ebp => exact hregs .ebp (.inl rfl)
      | esi => exact hregs .esi (.inr (.inl rfl))
      | edi => exact hregs .edi (.inr (.inr rfl))
    have hesp' : u.esp + 8 = c.esp + 4 := by omega
    rw [hregs', hesp'] at hend
    exact hend
  · have hfnSegs : ∀ s, s ≠ .cs → s ≠ .ss → (M.fns f k).segs s = if s = .ds then kernelDS else u.segs s := by
      rw [hleft]; exact hksegs
    have hcalled := segsBack_call h hfnSegs
    rw [hsegsBack, hsegs] at hcalled
    exact hcalled

/-- The program calls `read`, and comes back with 42. -/
theorem doCall_calls_linked :
    ∃ k c' : Processor, k.stack 1 = callingProgram.stack 1 ∧ c'.regs .eax = 42 ∧ c'.regs .ebx = 7 ∧ c'.esp = 0x83FFF04 ∧
      c'.eip = (callingProgram.stack 0).toNat ∧ Reachable (X86.step linkedCode) callingProgram c' := by
  have hcode : CodeAt linkedCode callingProgram.eip (doCall 3) := by
    intro i hi
    have hi' : i < 8 := hi
    change (if 200 + i < 100 then _ else if 200 + i < 200 then _ else if 200 + i < 300 then (doCall 3)[200 + i - 200]? else _) = _
    rw [if_neg (by omega), if_neg (by omega), if_pos (by omega), Nat.add_sub_cancel_left]
  have hready := linkedCode_ready (c := atInt 3 callingProgram) rfl (by decide) rfl rfl
  obtain ⟨f, k, -, hk, -, -, -, -, hcall, hreturn, -⟩ :=
    doCall_calls hcode (by decide) hready (by decide) (.inr (by decide)) (.inl (by decide))
  exact ⟨k, _, hk, rfl, rfl, rfl, rfl, hcall.trans (hreturn (linkedCode_returned _ f k))⟩

/-! ## push_stack_iret -/

namespace KernelEntryAux

variable {M : Code CFunction} {c : Processor} {ds cs entry bottom : Gpr}

/-- The operands of `push_stack_iret` are not in the register that it works with, and the selectors are the program's. -/
structure ProgramOperands (c : Processor) (ds cs entry bottom : Gpr) : Prop where
  ds_ne : ds ≠ .eax
  cs_ne : cs ≠ .eax
  entry_ne : entry ≠ .eax
  bottom_ne : bottom ≠ .eax
  ds : (c.regs ds).setWidth 16 = userDS
  cs : (c.regs cs).setWidth 16 = userCS

/-- `push_stack_iret` sets the data segments. -/
theorem loads_segments (hcode : CodeAt M c.eip (pushStackIret ds cs entry bottom)) (h : ProgramOperands c ds cs entry bottom) :
    ∃ w fl, Reachable (X86.step M) c
        { c with
          regs := Function.update c.regs .eax w
          eflags := fl
          segs := fun s => if s = .cs ∨ s = .ss then c.segs s else userDS
          eip := c.eip + 7 } ∧
      w.setWidth 16 = userDS ∧
      ∀ i, i ≠ cfBit → i ≠ zfBit → i ≠ sfBit → i ≠ ifBit → i ≠ ofBit → fl.getLsbD i = c.eflags.getLsbD i := by
  have hops := reaches_ops [.cli, .xorl .eax .eax, .movw ds .eax, .movwToSeg .eax .ds, .movwToSeg .eax .es, .movwToSeg .eax .fs,
    .movwToSeg .eax .gs] (hcode.ops (k := 0) rfl)
  let c₁ := Op.exec (Op.exec c .cli) (.xorl .eax .eax)
  let c₂ := Op.exec c₁ (.movw ds .eax)
  have hds : (c₁.regs ds).setWidth 16 = userDS := by
    change (Function.update c.regs .eax _ ds).setWidth 16 = userDS
    rw [Function.update_of_ne h.ds_ne, h.ds]
  have hlow : (c₂.regs .eax).setWidth 16 = userDS := (setLow_self c₁ .eax _).trans hds
  have hregs : c₂.regs = Function.update c.regs .eax (c₂.regs .eax) := by
    change Function.update (Function.update c.regs .eax _) .eax _ = _
    rw [Function.update_idem]
    rfl
  have hsegs : Function.update (Function.update (Function.update (Function.update c.segs .ds ((c₂.regs .eax).setWidth 16)) .es
      ((c₂.regs .eax).setWidth 16)) .fs ((c₂.regs .eax).setWidth 16)) .gs ((c₂.regs .eax).setWidth 16) =
      fun s => if s = .cs ∨ s = .ss then c.segs s else userDS := by
    rw [hlow]
    funext s
    cases s <;> rfl
  refine ⟨c₂.regs .eax, c₂.eflags, ?_, hlow, fun i hcf hzf hsf hif hof => ?_⟩
  · rw [← hsegs, ← hregs]
    exact hops
  · change (resultFlags (withBit c.eflags ifBit false) _ false false).getLsbD i = _
    rw [resultFlags_other _ _ _ _ hcf hzf hsf hof, getLsbD_withBit_other _ _ hif.symm]

/-- `push_stack_iret` leaves on the stack what `iret` goes to the program with. -/
theorem pushes_program {z : Processor} {w : Nat} (hcode : CodeAt M w (pushStackIret ds cs entry bottom)) (heip : z.eip = w + 7)
    (h : ProgramOperands c ds cs entry bottom) (hregs : ∀ r, r ≠ .eax → z.regs r = c.regs r) (hroom : 20 ≤ z.esp) :
    ∃ m fl, Reachable (X86.step M) z
        { z with
          regs := Function.update z.regs .eax (c.regs entry)
          esp := z.esp - 20
          mem := m
          eflags := fl
          eip := w + 19 } ∧
      (∀ x, x < z.esp - 20 ∨ z.esp ≤ x → m x = z.mem x) ∧
      load m (z.esp - 20) = c.regs entry ∧ (load m (z.esp - 16)).setWidth 16 = userCS ∧ load m (z.esp - 12) = z.eflags ||| 0x200 ∧
      load m (z.esp - 8) = c.regs bottom ∧ load m (z.esp - 4) = z.regs .eax := by
  have hops := reaches_ops (c := z) [.pushl .eax, .movl bottom .eax, .pushl .eax, .pushfl, .popl .eax, .orlImm 0x200 .eax, .pushl .eax,
    .xorl .eax .eax, .movw cs .eax, .pushl .eax, .movl entry .eax, .pushl .eax] (heip ▸ hcode.ops (k := 7) rfl)
  obtain ⟨regs, esp, mem, eflags, segs, eip, esp0, ss0⟩ := z
  dsimp only at heip hregs hroom hops ⊢
  subst heip
  obtain ⟨a, rfl⟩ := Nat.exists_eq_add_of_le' hroom
  -- the flags are pushed, taken to set the interrupt flag in them, and pushed again
  simp only [execOps, List.foldl_cons, List.foldl_nil, Op.exec, Processor.push, Processor.setReg, Processor.setLow, Processor.setBits,
    Processor.stack, Function.update_self, Function.update_idem, Function.update_of_ne h.cs_ne, Function.update_of_ne h.entry_ne,
    Nat.reduceSubDiff, Nat.add_sub_cancel, Nat.reduceMul, Nat.add_zero, load_store_self, BitVec.xor_self, hregs _ h.bottom_ne,
    hregs _ h.entry_ne, hregs _ h.cs_ne, h.cs, Nat.reduceAdd, List.length_cons, List.length_nil, Nat.add_assoc] at hops
  simp only [Nat.reduceSubDiff, Nat.add_sub_cancel]
  refine ⟨_, _, hops, fun x hx => ?_, load_store_self _ _ _, ?_, ?_, ?_, ?_⟩
  · simp (disch := omega) only [store_apply_other]
  · rw [load_store_other _ _ (by omega), load_store_self, BitVec.setWidth_append, dif_pos (Nat.le_refl 16), BitVec.setWidth_eq]
  · rw [load_store_other _ _ (by omega), load_store_other _ _ (by omega), load_store_self]
  · simp (disch := omega) only [load_store_other, load_store_self]
  · simp (disch := omega) only [load_store_other, load_store_self]

end KernelEntryAux

open KernelEntryAux in
/-- From any state of the kernel, `push_stack_iret` goes to the program: at its entry point, at level 3, with its stack, its segments and
interrupts on. The general registers but `EAX` and the memory but for 20 bytes below the kernel's stack pointer are as they were, and
so is the stack the task state segment has for the kernel. -/
theorem pushStackIret_enters {M : Code CFunction} {c : Processor} {ds cs entry bottom : Gpr}
    (hcode : CodeAt M c.eip (pushStackIret ds cs entry bottom)) (h : ProgramOperands c ds cs entry bottom)
    (hlevel : level (c.segs .cs) = 0) (hgdt : M.gdt.take 6 = gdtSegments) (hroom : 20 ≤ c.esp) :
    ∃ m fl, Reachable (X86.step M) c
        { c with
          regs := Function.update c.regs .eax (c.regs entry)
          esp := (c.regs bottom).toNat
          mem := m
          eflags := fl
          segs := fun s => if s = .cs then userCS else userDS
          eip := (c.regs entry).toNat } ∧
      (∀ x, x < c.esp - 20 ∨ c.esp ≤ x → m x = c.mem x) ∧ fl.getLsbD ifBit = true ∧
      ∀ i, i ≠ cfBit → i ≠ zfBit → i ≠ sfBit → i ≠ ifBit → i ≠ ofBit → fl.getLsbD i = c.eflags.getLsbD i := by
  obtain ⟨v, fl, hsegments, hv, hflags⟩ := loads_segments hcode h
  obtain ⟨m, fl', hprogram, hmem, h0, h1, h2, h3, h4⟩ := pushes_program (z := { c with
    regs := Function.update c.regs .eax v
    eflags := fl
    segs := fun s => if s = .cs ∨ s = .ss then c.segs s else userDS
    eip := c.eip + 7 }) hcode rfl h (fun r hr => Function.update_of_ne hr _ _) hroom
  dsimp only at hprogram hmem h0 h1 h2 h3 h4
  rw [Function.update_self] at h4
  rw [Function.update_idem] at hprogram
  refine ⟨m, fl ||| 0x200, hsegments.trans (hprogram.trans ?_), hmem, ?_, fun i hcf hzf hsf hif hof => ?_⟩
  · refine reaches_instr (hcode.instr (k := 19) rfl) (congrArg Outcome.ok ?_)
    have haddr : c.esp - 20 + 4 = c.esp - 16 ∧ c.esp - 20 + 8 = c.esp - 12 ∧ c.esp - 20 + 12 = c.esp - 8 ∧
        c.esp - 20 + 16 = c.esp - 4 := by
      omega
    unfold Processor.iret Processor.stack
    dsimp only
    simp only [Nat.reduceMul, Nat.add_zero, haddr, h0, h1, h2, h3, h4, hv]
    have hkept : keptSeg M.gdt (level userCS) userDS = userDS := by
      unfold keptSeg
      rw [segDpl_eq hgdt (by decide)]
      rfl
    have houter : level (c.segs .cs) < level userCS := by
      rw [hlevel]
      decide
    rw [if_pos (Or.inl trivial), if_pos houter]
    congr 1
    funext s
    cases s with
    | cs => rfl
    | ss => rfl
    | _ => exact hkept
  · rw [BitVec.getLsbD_or]
    exact Bool.or_true _
  · have hbit : BitVec.getLsbD (0x200 : Word) i = false := by
      change (BitVec.twoPow 32 ifBit).getLsbD i = false
      simp [hif.symm]
    rw [BitVec.getLsbD_or, hbit, Bool.or_false, hflags i hcf hzf hsf hif hof]

/-- The kernel about to enter a program at 0x8048094. -/
def launchingKernel : Processor where
  regs
    | .ebx => userDS.setWidth 32
    | .ecx => userCS.setWidth 32
    | .edx => 0x8048094
    | .esi => 0x83FFFFC
    | _ => 0
  esp := 0x7FDF00
  mem _ := 5
  eflags := 0x46
  segs s := if s = .cs then kernelCS else kernelDS
  eip := 300
  esp0 := 0x7FDFF8
  ss0 := kernelDS

open KernelEntryAux in
/-- The kernel enters the program. -/
theorem pushStackIret_enters_program :
    ∃ c', c'.eip = 0x8048094 ∧ c'.esp = 0x83FFFFC ∧ level (c'.segs .cs) = 3 ∧ c'.eflags.getLsbD ifBit = true ∧
      Reachable (X86.step linkedCode) launchingKernel c' := by
  have hcode : CodeAt linkedCode launchingKernel.eip (pushStackIret .ebx .ecx .edx .esi) := by
    intro i hi
    have hi' : i < 20 := hi
    change (if 300 + i < 100 then _ else if 300 + i < 200 then _ else if 300 + i < 300 then _ else
      (pushStackIret .ebx .ecx .edx .esi)[300 + i - 300]?) = _
    rw [if_neg (by omega), if_neg (by omega), if_neg (by omega), Nat.add_sub_cancel_left]
  have hoperands : ProgramOperands launchingKernel .ebx .ecx .edx .esi :=
    ⟨by decide, by decide, by decide, by decide, by decide, by decide⟩
  obtain ⟨m, fl, hreach, -, hif, -⟩ := pushStackIret_enters hcode hoperands rfl rfl (by decide)
  refine ⟨_, ?_, ?_, ?_, ?_, hreach⟩
  · rfl
  · rfl
  · change level userCS = 3
    decide
  · exact hif

end ThreeTermOS
