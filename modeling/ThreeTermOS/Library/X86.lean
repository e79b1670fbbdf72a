import Mathlib.Algebra.GroupWithZero.Nat
import Mathlib.Logic.Function.Basic
import ThreeTermOS.Library.Bytes
import ThreeTermOS.Library.Runs

/-!
# A processor with a stack

The registers, the memory and the gates of a 32-bit processor, with the instructions that the entry code of a kernel is written in. A
function written in another language is what it makes of the processor; that it comes back to its caller at all is a property of its
own (`Returned`). Code is a function from addresses to instructions, each of which takes up one address; a stack does not go below
address 0. The parity and the adjust flag are left out, and `popf` and `cli` are what they are at level 0.
-/

namespace X86

open Bytes Runs

/-- A double word. -/
abbrev Word : Type := BitVec 32

/-- The general registers, but for the stack pointer. -/
inductive Gpr where
  | eax | ecx | edx | ebx | ebp | esi | edi
  deriving DecidableEq

/-- The segment registers. -/
inductive Seg where
  | cs | ss | ds | es | fs | gs
  deriving DecidableEq

/-- The processor with its memory; `esp0` and `ss0` are the task state segment's stack for the kernel. -/
structure Processor where
  regs : Gpr → Word
  esp : Nat
  mem : Nat → UInt8
  eflags : Word
  segs : Seg → BitVec 16
  eip : Nat
  esp0 : Nat
  ss0 : BitVec 16

/-! ## Double words in memory -/

/-- A byte of a double word. -/
def byteOf (w : Word) (i : Nat) : UInt8 := ⟨w.extractLsb' (8 * i) 8⟩

/-- The double word at an address, lowest byte first. -/
def load (m : Nat → UInt8) (a : Nat) : Word :=
  (m (a + 3)).toBitVec ++ (m (a + 2)).toBitVec ++ (m (a + 1)).toBitVec ++ (m a).toBitVec

/-- A double word stored at an address. -/
def store (m : Nat → UInt8) (a : Nat) (w : Word) : Nat → UInt8 := fill m a 4 (byteOf w)

/-- A word stored is read back. -/
@[simp] theorem load_store_self (m : Nat → UInt8) (a : Nat) (w : Word) : load (store m a w) a = w := by
  have hbyte : ∀ i < 4, store m a w (a + i) = byteOf w i := fun i hi => by
    rw [store, fill_of_mem m _ (Nat.le_add_right a i) (by omega), Nat.add_sub_cancel_left]
  have h0 := hbyte 0 (by decide)
  rw [Nat.add_zero] at h0
  unfold load
  rw [hbyte 3 (by decide), hbyte 2 (by decide), hbyte 1 (by decide), h0]
  apply BitVec.eq_of_getLsbD_eq
  intro i hi
  simp only [byteOf, BitVec.getLsbD_append, BitVec.getLsbD_extractLsb']
  grind

/-- A store leaves the bytes outside its word. -/
theorem store_apply_other (m : Nat → UInt8) {a x : Nat} (w : Word) (h : x < a ∨ a + 4 ≤ x) : store m a w x = m x :=
  fill_of_not_mem m _ (by omega)

/-- Memories that agree on four bytes hold the same double word. -/
theorem load_congr {m m' : Nat → UInt8} {a : Nat} (h : ∀ x, a ≤ x → x < a + 4 → m x = m' x) : load m a = load m' a := by
  unfold load
  rw [h (a + 3) (by omega) (by omega), h (a + 2) (by omega) (by omega), h (a + 1) (by omega) (by omega), h a (by omega) (by omega)]

/-- A store leaves the words apart from its own. -/
theorem load_store_other (m : Nat → UInt8) {a b : Nat} (w : Word) (h : b + 4 ≤ a ∨ a + 4 ≤ b) : load (store m a w) b = load m b :=
  load_congr (fun x hx hx' => store_apply_other m w (by omega))

/-! ## Flags -/

/-- A bit of a word set to a value. -/
def withBit (w : Word) (i : Nat) (b : Bool) : Word := if b then w ||| BitVec.twoPow 32 i else w &&& ~~~BitVec.twoPow 32 i

/-- The bit that is set has the value it is given. -/
theorem getLsbD_withBit_self (w : Word) {i : Nat} (b : Bool) (hi : i < 32) : (withBit w i b).getLsbD i = b := by
  cases b <;> simp [withBit, hi]

/-- The other bits stay. -/
theorem getLsbD_withBit_other (w : Word) {i j : Nat} (b : Bool) (hij : i ≠ j) : (withBit w i b).getLsbD j = w.getLsbD j := by
  cases b with
  | true => simp +contextual [withBit, hij]
  | false =>
    simp only [withBit, Bool.false_eq_true, if_false, BitVec.getLsbD_and, BitVec.getLsbD_not, BitVec.getLsbD_twoPow, hij, decide_false,
      Bool.and_false, Bool.not_false, Bool.and_true]
    by_cases hj : j < 32
    · simp [hj]
    · simp [hj, BitVec.getLsbD_of_ge w j (Nat.le_of_not_lt hj)]

/-- The places of the carry, zero, sign, interrupt and overflow flags. -/
def cfBit : Nat := 0

def zfBit : Nat := 6

def sfBit : Nat := 7

def ifBit : Nat := 9

def ofBit : Nat := 11

/-- The flags set by a result. -/
def resultFlags (eflags result : Word) (cf ovf : Bool) : Word :=
  withBit (withBit (withBit (withBit eflags zfBit (result = 0)) sfBit result.msb) ofBit ovf) cfBit cf

/-- The flags set by the comparison of `a` with `b`, as `a - b`. -/
def compareFlags (eflags a b : Word) : Word := resultFlags eflags (a - b) (a.ult b) (a.ssubOverflow b)

/-- The zero flag. -/
def zero (eflags : Word) : Bool := eflags.getLsbD zfBit

/-- The sign flag is not the overflow flag. -/
def less (eflags : Word) : Bool := eflags.getLsbD sfBit != eflags.getLsbD ofBit

/-- The zero flag says whether the result is zero. -/
theorem resultFlags_zf (w r : Word) (cf ovf : Bool) : (resultFlags w r cf ovf).getLsbD zfBit = decide (r = 0) := by
  unfold resultFlags
  rw [getLsbD_withBit_other _ _ (by decide), getLsbD_withBit_other _ _ (by decide), getLsbD_withBit_other _ _ (by decide),
    getLsbD_withBit_self _ _ (by decide)]

/-- The sign flag is the result's highest bit. -/
theorem resultFlags_sf (w r : Word) (cf ovf : Bool) : (resultFlags w r cf ovf).getLsbD sfBit = r.msb := by
  unfold resultFlags
  rw [getLsbD_withBit_other _ _ (by decide), getLsbD_withBit_other _ _ (by decide), getLsbD_withBit_self _ _ (by decide)]

/-- The overflow flag is the one given. -/
theorem resultFlags_of (w r : Word) (cf ovf : Bool) : (resultFlags w r cf ovf).getLsbD ofBit = ovf := by
  unfold resultFlags
  rw [getLsbD_withBit_other _ _ (by decide), getLsbD_withBit_self _ _ (by decide)]

/-- No other flag changes. -/
theorem resultFlags_other (w r : Word) (cf ovf : Bool) {i : Nat} (hcf : i ≠ cfBit) (hzf : i ≠ zfBit) (hsf : i ≠ sfBit)
    (hof : i ≠ ofBit) : (resultFlags w r cf ovf).getLsbD i = w.getLsbD i := by
  unfold resultFlags
  rw [getLsbD_withBit_other _ _ hcf.symm, getLsbD_withBit_other _ _ hof.symm, getLsbD_withBit_other _ _ hsf.symm,
    getLsbD_withBit_other _ _ hzf.symm]

/-- After a comparison, the zero flag says whether the operands are equal. -/
theorem zero_compareFlags (w a b : Word) : zero (compareFlags w a b) = decide (a = b) := by
  rw [zero, compareFlags, resultFlags_zf]
  have heq : a - b = 0#32 ↔ a = b := by rw [BitVec.sub_eq_iff_eq_add, BitVec.zero_add]
  exact decide_eq_decide.mpr heq

/-- After a comparison, the sign and the overflow flag differ when the first operand is the lesser one, with sign. -/
theorem less_compareFlags (w a b : Word) : less (compareFlags w a b) = a.slt b := by
  rw [less, compareFlags, resultFlags_sf, resultFlags_of, BitVec.msb_eq_toInt, BitVec.toInt_sub, BitVec.slt_eq_decide]
  have ha := BitVec.toInt_lt (x := a)
  have ha' := BitVec.le_toInt a
  have hb := BitVec.toInt_lt (x := b)
  have hb' := BitVec.le_toInt b
  have hbmod : ((a.toInt - b.toInt).bmod (2 ^ 32) < 0) ↔
      (a.toInt - b.toInt < 0 ∧ -2 ^ 31 ≤ a.toInt - b.toInt) ∨ 2 ^ 31 ≤ a.toInt - b.toInt := by
    rw [Int.bmod_def]
    split <;> omega
  have hover : a.ssubOverflow b = decide (2 ^ 31 ≤ a.toInt - b.toInt ∨ a.toInt - b.toInt < -2 ^ 31) := by
    rw [Bool.decide_or]
    rfl
  rw [hover, Bool.eq_iff_iff, bne_iff_ne, ne_eq, decide_eq_decide, decide_eq_true_iff, hbmod]
  omega

/-! ## The stack -/

/-- A double word pushed. -/
def Processor.push (c : Processor) (w : Word) : Processor := { c with esp := c.esp - 4, mem := store c.mem (c.esp - 4) w }

/-- The double words from the stack pointer up, by their number. -/
def Processor.stack (c : Processor) (i : Nat) : Word := load c.mem (c.esp + 4 * i)

section Stack

variable (c : Processor) (w : Word)

/-- A push moves the stack down by a word. -/
@[simp] theorem push_esp : (c.push w).esp = c.esp - 4 := rfl

/-- A push leaves the registers. -/
@[simp] theorem push_regs : (c.push w).regs = c.regs := rfl

/-- A push leaves the segment registers. -/
@[simp] theorem push_segs : (c.push w).segs = c.segs := rfl

/-- A push leaves the flags. -/
@[simp] theorem push_eflags : (c.push w).eflags = c.eflags := rfl

/-- A push leaves the instruction pointer. -/
@[simp] theorem push_eip : (c.push w).eip = c.eip := rfl

/-- A push leaves the task's stack pointer. -/
@[simp] theorem push_esp0 : (c.push w).esp0 = c.esp0 := rfl

/-- A push leaves the task's stack segment. -/
@[simp] theorem push_ss0 : (c.push w).ss0 = c.ss0 := rfl

/-- The word on top of the stack is the one pushed. -/
@[simp] theorem stack_push_zero : (c.push w).stack 0 = w := load_store_self c.mem (c.esp - 4) w

/-- What was on the stack is one place further down. -/
theorem stack_push_succ (i : Nat) (h : 4 ≤ c.esp) : (c.push w).stack (i + 1) = c.stack i := by
  have haddr : c.esp - 4 + 4 * (i + 1) = c.esp + 4 * i := by omega
  unfold Processor.stack Processor.push
  dsimp only
  rw [haddr, load_store_other _ _ (Or.inr (by omega))]

/-- A push writes the four bytes below the stack pointer. -/
theorem push_mem_other {x : Nat} (hroom : 4 ≤ c.esp) (h : x < c.esp - 4 ∨ c.esp ≤ x) : (c.push w).mem x = c.mem x :=
  store_apply_other c.mem w (by omega)

/-- A stack whose bytes are as they were holds the same double words. -/
theorem stack_congr {c c' : Processor} (hesp : c'.esp = c.esp) {n : Nat}
    (hmem : ∀ x, c.esp ≤ x → x < c.esp + 4 * n → c'.mem x = c.mem x) {i : Nat} (hi : i < n) : c'.stack i = c.stack i := by
  unfold Processor.stack
  rw [hesp]
  exact load_congr (fun x hx hx' => hmem x (by omega) (by omega))

end Stack

/-! ## Instructions -/

/-- The instructions that go on to the next one, with their operands in the order they are written in. -/
inductive Op where
  | pushl (r : Gpr)
  | popl (r : Gpr)
  | pushfl
  | popfl
  | pushal
  | popal
  /-- `movl $v, %r` -/
  | movlImm (v : Word) (r : Gpr)
  | movl (src dst : Gpr)
  /-- `movl off(%esp), %r` -/
  | movlStack (off : Nat) (r : Gpr)
  /-- `movl $v, a` -/
  | movlImmMem (v : Word) (a : Nat)
  /-- `movl %r, a` -/
  | movlToMem (r : Gpr) (a : Nat)
  /-- `movl a, %r` -/
  | movlFromMem (a : Nat) (r : Gpr)
  /-- `movw $v, %r`, in the low half of the register -/
  | movwImm (v : BitVec 16) (r : Gpr)
  /-- `movw %src, %dst`, between the low halves -/
  | movw (src dst : Gpr)
  /-- `movw %r, %s` -/
  | movwToSeg (r : Gpr) (s : Seg)
  | xorl (src dst : Gpr)
  | andlImm (v : Word) (r : Gpr)
  | orlImm (v : Word) (r : Gpr)
  /-- `cmpl $v, %r` -/
  | cmplImm (v : Word) (r : Gpr)
  /-- `addl $n, %esp` -/
  | addlEsp (n : Nat)
  | cli

/-- A register set. -/
def Processor.setReg (c : Processor) (r : Gpr) (w : Word) : Processor := { c with regs := Function.update c.regs r w }

/-- The low half of a register set. -/
def Processor.setLow (c : Processor) (r : Gpr) (v : BitVec 16) : Processor := c.setReg r ((c.regs r).extractLsb' 16 16 ++ v)

/-- The low half of a register has the value it is given. -/
theorem setLow_self (c : Processor) (r : Gpr) (v : BitVec 16) : ((c.setLow r v).regs r).setWidth 16 = v := by
  change (Function.update c.regs r ((c.regs r).extractLsb' 16 16 ++ v) r).setWidth 16 = v
  rw [Function.update_self, BitVec.setWidth_append, dif_pos (Nat.le_refl 16), BitVec.setWidth_eq]

/-- A register set to the result of a bitwise instruction. -/
def Processor.setBits (c : Processor) (r : Gpr) (w : Word) : Processor := { c.setReg r w with eflags := resultFlags c.eflags w false false }

/-- The registers `popal` takes from the stack. -/
def Processor.popped (c : Processor) : Gpr → Word
  | .edi => c.stack 0
  | .esi => c.stack 1
  | .ebp => c.stack 2
  | .ebx => c.stack 4
  | .edx => c.stack 5
  | .ecx => c.stack 6
  | .eax => c.stack 7

/-- The effect of an instruction, but for going on. -/
def Op.exec (c : Processor) : Op → Processor
  | .pushl r => c.push (c.regs r)
  | .popl r => { c.setReg r (c.stack 0) with esp := c.esp + 4 }
  | .pushfl => c.push c.eflags
  | .popfl => { c with eflags := c.stack 0, esp := c.esp + 4 }
  | .pushal =>
    -- the stack pointer is stored as it was before
    let c' := (((c.push (c.regs .eax)).push (c.regs .ecx)).push (c.regs .edx)).push (c.regs .ebx)
    (((c'.push (BitVec.ofNat 32 c.esp)).push (c.regs .ebp)).push (c.regs .esi)).push (c.regs .edi)
  | .popal => { c with regs := c.popped, esp := c.esp + 32 }
  | .movlImm v r => c.setReg r v
  | .movl src dst => c.setReg dst (c.regs src)
  | .movlStack off r => c.setReg r (load c.mem (c.esp + off))
  | .movlImmMem v a => { c with mem := store c.mem a v }
  | .movlToMem r a => { c with mem := store c.mem a (c.regs r) }
  | .movlFromMem a r => c.setReg r (load c.mem a)
  | .movwImm v r => c.setLow r v
  | .movw src dst => c.setLow dst ((c.regs src).setWidth 16)
  | .movwToSeg r s => { c with segs := Function.update c.segs s ((c.regs r).setWidth 16) }
  | .xorl src dst => c.setBits dst (c.regs dst ^^^ c.regs src)
  | .andlImm v r => c.setBits r (c.regs r &&& v)
  | .orlImm v r => c.setBits r (c.regs r ||| v)
  | .cmplImm v r => { c with eflags := compareFlags c.eflags (c.regs r) v }
  | .addlEsp n =>
    let a := BitVec.ofNat 32 c.esp
    let b := BitVec.ofNat 32 n
    { c with esp := c.esp + n, eflags := resultFlags c.eflags (a + b) (a.uaddOverflow b) (a.saddOverflow b) }
  | .cli => { c with eflags := withBit c.eflags ifBit false }

/-- The other instructions. `callTable` is `call *table(,%eax,4)`. -/
inductive Insn (φ : Type) where
  | op (o : Op)
  | jg (l : Nat)
  | jnl (l : Nat)
  | jne (l : Nat)
  | jmp (l : Nat)
  | callTable (table : List (Option φ))
  | int (n : Nat)
  | iret
  | ret

/-- A gate of the descriptor table: the code it leads to, whether it leaves interrupts enabled, the level that may use it with
`int`. -/
structure Gate where
  selector : BitVec 16
  offset : Nat
  trap : Bool
  dpl : Nat

/-- What the processor takes an entry of the descriptor table for: a gate of 32-bit code, if it is present. Task gates and gates of
16-bit code are left out. -/
def gateOf (q : BitVec 64) : Option Gate :=
  let access := q.extractLsb' 40 8
  if access.getLsbD 7 = true ∧ access.extractLsb' 1 4 = 0b0111 then
    some {
      selector := q.extractLsb' 16 16
      offset := (q.extractLsb' 48 16 ++ q.extractLsb' 0 16).toNat
      trap := access.getLsbD 0
      dpl := (access.extractLsb' 5 2).toNat }
  else none

/-- The code in memory, the gates, the segment descriptors, and what each function makes of the processor from its first instruction
to its return. -/
structure Code (φ : Type) where
  text : Nat → Option (Insn φ)
  idt : Nat → Option Gate
  gdt : List (BitVec 64)
  fns : φ → Processor → Processor

/-- The level a selector asks for. -/
def level (selector : BitVec 16) : Nat := selector.toNat % 4

/-- The level the segment of a selector is for. -/
def segDpl (gdt : List (BitVec 64)) (selector : BitVec 16) : Nat := ((gdt[selector.toNat / 8]?.getD 0).extractLsb' 45 2).toNat

/-- Where the stack begins that a gate is entered on: coming from an outer level, it is the task state segment's. -/
def Processor.top (c : Processor) (g : Gate) : Nat := if level g.selector < level (c.segs .cs) then c.esp0 else c.esp

/-- The number of bytes a gate leaves on the stack. -/
def Processor.frame (c : Processor) (g : Gate) : Nat := if level g.selector < level (c.segs .cs) then 20 else 12

/-- The stack a gate is entered on: an inner level's begins with where the outer one's is. -/
def Processor.switchStack (c : Processor) (g : Gate) : Processor :=
  if level g.selector < level (c.segs .cs) then
    (({ c with esp := c.esp0, segs := Function.update c.segs .ss c.ss0 } : Processor).push ((c.segs .ss).setWidth 32)).push
      (BitVec.ofNat 32 c.esp)
  else c

/-- A gate entered, to come back to the address `next`. -/
def Processor.enter (c : Processor) (g : Gate) (next : Nat) : Processor :=
  let k := (((c.switchStack g).push c.eflags).push ((c.segs .cs).setWidth 32)).push (BitVec.ofNat 32 next)
  { k with
    segs := Function.update k.segs .cs g.selector
    eflags := if g.trap then c.eflags else withBit c.eflags ifBit false
    eip := g.offset }

/-- A data segment on the way to an outer level: one that is not for it is lost. -/
def keptSeg (gdt : List (BitVec 64)) (outer : Nat) (selector : BitVec 16) : BitVec 16 :=
  if segDpl gdt selector < outer then 0 else selector

/-- `iret`: to an outer level, the stack is taken back too. -/
def Processor.iret (gdt : List (BitVec 64)) (c : Processor) : Processor :=
  let cs := (c.stack 1).setWidth 16
  let k := { c with eip := (c.stack 0).toNat, eflags := c.stack 2 }
  if level (c.segs .cs) < level cs then
    { k with
      segs := Function.update (Function.update (fun s => keptSeg gdt (level cs) (c.segs s)) .cs cs) .ss ((c.stack 4).setWidth 16)
      esp := (c.stack 3).toNat }
  else { k with segs := Function.update c.segs .cs cs, esp := c.esp + 12 }

/-- Why the processor stops. -/
inductive Fault where
  | noCode | noFunction | noGate | protection
  deriving DecidableEq, Repr

/-- The effect of an instruction. -/
def Insn.exec {φ : Type} (M : Code φ) (c : Processor) : Insn φ → Outcome Fault Processor
  | .op o => .ok { o.exec c with eip := c.eip + 1 }
  | .jg l => .ok { c with eip := if less c.eflags || zero c.eflags then c.eip + 1 else l }
  | .jnl l => .ok { c with eip := if less c.eflags then c.eip + 1 else l }
  | .jne l => .ok { c with eip := if zero c.eflags then c.eip + 1 else l }
  | .jmp l => .ok { c with eip := l }
  | .callTable table =>
    match table[(c.regs .eax).toNat]? with
    | some (some f) => .ok (M.fns f (c.push (BitVec.ofNat 32 (c.eip + 1))))
    | _ => .stop .noFunction c
  | .int n =>
    match M.idt n with
    | none => .stop .noGate c
    | some g => if g.dpl < level (c.segs .cs) then .stop .protection c else .ok (c.enter g (c.eip + 1))
  | .iret => .ok (c.iret M.gdt)
  | .ret => .ok { c with eip := (c.stack 0).toNat, esp := c.esp + 4 }

/-- One step of the processor. -/
def step {φ : Type} (M : Code φ) (c : Processor) (_ : Unit) : Outcome Fault Processor :=
  match M.text c.eip with
  | none => .stop .noCode c
  | some i => i.exec M c

/-- A function has returned: to the address on the stack, on the stack and in the code it was called from, with the bytes that it has no
business with as they were. The general registers and the data segments are as it leaves them. -/
structure Returned (keep : Nat → Prop) (c c' : Processor) : Prop where
  esp : c'.esp = c.esp + 4
  eip : c'.eip = (c.stack 0).toNat
  cs : c'.segs .cs = c.segs .cs
  ss : c'.segs .ss = c.segs .ss
  mem : ∀ x, keep x → c'.mem x = c.mem x

/-- A function that leaves more than it has to. -/
theorem Returned.mono {keep keep' : Nat → Prop} {c c' : Processor} (h : Returned keep c c') (hle : ∀ x, keep' x → keep x) :
    Returned keep' c c' :=
  ⟨h.esp, h.eip, h.cs, h.ss, fun x hx => h.mem x (hle x hx)⟩

/-! ## Rules -/

section Rules

variable {φ : Type} {M : Code φ} {c c' : Processor}

/-- The code from an address on. -/
def CodeAt (M : Code φ) (base : Nat) (l : List (Insn φ)) : Prop := ∀ i < l.length, M.text (base + i) = l[i]?

/-- The effect of instructions one after the other, but for going on. -/
def execOps (c : Processor) (ops : List Op) : Processor := ops.foldl Op.exec c

/-- What an instruction does has nothing to do with where it stands. -/
theorem Op.exec_setEip (c : Processor) (o : Op) (a : Nat) : o.exec { c with eip := a } = { o.exec c with eip := a } := by cases o <;> rfl

/-- Straight-line code does not look at the instruction pointer. -/
theorem execOps_setEip (c : Processor) (ops : List Op) (a : Nat) : execOps { c with eip := a } ops = { execOps c ops with eip := a } := by
  induction ops generalizing c with
  | nil => rfl
  | cons o ops ih =>
    change execOps (o.exec { c with eip := a }) ops = _
    rw [Op.exec_setEip, ih]
    rfl

/-- An instruction of the code. -/
theorem CodeAt.instr {base : Nat} {l : List (Insn φ)} (h : CodeAt M base l) {k : Nat} {i : Insn φ} (hi : l[k]? = some i) :
    M.text (base + k) = some i := by
  obtain ⟨hk, -⟩ := List.getElem?_eq_some_iff.mp hi
  rw [h k hk, hi]

/-- A part of the code that goes on from one instruction to the next. -/
theorem CodeAt.ops {base : Nat} {l : List (Insn φ)} (h : CodeAt M base l) {k : Nat} {ops : List Op}
    (hops : (l.drop k).take ops.length = ops.map .op) : CodeAt M (base + k) (ops.map .op) := by
  intro i hi
  have hlen := congrArg List.length hops
  rw [List.length_take, List.length_drop, List.length_map] at hlen
  rw [List.length_map] at hi
  rw [Nat.add_assoc, h (k + i) (by omega), ← hops, List.getElem?_take_of_lt hi, List.getElem?_drop]

/-- One instruction. -/
theorem reaches_instr {i : Insn φ} (hi : M.text c.eip = some i) (hc : i.exec M c = .ok c') : Reachable (step M) c c' :=
  ⟨[()], by simp [step, hi, hc]⟩

/-- A gate used by code that may use it. -/
theorem reaches_int {n : Nat} {g : Gate} (hi : M.text c.eip = some (.int n)) (hg : M.idt n = some g)
    (hdpl : ¬g.dpl < level (c.segs .cs)) : Reachable (step M) c (c.enter g (c.eip + 1)) :=
  reaches_instr hi (by simp [Insn.exec, hg, hdpl])

/-- A function called through a table. -/
theorem reaches_callTable {table : List (Option φ)} {f : φ} (hi : M.text c.eip = some (.callTable table))
    (hf : table[(c.regs .eax).toNat]? = some (some f)) :
    Reachable (step M) c (M.fns f (c.push (BitVec.ofNat 32 (c.eip + 1)))) :=
  reaches_instr hi (by simp [Insn.exec, hf])

/-- Instructions one after the other. -/
theorem reaches_ops (ops : List Op) (hcode : CodeAt M c.eip (ops.map .op)) :
    Reachable (step M) c { execOps c ops with eip := c.eip + ops.length } := by
  induction ops generalizing c with
  | nil => exact Reachable.refl c
  | cons o ops ih =>
    have hfirst : M.text c.eip = some (.op o) := hcode.instr (k := 0) rfl
    have hrest : CodeAt M (c.eip + 1) (ops.map .op) := hcode.ops (List.take_of_length_le (by simp))
    refine (reaches_instr hfirst rfl).trans ?_
    have hgo := ih (c := { o.exec c with eip := c.eip + 1 }) hrest
    rw [execOps_setEip] at hgo
    have hlen : c.eip + 1 + ops.length = c.eip + (o :: ops).length := by rw [List.length_cons]; omega
    dsimp only at hgo
    rw [hlen] at hgo
    exact hgo

/-! ### pushal and popal -/

/-- `pushal` saves the registers, and what was on the stack is eight places further down. -/
theorem pushal_stack (c : Processor) (h : 32 ≤ c.esp) :
    (Op.pushal.exec c).popped = c.regs ∧ ∀ i, (Op.pushal.exec c).stack (i + 8) = c.stack i := by
  unfold Op.exec
  refine ⟨?_, fun i => ?_⟩
  · funext r
    cases r <;> simp (disch := first | omega | simp only [push_esp]; omega) only [Processor.popped, stack_push_zero, stack_push_succ]
  · simp (disch := first | omega | simp only [push_esp]; omega) only [stack_push_succ]

/-- `pushal` stores only in the eight words below the stack pointer. -/
theorem pushal_mem (c : Processor) {x : Nat} (h : 32 ≤ c.esp) (hx : x < c.esp - 32 ∨ c.esp ≤ x) :
    (Op.pushal.exec c).mem x = c.mem x := by
  unfold Op.exec
  simp (disch := first | omega | simp only [push_esp]; omega) only [push_mem_other]

/-- `pushal` moves the stack down by eight words. -/
theorem pushal_esp (c : Processor) : (Op.pushal.exec c).esp = c.esp - 32 := by
  unfold Op.exec
  simp only [push_esp]
  omega

/-! ### Gates and iret -/

/-- What `iret` finds on the stack when it is to go back to `next` and to the state in which a gate was entered. -/
structure Processor.Entered (k c : Processor) (g : Gate) (next : Nat) : Prop where
  eip : (k.stack 0).toNat = next
  cs : (k.stack 1).setWidth 16 = c.segs .cs
  eflags : k.stack 2 = c.eflags
  selector : k.segs .cs = g.selector
  top : k.esp + c.frame g = c.top g
  inner : ¬level g.selector < level (c.segs .cs) → k.segs .ss = c.segs .ss
  outer : level g.selector < level (c.segs .cs) → (k.stack 3).toNat = c.esp ∧ (k.stack 4).setWidth 16 = c.segs .ss

variable {g : Gate} {next : Nat} {z : Processor}

/-- A selector pushed as a word keeps its value. -/
theorem setWidth_setWidth_selector (v : BitVec 16) : (v.setWidth 32).setWidth 16 = v := by
  rw [BitVec.setWidth_setWidth_of_le _ (by decide), BitVec.setWidth_eq]

/-- On the stack it enters on, a gate finds room for its frame. -/
theorem switchStack_esp (c : Processor) (g : Gate) (hroom : 20 ≤ c.top g) : (c.switchStack g).esp + c.frame g = c.top g + 12 := by
  unfold Processor.top at hroom
  unfold Processor.switchStack Processor.frame Processor.top
  split at hroom <;> rename_i hout
  · rw [if_pos hout, if_pos hout, if_pos hout]
    simp only [push_esp]
    omega
  · rw [if_neg hout, if_neg hout, if_neg hout]

/-- A gate pushes between three and five words. -/
theorem frame_le (c : Processor) (g : Gate) : 12 ≤ c.frame g ∧ c.frame g ≤ 20 := by
  unfold Processor.frame
  split <;> decide

/-- The code a gate leads to finds on its stack what takes it back. -/
theorem enter_entered (c : Processor) (g : Gate) (next : Nat) (hroom : 20 ≤ c.top g) (hesp : c.esp < 2 ^ 32) (hnext : next < 2 ^ 32) :
    (c.enter g next).Entered c g next := by
  have hstack : ∀ i, (c.enter g next).stack i = ((((c.switchStack g).push c.eflags).push ((c.segs .cs).setWidth 32)).push
      (BitVec.ofNat 32 next)).stack i := fun i => rfl
  have hsize := frame_le c g
  have hswitch := switchStack_esp c g hroom
  constructor
  · rw [hstack, stack_push_zero, BitVec.toNat_ofNat, Nat.mod_eq_of_lt hnext]
  · rw [hstack, stack_push_succ _ _ _ (by simp only [push_esp]; omega), stack_push_zero, setWidth_setWidth_selector]
  · rw [hstack]
    simp (disch := first | omega | simp only [push_esp]; omega) only [stack_push_succ, stack_push_zero]
  · rfl
  · change (c.switchStack g).esp - 4 - 4 - 4 + c.frame g = c.top g
    omega
  · intro hin
    change Function.update (c.switchStack g).segs .cs g.selector .ss = c.segs .ss
    rw [Function.update_of_ne (by decide), Processor.switchStack, if_neg hin]
  · intro hout
    rw [Processor.top, if_pos hout] at hroom
    rw [Processor.frame, Processor.top, if_pos hout, if_pos hout] at hswitch
    rw [hstack, hstack]
    simp (disch := first | omega | simp only [push_esp]; omega) only [stack_push_succ]
    unfold Processor.switchStack
    rw [if_pos hout, stack_push_zero, stack_push_succ _ _ _ (by simp only [push_esp]; omega), stack_push_zero, BitVec.toNat_ofNat,
      Nat.mod_eq_of_lt hesp]
    exact ⟨rfl, setWidth_setWidth_selector _⟩

/-- A gate writes only what it leaves on the stack. -/
theorem enter_mem {x : Nat} (hroom : 20 ≤ c.top g) (hx : x < c.top g - c.frame g ∨ c.top g ≤ x) :
    (c.enter g next).mem x = c.mem x := by
  have hsize := frame_le c g
  have hswitch := switchStack_esp c g hroom
  have hbelow : (c.enter g next).mem x = (c.switchStack g).mem x := by
    change ((((c.switchStack g).push c.eflags).push ((c.segs .cs).setWidth 32)).push (BitVec.ofNat 32 next)).mem x = _
    simp (disch := first | omega | simp only [push_esp]; omega) only [push_mem_other]
  rw [hbelow]
  unfold Processor.switchStack
  split
  · rename_i hout
    rw [Processor.top, if_pos hout] at hroom
    rw [Processor.frame, Processor.top, if_pos hout, if_pos hout] at hx
    simp (disch := first | omega | simp only [push_esp]; omega) only [push_mem_other]
  · rfl

/-- Entering through a gate leaves the registers. -/
theorem enter_regs : (c.enter g next).regs = c.regs := by
  change (c.switchStack g).regs = c.regs
  unfold Processor.switchStack
  split <;> rfl

/-- Entering through a gate leaves the task's stack. -/
theorem enter_tss : (c.enter g next).esp0 = c.esp0 ∧ (c.enter g next).ss0 = c.ss0 := by
  change (c.switchStack g).esp0 = c.esp0 ∧ (c.switchStack g).ss0 = c.ss0
  unfold Processor.switchStack
  split <;> exact ⟨rfl, rfl⟩

/-- Entering through a gate leaves the segment registers but CS and SS. -/
theorem enter_segs {s : Seg} (hcs : s ≠ .cs) (hss : s ≠ .ss) : (c.enter g next).segs s = c.segs s := by
  change Function.update (c.switchStack g).segs .cs g.selector s = c.segs s
  rw [Function.update_of_ne hcs]
  unfold Processor.switchStack
  split
  · exact Function.update_of_ne hss _ _
  · rfl

/-- What `iret` finds stays as long as these bytes and the segments of the code and the stack do. -/
theorem Processor.Entered.congr {k k' : Processor} (h : k.Entered c g next) (hesp : k'.esp = k.esp) (hcs : k'.segs .cs = k.segs .cs)
    (hss : k'.segs .ss = k.segs .ss) (hmem : ∀ x, k.esp ≤ x → x < c.top g → k'.mem x = k.mem x) : k'.Entered c g next := by
  have htop := h.top
  have hsize := frame_le c g
  have hstack : ∀ i < 3, k'.stack i = k.stack i := fun i hi =>
    stack_congr hesp (fun x hx hx' => hmem x hx (by omega)) hi
  refine ⟨by rw [hstack 0 (by decide), h.eip], by rw [hstack 1 (by decide), h.cs], by rw [hstack 2 (by decide), h.eflags],
    hcs.trans h.selector, by rw [hesp, htop], fun hout => hss.trans (h.inner hout), fun hout => ?_⟩
  have hframe : c.frame g = 20 := if_pos hout
  have hstack' : ∀ i < 5, k'.stack i = k.stack i := fun i hi =>
    stack_congr hesp (fun x hx hx' => hmem x hx (by omega)) hi
  rw [hstack' 3 (by decide), hstack' 4 (by decide)]
  exact h.outer hout

/-- The segments with which `iret` goes back to the state in which a gate was entered, from code that has these. -/
def Processor.segsBack (gdt : List (BitVec 64)) (c : Processor) (g : Gate) (segs : Seg → BitVec 16) (s : Seg) : BitVec 16 :=
  if s = .cs ∨ s = .ss then c.segs s
  else if level g.selector < level (c.segs .cs) then keptSeg gdt (level (c.segs .cs)) (segs s)
  else segs s

/-- `iret` goes back. -/
theorem Processor.Entered.iret_eq (gdt : List (BitVec 64)) {k : Processor} (h : k.Entered c g next) :
    k.iret gdt = { k with eip := next, esp := c.esp, eflags := c.eflags, segs := c.segsBack gdt g k.segs } := by
  have hsegs : ∀ {f : Seg → BitVec 16}, (∀ s, s ≠ .cs → s ≠ .ss → f s = c.segsBack gdt g k.segs s) →
      Function.update (Function.update f .cs (c.segs .cs)) .ss (c.segs .ss) = c.segsBack gdt g k.segs := by
    intro f hf
    funext s
    cases s with
    | cs => rfl
    | ss => rfl
    | ds => exact hf .ds (by decide) (by decide)
    | es => exact hf .es (by decide) (by decide)
    | fs => exact hf .fs (by decide) (by decide)
    | gs => exact hf .gs (by decide) (by decide)
  unfold Processor.iret
  rw [h.cs, h.selector, h.eip, h.eflags]
  by_cases hout : level g.selector < level (c.segs .cs)
  · rw [if_pos hout, (h.outer hout).1, (h.outer hout).2, hsegs]
    intro s hcs hss
    rw [Processor.segsBack, if_neg (by simp [hcs, hss]), if_pos hout]
  · have htop := h.top
    rw [Processor.frame, Processor.top, if_neg hout, if_neg hout] at htop
    have hss : Function.update k.segs .cs (c.segs .cs) .ss = c.segs .ss := by
      rw [Function.update_of_ne (by decide), h.inner hout]
    rw [if_neg hout, htop]
    have hback := hsegs (f := k.segs) (fun s hcs' hss' => by
      rw [Processor.segsBack, if_neg (by simp [hcs', hss']), if_neg hout])
    rw [← hss, Function.update_eq_self] at hback
    rw [hback]

/-! ### Handlers -/

/-- The registers are on the stack, and `n` bytes further up is what takes `iret` back. -/
structure Processor.Keeps (z c : Processor) (g : Gate) (next n : Nat) : Prop where
  saved : z.popped = c.regs
  entered : ({ z with esp := z.esp + n } : Processor).Entered c g next

/-- What `popal` restores is read from the eight words on the stack. -/
theorem popped_congr {z z' : Processor} (hesp : z'.esp = z.esp) (hmem : ∀ x, z.esp ≤ x → x < z.esp + 32 → z'.mem x = z.mem x) :
    z'.popped = z.popped := by
  have hstack : ∀ i < 8, z'.stack i = z.stack i := fun i hi => stack_congr hesp (fun x hx hx' => hmem x hx (by omega)) hi
  funext r
  cases r <;> exact hstack _ (by decide)

/-- A handler that saves the registers keeps the state it is to go back to. -/
theorem Processor.Keeps.of_pushal {k : Processor} {n : Nat} (h : ({ k with esp := k.esp + n } : Processor).Entered c g next)
    (hregs : k.regs = c.regs) (hroom : 32 ≤ k.esp) : (Op.pushal.exec k).Keeps c g next (n + 32) := by
  have hesp : (Op.pushal.exec k).esp + (n + 32) = k.esp + n := by
    rw [pushal_esp]
    omega
  refine ⟨(pushal_stack k hroom).1.trans hregs, ?_⟩
  exact h.congr hesp rfl rfl (fun x hx _ => pushal_mem k hroom (Or.inr (Nat.le_trans (Nat.le_add_right k.esp n) hx)))

/-- The state is kept as long as the stack above and the segments of the code and the stack are. -/
theorem Processor.Keeps.congr {z z' : Processor} {n : Nat} (h : z.Keeps c g next n) (hn : 32 ≤ n) (hesp : z'.esp = z.esp)
    (hcs : z'.segs .cs = z.segs .cs) (hss : z'.segs .ss = z.segs .ss)
    (hmem : ∀ x, z.esp ≤ x → x < c.top g → z'.mem x = z.mem x) : z'.Keeps c g next n := by
  have hsize := frame_le c g
  have htop : z.esp + n + c.frame g = c.top g := h.entered.top
  refine ⟨(popped_congr hesp (fun x hx hx' => hmem x hx (by omega))).trans h.saved, ?_⟩
  exact h.entered.congr (congrArg (· + n) hesp) hcs hss (fun x hx hx' => hmem x (Nat.le_trans (Nat.le_add_right z.esp n) hx) hx')

/-- `popal` gives the registers back. -/
theorem Processor.Keeps.popal_eq {n : Nat} (h : z.Keeps c g next n) :
    Op.popal.exec z = { z with regs := c.regs, esp := z.esp + 32 } := by
  unfold Op.exec
  rw [h.saved]

/-- `iret` goes back to where a gate was entered. -/
theorem reaches_iret (hi : M.text z.eip = some .iret) (h : z.Entered c g next) :
    Reachable (step M) z { z with eip := next, esp := c.esp, eflags := c.eflags, segs := c.segsBack M.gdt g z.segs } :=
  reaches_instr hi (congrArg Outcome.ok (h.iret_eq M.gdt))

/-- The data segments are for the level of the code, or are none. -/
def Processor.SegsUsable (gdt : List (BitVec 64)) (c : Processor) : Prop :=
  ∀ s, s ≠ .cs → s ≠ .ss → c.segs s = 0 ∨ level (c.segs .cs) ≤ segDpl gdt (c.segs s)

/-- A data segment that the handler leaves is there again. -/
theorem segsBack_of_eq {gdt : List (BitVec 64)} {segs : Seg → BitVec 16} {s : Seg} (husable : c.SegsUsable gdt)
    (h : s ≠ .cs → s ≠ .ss → segs s = c.segs s) : c.segsBack gdt g segs s = c.segs s := by
  unfold Processor.segsBack
  by_cases hs : s = .cs ∨ s = .ss
  · rw [if_pos hs]
  · obtain ⟨hcs, hss⟩ := not_or.mp hs
    rw [if_neg hs, h hcs hss]
    split
    · unfold keptSeg
      obtain hnone | hlevel := husable s hcs hss
      · rw [hnone, ite_self]
      · rw [if_neg (Nat.not_lt.mpr hlevel)]
    · rfl

end Rules

end X86
