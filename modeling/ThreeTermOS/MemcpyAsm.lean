import Mathlib.Logic.Function.Basic
import ThreeTermOS.Lib
import ThreeTermOS.Library.Runs

/-!
# The assembly of memcpy

`memcpy` of `ThreeTermOS.Lib` is the effect of the three loops of its assembly. Here the assembly is run, one instruction a step. The
segments the kernel loads into `ds` and `es` begin at address 0, and a range of memory does not go on past its last address: a
register that holds an address does not wrap.
-/

namespace ThreeTermOS

open Bytes Runs

/-- The registers of 32 bits that `memcpy` uses. -/
inductive Reg where
  | ecx
  | edx
  | esi
  | edi
  deriving DecidableEq

/-- The labels of `memcpy`. -/
inductive Label where
  | memcpyTop
  | memcpyAligned
  | memcpyBottom
  | memcpyDone

/-- The instructions of `memcpy`, with their operands in the order they are written in. -/
inductive Instr where
  /-- `testl %r, %r` -/
  | testl (r : Reg)
  /-- `testl $i, %r` -/
  | testlImm (i : Nat) (r : Reg)
  | jz (l : Label)
  | jmp (l : Label)
  /-- `movb (%esi), %al` -/
  | movbLoad
  /-- `movb %al, (%edi)` -/
  | movbStore
  | addl (i : Nat) (r : Reg)
  | subl (i : Nat) (r : Reg)
  /-- `movw %ds, %dx` -/
  | movwFromDs
  /-- `movw %dx, %es` -/
  | movwToEs
  | movl (src dst : Reg)
  | shrl (i : Nat) (r : Reg)
  | andl (i : Nat) (r : Reg)
  | cld
  | repMovsl

/-- The memory and the registers, with the zero and the direction flag. `eip` counts the instructions of `memcpy`. -/
structure MemcpyCpu where
  mem : CPtr
  regs : Reg → Nat
  al : UInt8
  ds : Nat
  es : Nat
  zf : Bool
  df : Bool
  eip : Nat

/-- The text of `memcpy`. -/
def memcpyText : List Instr := [
  -- .memcpy_top
  .testl .ecx,
  .jz .memcpyDone,
  .testlImm 3 .edi,
  .jz .memcpyAligned,
  .movbLoad,
  .movbStore,
  .addl 1 .edi,
  .addl 1 .esi,
  .subl 1 .ecx,
  .jmp .memcpyTop,
  -- .memcpy_aligned
  .movwFromDs,
  .movwToEs,
  .movl .ecx .edx,
  .shrl 2 .ecx,
  .andl 3 .edx,
  .cld,
  .repMovsl,
  -- .memcpy_bottom
  .testl .edx,
  .jz .memcpyDone,
  .movbLoad,
  .movbStore,
  .addl 1 .edi,
  .addl 1 .esi,
  .subl 1 .edx,
  .jmp .memcpyBottom]
  -- .memcpy_done

/-- Where a label stands in the text. -/
def Label.offset : Label → Nat
  | .memcpyTop => 0
  | .memcpyAligned => 10
  | .memcpyBottom => 17
  | .memcpyDone => 25

/-- A register set by an instruction that goes on to the next, with the zero flag of what it sets. -/
def MemcpyCpu.arith (c : MemcpyCpu) (r : Reg) (v : Nat) : MemcpyCpu :=
  { c with regs := Function.update c.regs r v, zf := v = 0, eip := c.eip + 1 }

/-- The effect of an instruction. -/
def Instr.exec (c : MemcpyCpu) : Instr → MemcpyCpu
  | .testl r => { c with zf := c.regs r &&& c.regs r = 0, eip := c.eip + 1 }
  | .testlImm i r => { c with zf := c.regs r &&& i = 0, eip := c.eip + 1 }
  | .jz l => { c with eip := if c.zf then l.offset else c.eip + 1 }
  | .jmp l => { c with eip := l.offset }
  | .movbLoad => { c with al := c.mem (c.regs .esi), eip := c.eip + 1 }
  | .movbStore => { c with mem := set c.mem (c.regs .edi) c.al, eip := c.eip + 1 }
  | .addl i r => c.arith r (c.regs r + i)
  | .subl i r => c.arith r (c.regs r - i)
  | .movwFromDs => { c with regs := Function.update c.regs .edx (c.regs .edx / 2 ^ 16 * 2 ^ 16 + c.ds), eip := c.eip + 1 }
  | .movwToEs => { c with es := c.regs .edx % 2 ^ 16, eip := c.eip + 1 }
  | .movl src dst => { c with regs := Function.update c.regs dst (c.regs src), eip := c.eip + 1 }
  | .shrl i r => c.arith r (c.regs r >>> i)
  | .andl i r => c.arith r (c.regs r &&& i)
  | .cld => { c with df := false, eip := c.eip + 1 }
  | .repMovsl =>
    -- one double word is moved, and the instruction stays the next one until `ecx` is 0
    if c.regs .ecx = 0 then { c with eip := c.eip + 1 }
    else
      let next (p : Nat) : Nat := if c.df then p - 4 else p + 4
      { c with
        mem := movsl c.mem (c.regs .edi) (c.regs .esi)
        regs := fun
          | .edi => next (c.regs .edi)
          | .esi => next (c.regs .esi)
          | .ecx => c.regs .ecx - 1
          | .edx => c.regs .edx }

/-- The addresses an instruction writes. -/
def Instr.writes (c : MemcpyCpu) : Instr → List Nat
  | .movbStore => [c.regs .edi]
  | .repMovsl => if c.regs .ecx = 0 then [] else [c.regs .edi, c.regs .edi + 1, c.regs .edi + 2, c.regs .edi + 3]
  | _ => []

/-- Where the assembly ends. -/
inductive MemcpyDone where
  | done
  deriving DecidableEq

/-- A step of the processor through the text of `memcpy`. -/
def memcpyStep (c : MemcpyCpu) (_ : Unit) : Outcome MemcpyDone MemcpyCpu :=
  match memcpyText[c.eip]? with
  | some i => .ok (i.exec c)
  | none => .stop .done c

/-- The addresses a step writes. -/
def memcpyWrites (c : MemcpyCpu) (_ : Unit) : List Nat :=
  match memcpyText[c.eip]? with
  | some i => i.writes c
  | none => []

/-- The processor at the start of the assembly, with the operands in the registers the constraints name. -/
def MemcpyCpu.enterMemcpy (c : MemcpyCpu) (dest src n : Nat) : MemcpyCpu :=
  { c with
    regs := fun
      | .edi => dest
      | .esi => src
      | .ecx => n
      | .edx => c.regs .edx
    eip := Label.memcpyTop.offset }

end ThreeTermOS
