import ThreeTermOS.I8259

/-!
# The interrupt descriptor table

`idt_desc_t` and its macro, as `x86_desc.h` lays it out, and the functions of `kernel.c` that fill the table in. What the processor makes
of an entry is `gateOf`.
-/

namespace ThreeTermOS

open X86

/-- `idt_desc_t`. -/
structure IdtDesc where
  offset1500 : BitVec 16
  segSelector : BitVec 16
  reserved4 : BitVec 8
  reserved3 : BitVec 1
  reserved2 : BitVec 1
  reserved1 : BitVec 1
  size : BitVec 1
  reserved0 : BitVec 1
  dpl : BitVec 2
  present : BitVec 1
  offset3116 : BitVec 16

/-- The bit fields between `reserved4` and `offset_31_16`, the first one lowest. -/
def IdtDesc.access (d : IdtDesc) : BitVec 8 :=
  d.present ++ d.dpl ++ d.reserved0 ++ d.size ++ d.reserved1 ++ d.reserved2 ++ d.reserved3

/-- The eight bytes of an entry. -/
def IdtDesc.word (d : IdtDesc) : BitVec 64 := d.offset3116 ++ d.access ++ d.reserved4 ++ d.segSelector ++ d.offset1500

/-- `SET_IDT_ENTRY`. -/
def setIdtEntry (d : IdtDesc) (handler : Word) : IdtDesc :=
  { d with
    offset3116 := ((handler &&& 0xFFFF0000) >>> 16).setWidth 16
    offset1500 := (handler &&& 0xFFFF).setWidth 16 }

/-- Where the linker put the handlers. -/
structure IdtLayout where
  exception : Nat → Word
  handler : Intr → Word
  syscallHandler : Word

/-- `idt_temp`, as both functions set it up for an interrupt gate. -/
def idtTemp : IdtDesc where
  offset1500 := 0
  segSelector := kernelCS
  reserved4 := 0
  reserved3 := 0
  reserved2 := 1
  reserved1 := 1
  size := 1
  reserved0 := 0
  dpl := 0
  present := 1
  offset3116 := 0

/-- `_fill_idt_exceptions`. -/
def fillIdtExceptions (l : IdtLayout) (idt : Nat → BitVec 64) : Nat → BitVec 64 :=
  (List.range 20).foldl (fun idt n => Function.update idt n (setIdtEntry idtTemp (l.exception n)).word) idt

/-- `_fill_idt_interrupts_sys`. -/
def fillIdtInterruptsSys (l : IdtLayout) (idt : Nat → BitVec 64) : Nat → BitVec 64 :=
  let idt := Function.update idt Intr.pit.idtEntry (setIdtEntry idtTemp (l.handler .pit)).word
  let idt := Function.update idt Intr.kb.idtEntry (setIdtEntry idtTemp (l.handler .kb)).word
  let idt := Function.update idt Intr.rtc.idtEntry (setIdtEntry idtTemp (l.handler .rtc)).word
  -- a trap gate, for programs
  let idtTemp := { idtTemp with dpl := 3, reserved3 := 1 }
  Function.update idt 0x80 (setIdtEntry idtTemp l.syscallHandler).word

/-- `fill_idt`. -/
def fillIdt (l : IdtLayout) (idt : Nat → BitVec 64) : Nat → BitVec 64 := fillIdtInterruptsSys l (fillIdtExceptions l idt)

end ThreeTermOS
