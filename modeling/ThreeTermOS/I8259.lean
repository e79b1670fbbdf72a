import ThreeTermOS.EntryCode
import ThreeTermOS.Library.Pic8259

/-!
# i8259.c

The driver of the interrupt controllers, the calls of it that `entry` and the interrupt handlers make, and the machine in which
devices ask for lines, the processor takes interrupts and the handlers go on, in any order. The rest of what the handlers do is
elsewhere.
-/

namespace ThreeTermOS

open Pic8259 Runs

/-- `MASTER_8259_PORT` and `SLAVE_8259_PORT`. -/
def master8259Port : Nat := 0x20

def slave8259Port : Nat := 0xA0

/-- `ICW1`, `ICW2_MASTER`, `ICW2_SLAVE`, `ICW3_MASTER`, `ICW3_SLAVE` and `ICW4`. -/
def icw1 : Byte := 0x11

def icw2Master : Byte := 0x20

def icw2Slave : Byte := 0x28

def icw3Master : Byte := 0x04

def icw3Slave : Byte := 0x02

def icw4 : Byte := 0x01

/-- `EOI`. -/
def eoi : Nat := 0x60

/-- `master_mask` and `slave_mask`, with the controllers they are for. -/
structure I8259 where
  masterMask : Byte
  slaveMask : Byte
  pic : Pair

/-- `outb`. -/
def I8259.outb (d : I8259) (v : Byte) (port : Nat) : I8259 := { d with pic := d.pic.out v port }

/-- `i8259_init`. -/
def i8259Init (d : I8259) : I8259 :=
  -- all the lines masked
  let d := { d with masterMask := 0xFF, slaveMask := 0xFF }
  let d := d.outb d.masterMask (master8259Port + 1)
  let d := d.outb d.slaveMask (slave8259Port + 1)
  -- the master
  let d := d.outb icw1 master8259Port
  let d := d.outb icw2Master (master8259Port + 1)
  let d := d.outb icw3Master (master8259Port + 1)
  let d := d.outb icw4 (master8259Port + 1)
  -- the slave
  let d := d.outb icw1 slave8259Port
  let d := d.outb icw2Slave (slave8259Port + 1)
  let d := d.outb icw3Slave (slave8259Port + 1)
  let d := d.outb icw4 (slave8259Port + 1)
  let d := { d with masterMask := d.masterMask &&& ~~~icw3Master }
  d.outb d.masterMask (master8259Port + 1)

/-- `enable_irq`. -/
def enableIrq (d : I8259) (irqNum : Nat) : I8259 :=
  if irqNum ≤ 7 then
    let d := { d with masterMask := d.masterMask &&& ~~~(1#8 <<< irqNum) }
    d.outb d.masterMask (master8259Port + 1)
  else if irqNum ≤ 15 then
    let d := { d with slaveMask := d.slaveMask &&& ~~~(1#8 <<< (irqNum - 8)) }
    d.outb d.slaveMask (slave8259Port + 1)
  else d

/-- `disable_irq`. -/
def disableIrq (d : I8259) (irqNum : Nat) : I8259 :=
  if irqNum ≤ 7 then
    let d := { d with masterMask := d.masterMask ||| 1#8 <<< irqNum }
    d.outb d.masterMask (master8259Port + 1)
  else if irqNum ≤ 15 then
    let d := { d with slaveMask := d.slaveMask ||| 1#8 <<< (irqNum - 8) }
    d.outb d.slaveMask (slave8259Port + 1)
  else d

/-- `send_eoi`. -/
def sendEoi (d : I8259) (irqNum : Nat) : I8259 :=
  if 8 ≤ irqNum ∧ irqNum ≤ 15 then
    let d := d.outb (BitVec.ofNat 8 (eoi ||| (irqNum - 8))) slave8259Port
    d.outb (BitVec.ofNat 8 (eoi ||| 2)) master8259Port
  else d.outb (BitVec.ofNat 8 (eoi ||| irqNum)) master8259Port

/-- `PIT_IRQ_NUM`, `KB_IRQ_NUM` and `RTC_IRQ_NUM`. -/
def Intr.irqNum : Intr → Nat
  | .pit => 0
  | .kb => 1
  | .rtc => 8

/-- `PIT_IDT_ENTRY`, `KB_IDT_ENTRY` and `RTC_IDT_ENTRY`. -/
def Intr.idtEntry : Intr → Nat
  | .pit => 0x20
  | .kb => 0x21
  | .rtc => 0x28

/-- A call of the driver. -/
inductive PicCall where
  | enableIrq (irqNum : Nat)
  | disableIrq (irqNum : Nat)
  | sendEoi (irqNum : Nat)
  deriving DecidableEq, Repr

def PicCall.perform (d : I8259) : PicCall → I8259
  | .enableIrq n => ThreeTermOS.enableIrq d n
  | .disableIrq n => ThreeTermOS.disableIrq d n
  | .sendEoi n => ThreeTermOS.sendEoi d n

/-- The calls a handler makes, in order. -/
def Intr.picCalls : Intr → List PicCall
  | .pit => [.sendEoi Intr.pit.irqNum]
  | .kb => [.sendEoi Intr.kb.irqNum]
  | .rtc => [.disableIrq Intr.rtc.irqNum, .sendEoi Intr.rtc.irqNum, .enableIrq Intr.rtc.irqNum]

/-- The calls `entry` makes after `i8259_init`: in `pit_init`, `init_keyboard` and `rtc_init`. -/
def entryPicCalls : List PicCall := [.enableIrq Intr.pit.irqNum, .enableIrq Intr.kb.irqNum, .enableIrq Intr.rtc.irqNum]

/-- The handler of a vector. -/
def intrOfVector (vector : Byte) : Option Intr := [Intr.pit, Intr.kb, Intr.rtc].find? (fun i => i.idtEntry = vector.toNat)

/-- The driver with the handlers under way: each with the calls it has not made yet. -/
structure PicMachine where
  driver : I8259
  active : List (Intr × List PicCall)

/-- What happens next: a device asks for a line, the processor looks for an interrupt, or one of the handlers goes on to its next
call, or returns. -/
inductive PicEvent where
  | raise (irqNum : Fin 16)
  | interrupt
  | goOn (i : Nat)

/-- The processor gets a vector without a handler. -/
inductive PicStop where
  | noHandler (vector : Byte)
  deriving DecidableEq, Repr

/-- One step. Nothing says that interrupts are off while a handler runs, or that the one begun last ends first. -/
def picStep (s : PicMachine) : PicEvent → Outcome PicStop PicMachine
  | .raise n => .ok { s with driver := { s.driver with pic := s.driver.pic.raise n } }
  | .interrupt =>
    match s.driver.pic.ack with
    | none => .ok s
    | some (vector, pic) =>
      let s := { s with driver := { s.driver with pic := pic } }
      match intrOfVector vector with
      | none => .stop (.noHandler vector) s
      | some h => .ok { s with active := (h, h.picCalls) :: s.active }
  | .goOn i =>
    match s.active[i]? with
    | none => .ok s
    | some (_, []) => .ok { s with active := s.active.eraseIdx i }
    | some (h, c :: cs) => .ok { driver := c.perform s.driver, active := s.active.set i (h, cs) }

end ThreeTermOS
