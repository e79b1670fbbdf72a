import ThreeTermOS.FileDesc

/-!
# rtc_driver.c

The virtual clocks of the three terminals. The hardware interrupts 1024 times a second; a terminal's counter goes round at its
divisor `rtc_freq`, and its `rtc_int` is set each time the counter comes back to zero. The ports are left out.
-/

namespace ThreeTermOS

open Bytes Runs

/-- `BYTE_4`. -/
def byte4 : Nat := 4

/-- The globals of `rtc_driver.c`, with the running terminal. `raised` counts the stores of 1 to `rtc_int`. -/
structure Rtc where
  rtcInt : Term → Bool
  rtcFreq : Term → Nat
  rtcCounter : Term → Nat
  currTerm : Term
  raised : Term → Nat

/-- The globals as they are initialised; `DEFAULT_FREQ` is the divisor of two interrupts a second. -/
def Rtc.init : Rtc :=
  { rtcInt := fun _ => false, rtcFreq := fun _ => 512, rtcCounter := fun _ => 0, currTerm := 0, raised := fun _ => 0 }

/-- Why the clock stops: the modulo of the handler divides by zero. -/
inductive RtcStop where
  | divideError
  deriving DecidableEq, Repr

/-- One turn of the loop of `RTC_IRQ_handler`. -/
def rtcIrqTurn (k : Rtc) (i : Term) : Outcome RtcStop Rtc :=
  let k := { k with rtcCounter := Function.update k.rtcCounter i ((k.rtcCounter i + 1) % 2 ^ 32) }
  if k.rtcFreq i = 0 then .stop .divideError k
  else
    let k := { k with rtcCounter := Function.update k.rtcCounter i (k.rtcCounter i % k.rtcFreq i) }
    if k.rtcCounter i = 0 then
      .ok { k with rtcInt := Function.update k.rtcInt i true, raised := Function.update k.raised i (k.raised i + 1) }
    else .ok k

/-- `RTC_IRQ_handler`. -/
def rtcIrqHandler (k : Rtc) : Outcome RtcStop Rtc :=
  (rtcIrqTurn k 0).andThen (fun k => (rtcIrqTurn k 1).andThen (fun k => rtcIrqTurn k 2))

/-- `rtc_write`. -/
def rtcWrite (k : Rtc) (buf : Option CPtr) (nbytes : Int32) : Int × Rtc :=
  match buf with
  | none => (-1, k)
  | some buf =>
    if nbytes.toInt ≠ byte4 then (-1, k)
    else
      let newFreq := le32 buf 0
      if newFreq < 2 ∨ newFreq > 1024 ∨ newFreq &&& (newFreq - 1) ≠ 0 then (-1, k)
      else
        (byte4, { k with
          rtcFreq := Function.update k.rtcFreq k.currTerm (1024 / newFreq)
          rtcCounter := Function.update k.rtcCounter k.currTerm 0 })

/-- `rtc_default_rate`. -/
def Rtc.defaultRate (k : Rtc) : Rtc :=
  { k with rtcFreq := Function.update k.rtcFreq k.currTerm 512, rtcCounter := Function.update k.rtcCounter k.currTerm 0 }

/-- `rtc_int[curr_term] = 0`, before the waiting loop of `rtc_read` and after it. -/
def Rtc.clearInt (k : Rtc) : Rtc := { k with rtcInt := Function.update k.rtcInt k.currTerm false }

/-- What happens next to the clocks: an interrupt, a call of the running terminal's program, a switch to another terminal. -/
inductive RtcEvent where
  | irq
  | write (buf : Option CPtr) (nbytes : Int32)
  | defaultRate
  | read
  | switch (dest : Term)

/-- One step of the clocks. -/
def rtcStep (k : Rtc) : RtcEvent → Outcome RtcStop Rtc
  | .irq => rtcIrqHandler k
  | .write buf nbytes => .ok (rtcWrite k buf nbytes).2
  | .defaultRate => .ok k.defaultRate
  | .read => .ok k.clearInt
  | .switch dest => .ok { k with currTerm := dest }

/-- The interrupts of a list of events. -/
def irqs : List RtcEvent → Nat
  | [] => 0
  | .irq :: es => irqs es + 1
  | _ :: es => irqs es

end ThreeTermOS
