import ThreeTermOS.Kernel
import ThreeTermOS.Syscalls

/-!
# The clocks behind the kernel

The kernel with the clocks of `rtc_driver.c`: its programs run, halt, open files and write to them, and the hardware interrupts. The
divisors and counters are the kernel's own; `rtc_int` and the count of its stores stand beside it.
-/

namespace ThreeTermOS

open Runs

/-- The kernel and what the clocks have besides. -/
structure RtcKernel where
  kernel : Kernel
  rtcInt : Term → Bool
  raised : Term → Nat

/-- The globals of `rtc_driver.c`. -/
def RtcKernel.clocks (s : RtcKernel) : Rtc :=
  { rtcInt := s.rtcInt, rtcFreq := s.kernel.rtcFreq, rtcCounter := s.kernel.rtcCounter, currTerm := s.kernel.currTerm,
    raised := s.raised }

/-- The globals of `rtc_driver.c` stored back. -/
def RtcKernel.setClocks (s : RtcKernel) (r : Rtc) : RtcKernel :=
  { kernel := { s.kernel with rtcFreq := r.rtcFreq, rtcCounter := r.rtcCounter }, rtcInt := r.rtcInt, raised := r.raised }

/-- The devices as a call finds them that does not wait. -/
def RtcKernel.devices (s : RtcKernel) : DeviceState :=
  { console := s.kernel.toConsole, rtc := s.clocks, awaitEnter := id, awaitRtc := id }

/-- Why the machine stops: the kernel does, the handler of the clocks does, a file system call has no outcome, or a read stores
outside the pages of its program, where it is not followed. -/
inductive RtcKernelStop where
  | kernel (r : Stop)
  | rtc (r : RtcStop)
  | noOutcome
  | notFollowed
  deriving DecidableEq, Repr

/-- What happens next: a step of the kernel, a call of the running program, an interrupt of the hardware clock. -/
inductive RtcKernelEvent where
  | kernel (e : Event)
  | open (filename : CPtr)
  | close (fd : Nat)
  | write (fd : Int) (buf : Option (List UInt8)) (nbytes : Int32)
  | rtcRead
  | irq

/-- A call of the running program that does not wait. -/
def RtcKernel.call (img : Image) (s : RtcKernel) (c : Call) : Outcome RtcKernelStop RtcKernel :=
  match s.kernel.currPcbPtr with
  | none => .stop (.kernel .nullDeref) s
  | some a =>
    match c.out img kernelDevices s.devices (s.kernel.pcbs a) with
    | none => .stop .noOutcome s
    | some out =>
      let s := s.setClocks out.dev.rtc
      .ok { s with kernel := { s.kernel with toConsole := out.dev.console }.modifyPCB a (fun _ => out.pcb) }

/-- One step. -/
def rtcKernelStep (img : Image) (s : RtcKernel) : RtcKernelEvent → Outcome RtcKernelStop RtcKernel
  | .kernel e =>
    match step img s.kernel e with
    | .ok k => .ok { s with kernel := k }
    | .stop r k => .stop (.kernel r) { s with kernel := k }
  | .open filename => s.call img (.open filename)
  | .close fd => s.call img (.close fd)
  | .write fd buf nbytes => s.call img (.write fd buf nbytes)
  | .rtcRead => .ok (s.setClocks s.clocks.clearInt)
  | .irq =>
    match rtcIrqHandler s.clocks with
    | .ok r => .ok (s.setClocks r)
    | .stop r c => .stop (.rtc r) (s.setClocks c)

/-- A read that `read_func` hands to the terminal or to the clock: it waits. -/
def PCB.waits (p : PCB) (fd : Int) (buf : Bool) (nbytes : Int32) : Bool :=
  match fdIndex fd with
  | none => false
  | some i =>
    decide ((p.fdA i).fopsPtr = some .stdin ∨ (p.fdA i).fopsPtr = some .rtc) && buf && decide (0 < nbytes.toInt)

/-- What happens next where programs read their files too, into a buffer at an address. -/
inductive FileEvent where
  | rtc (e : RtcKernelEvent)
  | read (fd : Int) (buf : Nat) (nbytes : Int32)

/-- A read of the running program that does not wait. The one that does is made of the kernel's events and the clocks'. The buffer is
in pages of the program: `read_func` looks only for `NULL`, and what it stores anywhere else, with the rights of the kernel, is not
followed here. -/
def RtcKernel.read (img : Image) (s : RtcKernel) (fd : Int) (buf : Nat) (nbytes : Int32) : Outcome RtcKernelStop RtcKernel :=
  match s.kernel.currPcbPtr with
  | none => .stop (.kernel .nullDeref) s
  | some a =>
    if (s.kernel.pcbs a).waits fd (decide (buf ≠ 0)) nbytes then .stop .noOutcome s
    else
      match storeBytes s.kernel buf
        (readFunc img kernelDevices s.devices (s.kernel.pcbs a) fd (decide (buf ≠ 0)) nbytes).bytes with
      | .ok k => { s with kernel := k }.call img (.read fd (decide (buf ≠ 0)) nbytes)
      | .stop _ k => .stop .notFollowed { s with kernel := k }

/-- The machine at boot. -/
def bootRtc (m : CPtr) (p : Addr → PCB) : RtcKernel := { kernel := boot m p, rtcInt := fun _ => false, raised := fun _ => 0 }

end ThreeTermOS
