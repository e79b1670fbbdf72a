import ThreeTermOS.Rtc
import ThreeTermOS.Terminal

/-!
# What the system calls store in a program's buffer

The terminal and the clocks as the devices behind the operation tables, and `getargs_func`. A call that waits goes on from
whatever interrupts and the other terminals have made of its device by then.
-/

namespace ThreeTermOS

open Bytes

/-- The terminals and the clocks, with what becomes of each while a call waits for it. -/
structure DeviceState where
  console : Console
  rtc : Rtc
  awaitEnter : Console → Console
  awaitRtc : Rtc → Rtc

/-- `terminal_read` of a buffer that is not null. -/
def terminalRead (s : DeviceState) (nbytes : Int32) : Int × List UInt8 × DeviceState :=
  if nbytes.toInt < 0 then (-1, [], s)
  else if nbytes.toInt = 0 then (0, [], s)
  else
    let out := terminalReadCopy (s.awaitEnter (terminalReadBegin s.console)) nbytes.toInt.toNat
    (out.1.length, out.1, { s with console := out.2 })

/-- `terminal_write` of a buffer that is not null, up to the number of bytes asked for. -/
def terminalWriteFunc (s : DeviceState) (buf : List UInt8) (nbytes : Int32) : Int × DeviceState :=
  if nbytes.toInt < 0 then (-1, s)
  else (nbytes.toInt, { s with console := terminalWrite s.console (slice (cstr buf) 0 nbytes.toInt.toNat) })

/-- `rtc_read`: the buffer is not looked at. -/
def rtcRead (s : DeviceState) : Int × DeviceState :=
  let s := { s with rtc := s.rtc.clearInt, console := printMessage s.console "" }
  (0, { s with rtc := (s.awaitRtc s.rtc).clearInt })

/-- The devices behind the operation tables. -/
def kernelDevices : Devices DeviceState where
  terminalRead := terminalRead
  terminalWrite := terminalWriteFunc
  rtcOpen := id
  rtcRead := rtcRead
  rtcWrite s buf nbytes :=
    let out := rtcWrite s.rtc (some (cstr buf)) nbytes
    (out.1, { s with rtc := out.2 })
  printf s text := { s with console := (terminalPrintf s.console (cstr text) (fun _ => ⟨0, fun _ => 0⟩)).1 }

/-- `getargs_func`: the value returned and the bytes stored. `buf` says whether the buffer pointer is not null; the number of
bytes it has room for is not looked at. -/
def getargsFunc (p : PCB) (buf : Bool) (_nbytes : Int32) : Int × List UInt8 :=
  if buf = false then (-1, []) else (0, strcpyBytes (cstr p.args) ++ [0])

end ThreeTermOS
