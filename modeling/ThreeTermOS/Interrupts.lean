import ThreeTermOS.Rtc
import ThreeTermOS.Kernel

/-!
# The interrupt flag

The functions that save EFLAGS, clear the interrupt flag and restore it at the end, with the flag and every value it takes on the
way. What they do to the terminals, the pages and the clocks is the rest of the model's.
-/

namespace ThreeTermOS

open Bytes

/-- The interrupt flag, with the values it has been given, the last one first. -/
structure Cpu where
  ifFlag : Bool
  seen : List Bool

/-- An instruction that loads the interrupt flag. -/
def Cpu.load (c : Cpu) (b : Bool) : Cpu := { ifFlag := b, seen := b :: c.seen }

/-- `cli`, also the second half of `cli_and_save`. -/
def Cpu.cli (c : Cpu) : Cpu := c.load false

/-- `sti`. -/
def Cpu.sti (c : Cpu) : Cpu := c.load true

/-- `restore_flags`. -/
def Cpu.restoreFlags (c : Cpu) (flags : Bool) : Cpu := c.load flags

/-- What stands between `cli_and_save(flags)` and `sti(); restore_flags(flags)`. -/
def critical {σ : Type} (body : Cpu × σ → Cpu × σ) (m : Cpu × σ) : Cpu × σ :=
  let flags := m.1.ifFlag
  let m := body (m.1.cli, m.2)
  (m.1.sti.restoreFlags flags, m.2)

/-- A piece of code that leaves the interrupt flag alone. -/
def plain {σ : Type} (f : σ → σ) (m : Cpu × σ) : Cpu × σ := (m.1, f m.2)

namespace Cpu

/-- `terminal_reset_buffer`. -/
def terminalResetBuffer : Cpu × Console → Cpu × Console := critical (plain ThreeTermOS.terminalResetBuffer)

/-- `terminal_putc`. -/
def terminalPutc (m : Cpu × Console) (c : UInt8) : Cpu × Console := critical (plain (fun k => ThreeTermOS.terminalPutc k c)) m

/-- `terminal_clear`: it resets the line first. -/
def terminalClear : Cpu × Console → Cpu × Console :=
  critical (fun m => ((terminalResetBuffer m).1, ThreeTermOS.terminalClear m.2))

/-- The loop of `terminal_write`. -/
def terminalWriteLoop (m : Cpu × Console) : List UInt8 → Cpu × Console
  | [] => m
  | c :: bytes =>
    let m := if m.2.currIdx m.2.currTerm % lineBufferSize = lineBufferSize - 1 then terminalResetBuffer m else m
    terminalWriteLoop (terminalPutc m c) bytes

/-- `terminal_write`, with the value it returns. The buffer is `none` for a null pointer. -/
def terminalWrite (m : Cpu × Console) (buf : Option (List UInt8)) (nbytes : Int32) : Int × (Cpu × Console) :=
  match buf with
  | none => (-1, m)
  | some bytes =>
    if nbytes.toInt < 0 then (-1, m)
    else
      (nbytes.toInt, critical (fun m =>
        let m := terminalResetBuffer (terminalWriteLoop (plain (fun k => k.setFlags false true) m) (bytes.take nbytes.toInt.toNat))
        plain (fun k => { k with writeFlag := Function.update k.writeFlag k.currTerm false }) m) m)

/-- The loop of `terminal_puts`. -/
def terminalPutsLoop (m : Cpu × Console) : List UInt8 → Nat → Cpu × Console
  | [], _ => m
  | c :: s, index =>
    let m := if index % lineBufferSize = lineBufferSize - 1 then terminalResetBuffer m else m
    terminalPutsLoop (terminalPutc m c) s (index + 1)

/-- `terminal_puts`: it saves no flags itself. -/
def terminalPuts (m : Cpu × Console) (s : List UInt8) : Cpu × Console :=
  let read := m.2.readFlag m.2.currTerm
  let write := m.2.writeFlag m.2.currTerm
  plain (fun k => k.setFlags read write)
    (terminalResetBuffer (terminalPutsLoop (plain (fun k => k.setFlags false true) m) s 0))

/-- The loop of `terminal_printf`. -/
def terminalPrintfLoop (format : CPtr) (args : Nat → PrintfArg) : Nat → Cpu × Console → Option Bool → Nat → Nat → Cpu × Console
  | 0, m, _, _, _ => m
  | fuel + 1, m, none, buf, esp =>
    if format buf = 0 then m
    else
      let m := if buf % lineBufferSize = lineBufferSize - 1 then terminalResetBuffer m else m
      if format buf = 0x25 then terminalPrintfLoop format args fuel m (some false) (buf + 1) esp
      else terminalPrintfLoop format args fuel (terminalPutc m (format buf)) none (buf + 1) esp
  | fuel + 1, m, some alternate, buf, esp =>
    let spec := format buf
    if spec = 0x25 then terminalPrintfLoop format args fuel (terminalPutc m 0x25) none (buf + 1) esp
    else if spec = 0x23 then terminalPrintfLoop format args fuel m (some true) (buf + 1) esp
    else if spec = 0x78 ∨ spec = 0x75 ∨ spec = 0x64 ∨ spec = 0x73 then
      terminalPrintfLoop format args fuel (terminalPuts m (convert alternate spec (args esp))) none (buf + 1) (esp + 1)
    else if spec = 0x63 then
      terminalPrintfLoop format args fuel (terminalPutc m ((args esp).word % 256).toUInt8) none (buf + 1) (esp + 1)
    else terminalPrintfLoop format args fuel m none (buf + 1) esp

/-- `terminal_printf`. -/
def terminalPrintf (m : Cpu × Console) (format : CPtr) (args : Nat → PrintfArg) : Cpu × Console :=
  critical (fun m =>
    let read := m.2.readFlag m.2.currTerm
    let write := m.2.writeFlag m.2.currTerm
    let m := terminalPrintfLoop format args addressSpace (plain (fun k => k.setFlags false true) m) none 0 0
    plain (fun k => k.setFlags read write) (terminalResetBuffer m)) m

/-- `flush_tlb`: the page directory's address is loaded again. -/
def flushTlb {σ : Type} : Cpu × σ → Cpu × σ := critical (plain id)

/-- `swap_pages`. -/
def swapPages (m : Cpu × Kernel) (pIdNew : Nat) : Cpu × Kernel := flushTlb (plain (fun k => ThreeTermOS.swapPages k pIdNew) m)

/-- `rtc_write`, with the value it returns. It saves the flags before it looks at its arguments, and restores them only when it
accepts these. -/
def rtcWrite (m : Cpu × Rtc) (buf : Option CPtr) (nbytes : Int32) : Int × (Cpu × Rtc) :=
  let flags := m.1.ifFlag
  let c := m.1.cli
  let out := ThreeTermOS.rtcWrite m.2 buf nbytes
  if out.1 = -1 then (-1, (c, out.2)) else (out.1, (c.sti.restoreFlags flags, out.2))

end Cpu

/-- A call of one of the functions, in a state of what it works on. -/
inductive FlagCall where
  | resetBuffer (k : Console)
  | putc (k : Console) (c : UInt8)
  | clear (k : Console)
  | write (k : Console) (buf : Option (List UInt8)) (nbytes : Int32)
  | printf (k : Console) (format : CPtr) (args : Nat → PrintfArg)
  | flushTlb (k : Kernel)
  | swapPages (k : Kernel) (pIdNew : Nat)
  | rtcWrite (k : Rtc) (buf : Option CPtr) (nbytes : Int32)

/-- The interrupt flag after a call, with the values it has been given. -/
def FlagCall.cpu (c : Cpu) : FlagCall → Cpu
  | .resetBuffer k => (Cpu.terminalResetBuffer (c, k)).1
  | .putc k ch => (Cpu.terminalPutc (c, k) ch).1
  | .clear k => (Cpu.terminalClear (c, k)).1
  | .write k buf nbytes => (Cpu.terminalWrite (c, k) buf nbytes).2.1
  | .printf k format args => (Cpu.terminalPrintf (c, k) format args).1
  | .flushTlb k => (Cpu.flushTlb (c, k)).1
  | .swapPages k pIdNew => (Cpu.swapPages (c, k) pIdNew).1
  | .rtcWrite k buf nbytes => (Cpu.rtcWrite (c, k) buf nbytes).2.1

end ThreeTermOS
