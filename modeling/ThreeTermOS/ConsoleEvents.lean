import ThreeTermOS.Kernel

/-!
# The console by itself

What `terminal.c` and `PS_2.c` are called for, without the processes that call: a machine on the console alone, in which the
terminals run and are displayed in any order and programs leave anything in memory. `lineStores` follows a step through the same
functions and lists where `all_char`, `new_line_char` and `backspace_char` store in the lines being typed.
-/

namespace ThreeTermOS

open Bytes Runs

/-- What happens to the console: a key, with the flags of `PS_2.c` just updated, a call of the running program, a switch. -/
inductive ConsoleEvent where
  | key (f : Keys) (scancode : UInt8)
  | write (bytes : List UInt8)
  | puts (s : CPtr)
  | printf (format : CPtr) (args : Nat → PrintfArg)
  | readBegin
  | readCopy (nbytes : Nat)
  | run (t : Term)
  | display (t : Term)
  | updateCursor
  | memory (m : CPtr)

/-- `switch_vidmem` and the change of `disp_term` after it. -/
def Console.display (k : Console) (dest : Term) : Console :=
  let size := numRows * numCols * 2
  { k with mem := memcpy (memcpy k.mem (videoBuffer k.dispTerm) video size) video (videoBuffer dest) size, dispTerm := dest }

/-- One step of the console. None of them stops. -/
def consoleStep (k : Console) : ConsoleEvent → Outcome Empty Console
  | .key f scancode => .ok (k.key f scancode)
  | .write bytes => .ok (terminalWrite k bytes)
  | .puts s => .ok (terminalPuts k (strcpyBytes s))
  | .printf format args => .ok (terminalPrintf k format args).1
  | .readBegin => .ok (terminalReadBegin k)
  | .readCopy nbytes => .ok (terminalReadCopy k nbytes).2
  | .run t => .ok { k with currTerm := t }
  | .display t => .ok (k.display t)
  | .updateCursor => .ok (terminalUpdateCursor k)
  | .memory m => .ok { k with mem := m }

/-! ## Where characters are stored -/

/-- A store in `input_buffer[term][CURR_LINE][idx]`. -/
structure LineStore where
  term : Term
  idx : Nat
  deriving DecidableEq, Repr

/-- The stores of `all_char`. -/
def allCharStores (k : Console) : Nat → List LineStore
  | 1 => [⟨k.dispTerm, k.currIdx k.dispTerm⟩]
  | 2 => [⟨k.currTerm, k.currIdx k.currTerm⟩]
  | _ => []

/-- The stores of the loop of `new_line_char`. -/
def lineCleared (t : Term) : List LineStore := (List.range lineBufferSize).map (LineStore.mk t)

/-- The stores of `new_line_char`. -/
def newLineCharStores (k : Console) : Nat → List LineStore
  | 1 => ⟨k.dispTerm, k.currIdx k.dispTerm⟩ :: lineCleared k.dispTerm
  | 2 => ⟨k.currTerm, k.currIdx k.currTerm⟩ :: lineCleared k.currTerm
  | _ => []

/-- The stores of `backspace_char`. -/
def backspaceCharStores (k : Console) : List LineStore :=
  if k.readFlag k.dispTerm = true ∧ k.currIdx k.dispTerm > 0 then [⟨k.dispTerm, k.currIdx k.dispTerm - 1⟩] else []

/-- The stores of `terminal_putc` once its flag is decided. -/
def Console.putcAsStores (k : Console) (c : UInt8) (flag : Nat) : List LineStore :=
  if c = 0x0A ∨ c = 0x0D then newLineCharStores k flag
  else if c = backspaceASCII ∧ k.charFromKB = true ∧ k.readFlag k.dispTerm = true then backspaceCharStores k
  else allCharStores k flag

/-- The stores of `terminal_putc`. -/
def terminalPutcStores (k : Console) (c : UInt8) : List LineStore :=
  let writeFlag := k.putcFlag
  if k.currTerm = k.dispTerm then
    if k.readFlag k.currTerm || k.writeFlag k.currTerm then k.putcAsStores c 1 else []
  else if writeFlag = 1 ∨ writeFlag = 2 then k.putcAsStores c writeFlag
  else []

/-- The stores of the loop of `terminal_write`. -/
def terminalWriteLoopStores (k : Console) : List UInt8 → List LineStore
  | [] => []
  | c :: bytes =>
    let k := if k.currIdx k.currTerm % lineBufferSize = lineBufferSize - 1 then terminalResetBuffer k else k
    terminalPutcStores k c ++ terminalWriteLoopStores (terminalPutc k c) bytes

/-- The stores of the loop of `terminal_puts`. -/
def terminalPutsLoopStores (k : Console) : List UInt8 → Nat → List LineStore
  | [], _ => []
  | c :: s, index =>
    let k := if index % lineBufferSize = lineBufferSize - 1 then terminalResetBuffer k else k
    terminalPutcStores k c ++ terminalPutsLoopStores (terminalPutc k c) s (index + 1)

/-- The stores of `terminal_puts`. -/
def terminalPutsStores (k : Console) (s : List UInt8) : List LineStore := terminalPutsLoopStores (k.setFlags false true) s 0

/-- The stores of the loop of `terminal_printf`. -/
def terminalPrintfLoopStores (format : CPtr) (args : Nat → PrintfArg) : Nat → Console → Option Bool → Nat → Nat → List LineStore
  | 0, _, _, _, _ => []
  | fuel + 1, k, none, buf, esp =>
    if format buf = 0 then []
    else
      let k := if buf % lineBufferSize = lineBufferSize - 1 then terminalResetBuffer k else k
      if format buf = 0x25 then terminalPrintfLoopStores format args fuel k (some false) (buf + 1) esp
      else terminalPutcStores k (format buf) ++ terminalPrintfLoopStores format args fuel (terminalPutc k (format buf)) none (buf + 1) esp
  | fuel + 1, k, some alternate, buf, esp =>
    let spec := format buf
    if spec = 0x25 then
      terminalPutcStores k 0x25 ++ terminalPrintfLoopStores format args fuel (terminalPutc k 0x25) none (buf + 1) esp
    else if spec = 0x23 then terminalPrintfLoopStores format args fuel k (some true) (buf + 1) esp
    else if spec = 0x78 ∨ spec = 0x75 ∨ spec = 0x64 ∨ spec = 0x73 then
      let s := convert alternate spec (args esp)
      terminalPutsStores k s ++ terminalPrintfLoopStores format args fuel (terminalPuts k s) none (buf + 1) (esp + 1)
    else if spec = 0x63 then
      let c := ((args esp).word % 256).toUInt8
      terminalPutcStores k c ++ terminalPrintfLoopStores format args fuel (terminalPutc k c) none (buf + 1) (esp + 1)
    else terminalPrintfLoopStores format args fuel k none (buf + 1) esp

/-- The stores of the response of `get_c_keyboard` to a scan code. -/
def Console.respondStores (k : Console) (f : Keys) (c : UInt8) : List LineStore :=
  if responds c then
    if f.ctrl then []
    else if displayChar f c ≠ 0 then terminalPutcStores k (displayChar f c)
    else []
  else []

/-- The stores of a step in the lines being typed, in order. -/
def lineStores (k : Console) : ConsoleEvent → List LineStore
  | .key f scancode => ({ k with charFromKB := true } : Console).respondStores f scancode
  | .write bytes => terminalWriteLoopStores (k.setFlags false true) bytes
  | .puts s => terminalPutsStores k (strcpyBytes s)
  | .printf format args => terminalPrintfLoopStores format args addressSpace (k.setFlags false true) none 0 0
  | _ => []

end ThreeTermOS
