import ThreeTermOS.Kernel

/-!
# Output calls taken apart

`terminal_putc` and `terminal_reset_buffer` end with `sti`, so keys, ticks and switches fall between the characters of one call of
`terminal_write`, `terminal_puts` or `terminal_printf`. Here such a call is the list of the pieces it has still to do: the running
program goes on with it piece by piece, and whatever interrupts the program may come between any two pieces, which is at least
wherever the source lets it in.
-/

namespace ThreeTermOS

open Bytes Runs

/-- A piece of an output call: both flags set for output, the test `terminal_write` makes before a character, a call of
`terminal_reset_buffer`, of `terminal_putc` or of `terminal_puts`, and a flag of the running terminal given its value back. The two
stores of `setFlags` are one piece: `terminal_write` and `terminal_printf` make them behind `cli`, and `terminal_printf`, which alone
calls `terminal_puts`, has made them before. -/
inductive Piece where
  | setFlags
  | check
  | reset
  | putc (c : UInt8)
  | puts (s : List UInt8)
  | writeFlag (b : Bool)
  | readFlag (b : Bool)
  deriving DecidableEq, Repr

/-- The pieces of `terminal_write`. -/
def terminalWritePieces (bytes : List UInt8) : List Piece :=
  .setFlags :: (bytes.flatMap (fun c => [.check, .putc c]) ++ [.reset, .writeFlag false])

/-- A loop of output between the flags set and the flags given back the values they have now. -/
def Console.framed (k : Console) (loop : List Piece) : List Piece :=
  .setFlags :: (loop ++ [.reset, .writeFlag (k.writeFlag k.currTerm), .readFlag (k.readFlag k.currTerm)])

/-- The reset the loops of `terminal_puts` and `terminal_printf` make at the end of a line's length. -/
def resetPiece (index : Nat) : List Piece := if index % lineBufferSize = lineBufferSize - 1 then [.reset] else []

/-- The pieces of the loop of `terminal_puts`. -/
def terminalPutsPieces : List UInt8 → Nat → List Piece
  | [], _ => []
  | c :: s, index => resetPiece index ++ .putc c :: terminalPutsPieces s (index + 1)

/-- The pieces of the loop of `terminal_printf`. -/
def terminalPrintfPieces (format : CPtr) (args : Nat → PrintfArg) : Nat → Option Bool → Nat → Nat → List Piece
  | 0, _, _, _ => []
  | fuel + 1, none, buf, esp =>
    if format buf = 0 then []
    else if format buf = 0x25 then resetPiece buf ++ terminalPrintfPieces format args fuel (some false) (buf + 1) esp
    else resetPiece buf ++ .putc (format buf) :: terminalPrintfPieces format args fuel none (buf + 1) esp
  | fuel + 1, some alternate, buf, esp =>
    let spec := format buf
    if spec = 0x25 then .putc 0x25 :: terminalPrintfPieces format args fuel none (buf + 1) esp
    else if spec = 0x23 then terminalPrintfPieces format args fuel (some true) (buf + 1) esp
    else if spec = 0x78 ∨ spec = 0x75 ∨ spec = 0x64 ∨ spec = 0x73 then
      .puts (convert alternate spec (args esp)) :: terminalPrintfPieces format args fuel none (buf + 1) (esp + 1)
    else if spec = 0x63 then .putc ((args esp).word % 256).toUInt8 :: terminalPrintfPieces format args fuel none (buf + 1) (esp + 1)
    else terminalPrintfPieces format args fuel none (buf + 1) esp

/-- What a piece does, and the pieces it leaves to do in its place. -/
def Piece.next (k : Console) : Piece → Console × List Piece
  | .setFlags => (k.setFlags false true, [])
  | .check => (k, if k.currIdx k.currTerm % lineBufferSize = lineBufferSize - 1 then [.reset] else [])
  | .reset => (terminalResetBuffer k, [])
  | .putc c => (terminalPutc k c, [])
  | .puts s => (k, k.framed (terminalPutsPieces s 0))
  | .writeFlag b => ({ k with writeFlag := Function.update k.writeFlag k.currTerm b }, [])
  | .readFlag b => ({ k with readFlag := Function.update k.readFlag k.currTerm b }, [])

/-- The bytes a piece prints at once. -/
def Piece.printed : Piece → List UInt8
  | .putc c => [c]
  | _ => []

/-- The bytes a piece prints by itself and by those it leaves in its place. -/
def Piece.bytes : Piece → List UInt8
  | .putc c => [c]
  | .puts s => s
  | _ => []

/-! ## The kernel with output calls under way -/

/-- The kernel, and for each terminal what the output call of its program has still to do. -/
structure Session where
  kernel : Kernel
  output : Term → List Piece

/-- What happens next: the running program goes on with its output call, or a step of the kernel is taken. -/
inductive SessionEvent where
  | goOn
  | event (e : Event)

/-- The steps the running program takes itself; the others interrupt it. -/
def Event.byProgram : Event → Bool
  | .schedule _ _ => false
  | .switchTerminals _ _ => false
  | .key _ _ => false
  | .lock _ => false
  | _ => true

/-- The pieces of a step of the running program that is an output call, or prints a message and returns. -/
def Event.pieces (img : Image) (k : Kernel) : Event → Option (List Piece)
  | .write bytes => some (terminalWritePieces bytes)
  | .puts s => some [.puts (strcpyBytes s)]
  | .printf format args => some (k.framed (terminalPrintfPieces format args addressSpace none 0 0))
  | .execute command r =>
    match checkExecute img k (getArgsFname command r).1 r with
    | .error message => some (k.framed (terminalPrintfPieces (cstr (ascii message)) (fun _ => ⟨0, fun _ => 0⟩) addressSpace none 0 0))
    | .ok _ => none
  | _ => none

/-- The running program goes on with its output call, if it is in one. -/
def Session.goOn (s : Session) : Session :=
  match s.output s.kernel.currTerm with
  | [] => s
  | p :: ps =>
    let next := p.next s.kernel.toConsole
    { kernel := { s.kernel with toConsole := next.1 }
      output := Function.update s.output s.kernel.currTerm (next.2 ++ ps) }

/-- One step. A program in an output call makes no other call. -/
def sessionStep (img : Image) (s : Session) : SessionEvent → Outcome Stop Session
  | .goOn => .ok s.goOn
  | .event e =>
    if e.byProgram = true ∧ s.output s.kernel.currTerm ≠ [] then .ok s
    else
      match e.pieces img s.kernel with
      | some ps => .ok { s with output := Function.update s.output s.kernel.currTerm ps }
      | none => (step img s.kernel e).map (fun k => { s with kernel := k })

/-- The kernel with no output call under way. -/
def Session.idle (k : Kernel) : Session := { kernel := k, output := fun _ => [] }

end ThreeTermOS
