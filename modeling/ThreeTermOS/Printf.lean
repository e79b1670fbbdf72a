import ThreeTermOS.BootConsole

/-!
# printf and terminal_printf

The two functions have the same loop around the output functions of their files. `terminalPrintfLoop` of `ThreeTermOS.Terminal` runs
it with fuel; here it is taken turn by turn, and a turn reads one character of the format. The `%` of a conversion, each `#` in it
and the character that closes it have a turn each.
-/

namespace ThreeTermOS

open Runs

/-- The loop of a formatted print: `conv` is none between conversions and holds `alternate` within one, `buf` is the offset reached in
the format and `esp` the number of the next argument. -/
structure FormatLoop (σ : Type) where
  out : σ
  conv : Option Bool
  buf : Nat
  esp : Nat

/-- Why a formatted print stops. -/
inductive PrintfStop where
  | returned
  | stopped (r : BootStop)
  deriving DecidableEq, Repr

/-- The loop goes on behind a character of the format, when what it has printed for it went through. -/
def FormatLoop.next {σ : Type} (l : FormatLoop σ) (conv : Option Bool) (esp : Nat) :
    Outcome BootStop σ → Outcome PrintfStop (FormatLoop σ)
  | .ok out => .ok { out := out, conv := conv, buf := l.buf + 1, esp := esp }
  | .stop r out => .stop (.stopped r) { l with out := out }

/-- One turn of the loop, with what it does before a turn of its `while`, and the functions that print a character and a string. -/
def formatTurn {σ : Type} (reset : Nat → σ → σ) (putc : σ → UInt8 → Outcome BootStop σ) (puts : σ → List UInt8 → Outcome BootStop σ)
    (format : CPtr) (args : Nat → PrintfArg) (l : FormatLoop σ) (_ : Unit) : Outcome PrintfStop (FormatLoop σ) :=
  match l.conv with
  | none =>
    if format l.buf = 0 then .stop .returned l
    else
      let l := { l with out := reset l.buf l.out }
      if format l.buf = 0x25 then l.next (some false) l.esp (.ok l.out)
      else l.next none l.esp (putc l.out (format l.buf))
  | some alternate =>
    let spec := format l.buf
    if spec = 0x25 then l.next none l.esp (putc l.out 0x25)
    else if spec = 0x23 then l.next (some true) l.esp (.ok l.out)
    else if spec = 0x78 ∨ spec = 0x75 ∨ spec = 0x64 ∨ spec = 0x73 then
      l.next none (l.esp + 1) (puts l.out (convert alternate spec (args l.esp)))
    else if spec = 0x63 then l.next none (l.esp + 1) (putc l.out ((args l.esp).word % 256).toUInt8)
    -- the terminator of the format comes here as well
    else l.next none l.esp (.ok l.out)

/-- One turn of the loop of `terminal_printf`. -/
def terminalPrintfTurn : CPtr → (Nat → PrintfArg) → FormatLoop Console → Unit → Outcome PrintfStop (FormatLoop Console) :=
  formatTurn (fun buf k => if buf % lineBufferSize = lineBufferSize - 1 then terminalResetBuffer k else k)
    (fun k c => .ok (terminalPutc k c)) (fun k s => .ok (terminalPuts k s))

/-- `puts` of a string, given by the bytes before its terminator. -/
def putsBytes (k : BootConsole) (s : List UInt8) : Outcome BootStop BootConsole :=
  (run putsTurn { toBootConsole := k, index := 0 } s).map (fun l => l.toBootConsole)

/-- One turn of the loop of `printf`. -/
def printfTurn : CPtr → (Nat → PrintfArg) → FormatLoop BootConsole → Unit → Outcome PrintfStop (FormatLoop BootConsole) :=
  formatTurn (fun _ k => k) putc putsBytes

/-- The loop of `printf`. -/
def printfLoop (format : CPtr) (args : Nat → PrintfArg) : Nat → FormatLoop BootConsole → Outcome PrintfStop (FormatLoop BootConsole)
  | 0, l => .ok l
  | fuel + 1, l => (printfTurn format args l ()).andThen (printfLoop format args fuel)

/-- `printf`: it returns `buf - format`. -/
def printf (k : BootConsole) (format : CPtr) (args : Nat → PrintfArg) : Outcome PrintfStop (FormatLoop BootConsole) :=
  printfLoop format args addressSpace { out := k, conv := none, buf := 0, esp := 0 }

/-- What `terminal_printf` does in turn. -/
inductive PrintfPiece where
  | reset
  | char (c : UInt8)
  | string (s : List UInt8)

/-- The pieces of a format, from any point of the loop of `terminal_printf`. -/
def printfPieces (format : CPtr) (args : Nat → PrintfArg) : Nat → Option Bool → Nat → Nat → List PrintfPiece
  | 0, _, _, _ => []
  | fuel + 1, none, buf, esp =>
    if format buf = 0 then []
    else
      let rest :=
        if format buf = 0x25 then printfPieces format args fuel (some false) (buf + 1) esp
        else .char (format buf) :: printfPieces format args fuel none (buf + 1) esp
      if buf % lineBufferSize = lineBufferSize - 1 then .reset :: rest else rest
  | fuel + 1, some alternate, buf, esp =>
    let spec := format buf
    if spec = 0x25 then .char 0x25 :: printfPieces format args fuel none (buf + 1) esp
    else if spec = 0x23 then printfPieces format args fuel (some true) (buf + 1) esp
    else if spec = 0x78 ∨ spec = 0x75 ∨ spec = 0x64 ∨ spec = 0x73 then
      .string (convert alternate spec (args esp)) :: printfPieces format args fuel none (buf + 1) (esp + 1)
    else if spec = 0x63 then .char ((args esp).word % 256).toUInt8 :: printfPieces format args fuel none (buf + 1) (esp + 1)
    else printfPieces format args fuel none (buf + 1) esp

end ThreeTermOS
