import ThreeTermOS.Library.Runs
import ThreeTermOS.Terminal

/-!
# putc and puts of lib.c

The console of the boot, with a position of its own beside those of `terminal.c`. Its `int`s have no outcome past the largest one.
-/

namespace ThreeTermOS

open Bytes Runs

/-- The largest `int`. -/
def intMax : Nat := 2 ^ 31 - 1

/-- `screen_x`, `screen_y`, and the memory `video_mem` points into. -/
structure BootConsole where
  mem : CPtr
  screenX : Nat
  screenY : Nat

/-- Why the console stops. -/
inductive BootStop where
  | intOverflow
  deriving DecidableEq, Repr

/-- `'\n'` or `'\r'`. -/
def isLineBreak (c : UInt8) : Bool := c = 0x0A || c = 0x0D

/-- `putc`. -/
def putc (k : BootConsole) (c : UInt8) : Outcome BootStop BootConsole :=
  if isLineBreak c then
    if k.screenY ≥ intMax then .stop .intOverflow k else .ok { k with screenY := k.screenY + 1, screenX := 0 }
  else
    -- the column is reduced first, so that the row never takes anything from it
    let k := { k with screenX := k.screenX % numCols }
    let k := { k with screenY := (k.screenY + k.screenX / numCols) % numRows }
    let k := { k with mem := set k.mem (video + 2 * (numCols * k.screenY + k.screenX)) c }
    let k := { k with mem := set k.mem (video + 2 * (numCols * k.screenY + k.screenX) + 1) attrib }
    .ok { k with screenX := k.screenX + 1 }

/-- The loop of `puts`. -/
structure PutsLoop extends BootConsole where
  index : Nat

/-- One turn of the loop of `puts`. -/
def putsTurn (l : PutsLoop) (c : UInt8) : Outcome BootStop PutsLoop :=
  match putc l.toBootConsole c with
  | .stop r k => .stop r { l with toBootConsole := k }
  | .ok k =>
    if l.index ≥ intMax then .stop .intOverflow { l with toBootConsole := k } else .ok { toBootConsole := k, index := l.index + 1 }

/-- `puts`: it returns `index`. -/
def puts (k : BootConsole) (s : CPtr) : Outcome BootStop PutsLoop := run putsTurn { toBootConsole := k, index := 0 } (strcpyBytes s)

end ThreeTermOS
