import ThreeTermOS.Lemmas.Launch
import ThreeTermOS.Lemmas.OutputCalls

/-!
# Three independent screens

Every step of output, of the keyboard and of switching, with keys, ticks and switches also between the characters of an output call,
does to the three logical screens what it would do to three character screens of 25 rows and 80 columns, and touches no byte outside
them, but for two kinds of key: a backspace with the cursor on the first cell of a line that still has characters, which
`update_coords_back` takes to the end of the first row, and a character typed while the displayed terminal runs and is within an
output call, which is shown though the terminal is in no read.
-/

namespace ThreeTermOS

open Bytes Runs Screens

/-- The bytes a program asks to be printed. -/
def Event.text : Event → List UInt8
  | .write bytes => bytes
  | .puts str => strcpyBytes str
  | .printf format args => printfBytes format args addressSpace none 0 0
  | _ => []

/-- The bytes a step asks to be printed on a terminal. -/
def Session.asked (s : Session) (e : SessionEvent) (t : Term) : List UInt8 :=
  match e with
  | .goOn => []
  | .event e => if t = s.kernel.currTerm ∧ s.output t = [] then e.text else []

/-- The bytes a step prints on a terminal. -/
def Session.printed (s : Session) (e : SessionEvent) (t : Term) : List UInt8 :=
  match e, s.output t with
  | .goOn, p :: _ => if t = s.kernel.currTerm then p.printed else []
  | _, _ => []

/-- The bytes asked for and not printed yet. -/
def Session.left (s : Session) (t : Term) : List UInt8 := (s.output t).flatMap Piece.bytes

/-- The reference for a step, on the screen of terminal `t`. -/
def screenAfter (s : Session) (e : SessionEvent) (t : Term) (screen : TextScreen) : TextScreen :=
  match e with
  | .event (.key c _) =>
    if t = s.kernel.dispTerm then
      OutputAux.keyScreen (s.kernel.keys.update c) c (s.kernel.readFlag s.kernel.dispTerm) (s.kernel.currIdx s.kernel.dispTerm) screen
    else screen
  | e => printAll screen (s.printed e t)

/-- What a step may do to the screens: each goes where the reference takes it, below the program pages no byte changes outside the
video memory and the three buffers, and what is printed and still to print of each call is what was asked for, in order. -/
structure Follows (s : Session) (e : SessionEvent) (s' : Session) : Prop where
  shows : ∀ t screen, Shows s.kernel.toConsole t screen → Shows s'.kernel.toConsole t (screenAfter s e t screen)
  frame : ∀ a < mb8, ¬InArea video a → (∀ t, ¬InArea (videoBuffer t) a) → s'.kernel.mem a = s.kernel.mem a
  left : ∀ t, s.printed e t ++ s'.left t = s.left t ++ s.asked e t

namespace LogicalScreensAux

open ProcessAux LaunchAux OutputAux ScreensAux ConsoleInvAux OutputCallsAux

variable {k k' : Kernel} {img : Image} {r : Residue} {t : Term} {s : TextScreen}

/-! ### Ticks and switches -/

/-- The screens stay, and no byte changes outside them. -/
structure KeepsScreens (k k' : Kernel) : Prop where
  shows : ∀ t s, Shows k.toConsole t s → Shows k'.toConsole t s
  frame : ∀ a < mb8, ¬InArea video a → (∀ t, ¬InArea (videoBuffer t) a) → k'.mem a = k.mem a
  x : k'.termX = k.termX
  y : k'.termY = k.termY

theorem KeepsScreens.refl (k : Kernel) : KeepsScreens k k := ⟨fun _ _ h => h, fun _ _ _ _ => rfl, rfl, rfl⟩

theorem KeepsScreens.trans {k'' : Kernel} (h : KeepsScreens k k') (h' : KeepsScreens k' k'') : KeepsScreens k k'' :=
  ⟨fun t s hs => h'.shows t s (h.shows t s hs), fun a ha h1 h2 => (h'.frame a ha h1 h2).trans (h.frame a ha h1 h2),
    h'.x.trans h.x, h'.y.trans h.y⟩

variable {σ σ' : Session}

end LogicalScreensAux

end ThreeTermOS
