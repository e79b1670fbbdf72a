import ThreeTermOS.Kernel

/-!
# pit.c

`pit_handler` and its counter. `do_switch` saves and loads the stack pointers in the middle of a function, and it is inlined both in
`schedule` and in `switch_terminals`: the process that goes on returns from the handler it was switched out in. So `pit_counter` moves
on only when that is `pit_handler`. The moment in `flush_tlb` where interrupts are enabled, inside the handler or a launch, is left out:
each is one step.
-/

namespace ThreeTermOS

open Runs

/-- The handler a process was switched out in, which its `ESP_S` and `EBP_S` lead back to. -/
inductive SwitchedIn where
  | pit | keyboard
  deriving DecidableEq, Repr

/-- The kernel with `pit_counter`, and for each terminal the handler its program was switched out in. `pit_counter` is always taken
modulo `NUM_TERMS`. -/
structure PitKernel where
  kernel : Kernel
  pitCounter : Term
  frame : Term → SwitchedIn

/-- How the process that runs leaves the handler it was in: `pit_handler` moves its counter on. -/
def leaveHandler (s : PitKernel) : PitKernel :=
  match s.frame s.kernel.currTerm with
  | .pit => { s with pitCounter := s.pitCounter + 1 }
  | .keyboard => s

/-- `pit_handler`, after its end-of-interrupt command, up to where the process that goes on leaves the handler it was in. -/
def pitHandler (img : Image) (s : PitKernel) (r : Residue) : Outcome Stop PitKernel :=
  let s := { s with frame := Function.update s.frame s.kernel.currTerm .pit }
  (schedule img s.kernel s.pitCounter r).map (fun k => leaveHandler { s with kernel := k })

/-- The kernel after a step that is no tick: one that goes to another terminal does so in the keyboard's handler. -/
def afterStep (s : PitKernel) (k : Kernel) : PitKernel :=
  if k.currTerm = s.kernel.currTerm then { s with kernel := k }
  else { s with kernel := k, frame := Function.update s.frame s.kernel.currTerm .keyboard }

/-- What happens next. At a tick the handler says which terminal is asked for. -/
def pitStep (img : Image) (s : PitKernel) : Event → Outcome Stop PitKernel
  | .schedule _ r => pitHandler img s r
  | e => (step img s.kernel e).map (afterStep s)

end ThreeTermOS
