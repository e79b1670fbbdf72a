import ThreeTermOS.Lemmas.LinkageSteps

/-!
# The value execute returns

A process that ends goes back to the call of `execute_func` that started it, and to no other. The value that call returns is read
from the terminal's cell of `halt_retval`, where an exception leaves 256 and `halt_func` leaves nothing.
-/

namespace ThreeTermOS

open Bytes Runs

/-- What the call that started a process is to return once the process has ended. -/
def Ending.value : Ending → Nat
  | .halted status => status.toNat
  | .faulted => exceptionRet

/-- A process ends by `halt` with another status than 0. -/
def Ending.loud : Ending → Bool
  | .halted status => decide (status ≠ 0)
  | .faulted => false

namespace ExitStatusAux

open LinkageAux

variable {c c' : SysMachine} {img : Image}

theorem delivered_eq_value_iff (e : Ending) : e.delivered = e.value ↔ e.loud = false := by
  cases e with
  | faulted => exact ⟨fun _ => rfl, fun _ => rfl⟩
  | halted status =>
    rw [Ending.delivered, Ending.value, Ending.loud, decide_eq_false_iff_not, not_not]
    constructor
    · intro h
      exact UInt8.toNat_inj.mp h.symm
    · rintro rfl
      rfl

/-- A process that has ended and runs on in its parent's `execute_func` makes that call return in two steps. -/
theorem returns_of_returnHere (img : Image) {e : Ended} (hp : c.phase c.machine.kernel.currTerm = .returnHere e) :
    ∃ c', run (sysStep img) c [.handler, .handler] = .ok c' ∧
      c'.returns =
        { ended := e
          value := c.machine.kernel.haltRetval c.machine.kernel.currTerm
          process := c.machine.kernel.currPcbPtr } :: c.returns := by
  refine ⟨handlerStep (handlerStep c), ?_, ?_⟩
  · rw [run_cons, sysStep, Outcome.andThen_ok, run_cons, sysStep, Outcome.andThen_ok, run_nil]
  · have hfirst : handlerStep c = c.goto (.clearing e (c.machine.kernel.haltRetval c.machine.kernel.currTerm)) := by
      unfold handlerStep
      dsimp only
      rw [hp]
    have hself : (c.goto (.clearing e (c.machine.kernel.haltRetval c.machine.kernel.currTerm))).phase c.machine.kernel.currTerm =
        .clearing e (c.machine.kernel.haltRetval c.machine.kernel.currTerm) := Function.update_self _ _ _
    rw [hfirst]
    generalize hd : c.goto (.clearing e (c.machine.kernel.haltRetval c.machine.kernel.currTerm)) = d at hself
    have hmachine : d.machine = c.machine := by rw [← hd]; rfl
    have hreturns : d.returns = c.returns := by rw [← hd]; rfl
    unfold handlerStep
    dsimp only
    rw [hmachine, hself, ← hreturns]

end ExitStatusAux

open LinkageAux ExitStatusAux in
/-- In every state of every run from boot: no call of `execute_func` has returned twice; each return is that of the call that
started the process that ended, in the process that made the call; the value is the one for the end of the process if and only if
that was an exception or a `halt` with status 0; and a process that has just ended makes its call return in the next two steps of
its terminal. -/
theorem exit_status_delivered_iff (img : Image) (m : CPtr) (p : Addr → PCB) {events : List SysEvent} {c : SysMachine}
    (hr : run (sysStep img) (SysMachine.boot m p) events = .ok c) :
    (c.returns.map (fun rt => rt.ended.call)).Nodup ∧
      (∀ rt ∈ c.returns, rt.ended.call = rt.ended.startedBy ∧ c.caller rt.ended.call = rt.process ∧ rt.process.isSome = true ∧
        (rt.value = rt.ended.ending.value ↔ rt.ended.ending.loud = false)) ∧
      ∀ e, c.phase c.machine.kernel.currTerm = .returnHere e →
        ∃ c' rt, run (sysStep img) c [.handler, .handler] = .ok c' ∧ c'.returns = rt :: c.returns ∧ rt.ended = e := by
  have hinv : Linked c := run_invariant (fun _ _ _ => linked_step) (linked_boot m p) hr
  refine ⟨hinv.once, fun rt hrt => ?_, fun e hp => ?_⟩
  · have hans := hinv.answered rt hrt
    refine ⟨hans.own, hans.caller, hans.process, ?_⟩
    rw [hans.value]
    exact delivered_eq_value_iff _
  · obtain ⟨c', hrun, hreturns⟩ := returns_of_returnHere img hp
    exact ⟨c', _, hrun, hreturns, rfl⟩

/-- The root shell executes a shell, which faults, and another one, which halts with status 0. -/
def twoChildren : List SysEvent :=
  launchSteps ++ [.int80 2 0, .handler] ++ launchSteps ++ [.fault, .haltFaulted zeroResidue] ++ List.replicate 6 .handler ++
    [.int80 2 0, .handler] ++ launchSteps ++ [.int80 1 0, .handler, .halt zeroResidue, .handler, .handler]

def twoChildrenRun : Outcome Stop SysMachine := run (sysStep shellImage) sysBoot twoChildren

theorem exit_status_delivered_iff_twoChildren :
    twoChildrenRun.state.returns.map (fun rt => rt.value) = [0, 256] ∧
      ∀ rt ∈ twoChildrenRun.state.returns, rt.ended.call = rt.ended.startedBy := by
  have hok : twoChildrenRun.isOk = true := by decide +kernel
  have hvalues : twoChildrenRun.state.returns.map (fun rt => rt.value) = [0, 256] := by decide +kernel
  have hrun : run (sysStep shellImage) sysBoot twoChildren = .ok twoChildrenRun.state := Outcome.eq_ok_of_isOk hok
  generalize twoChildrenRun.state = c at hvalues hrun ⊢
  unfold sysBoot at hrun
  obtain ⟨-, hreturns, -⟩ := exit_status_delivered_iff shellImage _ _ hrun
  exact ⟨hvalues, fun rt hrt => (hreturns rt hrt).1⟩

/-- The root shell executes a shell, which halts with status 5. -/
def loudChild : List SysEvent :=
  launchSteps ++ [.int80 2 0, .handler] ++ launchSteps ++ [.int80 1 5, .handler, .halt zeroResidue, .handler, .handler]

def loudChildRun : Outcome Stop SysMachine := run (sysStep shellImage) sysBoot loudChild

/-- `execute` returns 0 for the status 5. -/
theorem halt_status_lost :
    loudChildRun.isOk = true ∧
      loudChildRun.state.returns.map (fun rt => (rt.ended.ending, rt.value)) = [(.halted 5, 0)] ∧
      ¬(∀ events c, run (sysStep shellImage) sysBoot events = .ok c → ∀ rt ∈ c.returns, rt.value = rt.ended.ending.value) := by
  have hok : loudChildRun.isOk = true := by decide +kernel
  have hvalues : loudChildRun.state.returns.map (fun rt => (rt.ended.ending, rt.value)) = [(.halted 5, 0)] := by decide +kernel
  refine ⟨hok, hvalues, fun h => ?_⟩
  have hrun : run (sysStep shellImage) sysBoot loudChild = .ok loudChildRun.state := Outcome.eq_ok_of_isOk hok
  have hall := h loudChild loudChildRun.state hrun
  generalize loudChildRun.state = c at hvalues hall
  obtain ⟨rt, hrt, heq⟩ := List.mem_map.mp (show (Ending.halted 5, 0) ∈ c.returns.map _ by rw [hvalues]; exact List.mem_singleton_self _)
  rw [Prod.mk.injEq] at heq
  have hvalue := hall rt hrt
  rw [heq.1, heq.2] at hvalue
  exact absurd hvalue (by decide)

end ThreeTermOS
