import ThreeTermOS.Lemmas.LinkageSteps

/-!
# The results of system calls

`syscall_handler` keeps the value its function returned in the one word `TEMP` while it pops the registers, and loads `EAX` from
there. A tick in between lets another terminal's handler store its own value to the same word.
-/

namespace ThreeTermOS

open Bytes Runs

/-- The value a process has stored to `TEMP` and not loaded back yet. -/
def SysPhase.stored : SysPhase → Option Int32
  | .popping own => some own
  | .reload own => some own
  | _ => none

/-- If the step stores a value to `TEMP`, no other value is waiting there to be loaded. -/
def StoresAlone (c : SysMachine) (e : SysEvent) : Prop :=
  ∀ own, e = .handler → c.phase c.machine.kernel.currTerm = .store own → ∀ t v, (c.phase t).stored = some v → v = own

namespace CallResultsAux

open LinkageAux

variable {c c' : SysMachine} {img : Image} {e : SysEvent} {p : SysPhase} {r : Residue} {s : Machine}

/-- What is in `TEMP`, in `EAX`, and in the programs so far. -/
structure ResultsInv (c : SysMachine) : Prop where
  temp : ∀ t v, (c.phase t).stored = some v → c.temp = v
  leaving : ∀ t own eax, c.phase t = .leaving own eax → eax = own
  results : ∀ r ∈ c.results, r.eax = r.own

theorem resultsInv_same (h : ResultsInv c) (hphase : c'.phase = c.phase) (htemp : c'.temp = c.temp)
    (hres : c'.results = c.results) : ResultsInv c' := by
  refine ⟨fun t v hv => ?_, fun t own eax hl => ?_, fun r hr => ?_⟩
  · rw [hphase] at hv
    rw [htemp]
    exact h.temp t v hv
  · rw [hphase] at hl
    exact h.leaving t own eax hl
  · rw [hres] at hr
    exact h.results r hr

/-- The running terminal's process goes on to a phase that `TEMP` and `EAX` agree with. -/
theorem resultsInv_goto (h : ResultsInv c) (hstored : ∀ v, p.stored = some v → c.temp = v)
    (hleaving : ∀ own eax, p = .leaving own eax → eax = own) (hphase : c'.phase = (c.goto p).phase) (htemp : c'.temp = c.temp)
    (hres : c'.results = c.results) : ResultsInv c' := by
  refine ⟨fun t v hv => ?_, fun t own eax hl => ?_, fun r hr => ?_⟩
  · rw [hphase, SysMachine.goto] at hv
    dsimp only at hv
    rw [htemp]
    by_cases ht : t = c.machine.kernel.currTerm
    · rw [ht, Function.update_self] at hv
      exact hstored v hv
    · rw [Function.update_of_ne ht] at hv
      exact h.temp t v hv
  · rw [hphase, SysMachine.goto] at hl
    dsimp only at hl
    by_cases ht : t = c.machine.kernel.currTerm
    · rw [ht, Function.update_self] at hl
      exact hleaving own eax hl
    · rw [Function.update_of_ne ht] at hl
      exact h.leaving t own eax hl
  · rw [hres] at hr
    exact h.results r hr

/-- The running terminal's process goes on to a phase with no value on its way to the program. -/
theorem resultsInv_plain (h : ResultsInv c) (hstored : p.stored = none) (hleaving : ∀ own eax, p ≠ .leaving own eax)
    (hphase : c'.phase = (c.goto p).phase) (htemp : c'.temp = c.temp) (hres : c'.results = c.results) : ResultsInv c' :=
  resultsInv_goto h (fun v hv => by rw [hstored] at hv; cases hv) (fun own eax he => absurd he (hleaving own eax)) hphase htemp hres

/-- A value is stored to `TEMP`. -/
theorem resultsInv_store {own : Int32} (h : ResultsInv c) (halone : ∀ t v, (c.phase t).stored = some v → v = own) :
    ResultsInv { c.goto (.popping own) with temp := own } := by
  refine ⟨fun t v hv => ?_, fun t own' eax hl => ?_, h.results⟩
  · rw [SysMachine.goto] at hv
    dsimp only at hv ⊢
    by_cases ht : t = c.machine.kernel.currTerm
    · rw [ht, Function.update_self, SysPhase.stored, Option.some.injEq] at hv
      exact hv
    · rw [Function.update_of_ne ht] at hv
      exact (halone t v hv).symm
  · rw [SysMachine.goto] at hl
    dsimp only at hl
    by_cases ht : t = c.machine.kernel.currTerm
    · rw [ht, Function.update_self] at hl
      cases hl
    · rw [Function.update_of_ne ht] at hl
      exact h.leaving t own' eax hl

/-- The program goes on with `EAX`. -/
theorem resultsInv_leave {own eax : Int32} (h : ResultsInv c) (heax : eax = own) {t : Term} :
    ResultsInv { c.goto .user with results := { term := t, own := own, eax := eax } :: c.results } := by
  have hgoto : ResultsInv (c.goto .user) :=
    resultsInv_plain h rfl (fun own eax he => by cases he) rfl rfl rfl
  refine ⟨hgoto.temp, hgoto.leaving, fun r hr => ?_⟩
  rcases List.mem_cons.mp hr with rfl | hr
  · exact heax
  · exact h.results r hr

theorem resultsInv_handler (h : ResultsInv c) (halone : StoresAlone c .handler) : ResultsInv (handlerStep c) := by
  unfold handlerStep
  dsimp only
  split
  · split
    · exact resultsInv_plain h rfl (fun own eax he => by cases he) rfl rfl rfl
    · exact resultsInv_plain h rfl (fun own eax he => by cases he) rfl rfl rfl
  · rename_i own hp
    exact resultsInv_store h (halone own rfl hp)
  · rename_i own hp
    have htemp : c.temp = own := h.temp _ own (by rw [hp]; rfl)
    refine resultsInv_goto h (fun v hv => ?_) (fun own eax he => by cases he) rfl rfl rfl
    rw [SysPhase.stored, Option.some.injEq] at hv
    exact htemp.trans hv
  · rename_i own hp
    have htemp : c.temp = own := h.temp _ own (by rw [hp]; rfl)
    refine resultsInv_goto h (fun v hv => by cases hv) (fun own' eax he => ?_) rfl rfl rfl
    rw [SysPhase.leaving.injEq] at he
    rw [← he.1, ← he.2]
    exact htemp
  · rename_i own eax hp
    exact resultsInv_leave h (h.leaving _ own eax hp)
  · exact resultsInv_plain h rfl (fun own eax he => by cases he) rfl rfl rfl
  · exact resultsInv_plain h rfl (fun own eax he => by cases he) rfl rfl rfl
  · exact h

theorem resultsInv_begun (h : ResultsInv c) (s : Machine) : ResultsInv (c.begun s) := by
  unfold SysMachine.begun
  dsimp only
  split
  · exact resultsInv_same h rfl rfl rfl
  · split
    · exact resultsInv_plain h rfl (fun own eax he => by cases he) rfl rfl rfl
    · exact resultsInv_same h rfl rfl rfl

theorem resultsInv_advanced (h : ResultsInv c) (s : Machine) : ResultsInv (c.advanced s) := by
  unfold SysMachine.advanced
  dsimp only
  split
  · split
    · exact resultsInv_plain h rfl (fun own eax he => by cases he) rfl rfl rfl
    · exact resultsInv_same h rfl rfl rfl
  · exact resultsInv_same h rfl rfl rfl

theorem resultsInv_endProcess (h : ResultsInv c) {ending : Ending} (hs : endProcess img c ending r = .ok c') : ResultsInv c' := by
  unfold endProcess at hs
  dsimp only at hs
  split at hs
  · cases hs
  · split at hs
    · rw [Outcome.map_eq_ok] at hs
      obtain ⟨s, -, rfl⟩ := hs
      refine resultsInv_begun ?_ s
      exact resultsInv_plain h rfl (fun own eax he => by cases he) rfl rfl rfl
    · rw [Outcome.ok.injEq] at hs
      subst hs
      exact resultsInv_plain h rfl (fun own eax he => by cases he) rfl rfl rfl

theorem resultsInv_step (h : ResultsInv c) (halone : StoresAlone c e) (hs : sysStep img c e = .ok c') : ResultsInv c' := by
  cases sysStep_way hs with
  | none e eq => exact eq ▸ h
  | handler eq => exact eq ▸ resultsInv_handler h halone
  | int80 eax ebx phase running eq =>
    subst eq
    exact resultsInv_plain h rfl (fun own eax he => by cases he) rfl rfl rfl
  | ret v eax ebx phase call eq =>
    subst eq
    exact resultsInv_plain h rfl (fun own eax he => by cases he) rfl rfl rfl
  | execute command r s phase idle move eq => exact eq ▸ resultsInv_begun h s
  | halt r ebx phase ends => exact resultsInv_endProcess h ends
  | fault phase running eq =>
    subst eq
    exact resultsInv_plain h rfl (fun own eax he => by cases he) rfl rfl rfl
  | haltFaulted r phase ends => exact resultsInv_endProcess h ends
  | advance s move eq => exact eq ▸ resultsInv_advanced h s
  | restart r s move eq =>
    subst eq
    exact resultsInv_same h rfl rfl rfl
  | event e s notExecute notHalt move eq =>
    subst eq
    exact resultsInv_same h rfl rfl rfl

theorem resultsInv_boot (m : CPtr) (p : Addr → PCB) : ResultsInv (SysMachine.boot m p) := by
  refine ⟨fun t v hv => ?_, fun t own eax hl => ?_, fun r hr => by cases hr⟩
  · rcases boot_phase m p t with hp | hp
    · rw [hp] at hv
      cases hv
    · rw [hp] at hv
      cases hv
  · rcases boot_phase m p t with hp | hp
    · rw [hp] at hl
      cases hl
    · rw [hp] at hl
      cases hl

end CallResultsAux

open CallResultsAux in
/-- In every run in which a handler stores its value to `TEMP` only when no other value waits there, each program finds in `EAX`
what the function of its own call returned. -/
theorem results_not_mixed (img : Image) (m : CPtr) (p : Addr → PCB) {events : List SysEvent} {c : SysMachine}
    (hm : Meets (sysStep img) StoresAlone (SysMachine.boot m p) events)
    (hr : run (sysStep img) (SysMachine.boot m p) events = .ok c) : ∀ r ∈ c.results, r.eax = r.own :=
  (run_invariant_of_meets (fun _ _ _ => resultsInv_step) (resultsInv_boot m p) hm hr).results

/-- Terminal 0 and terminal 1, which is running, each with a shell. -/
def twoTerminals : List SysEvent := launchSteps ++ [.event (.switchTerminals 1 zeroResidue)]

/-- Terminal 1 makes a call with a number that is none, and has its result before the tick. -/
def callsInTurn : List SysEvent :=
  twoTerminals ++ [.int80 99 0] ++ List.replicate 5 .handler ++ [.event (.schedule 0 zeroResidue), .int80 7 0, .handler, .ret 0] ++
    List.replicate 4 .handler

def callsInTurnRun : Outcome Stop SysMachine := run (sysStep shellImage) sysBoot callsInTurn

theorem results_not_mixed_inTurn :
    callsInTurnRun.state.results.map (fun r => (r.term, r.own)) = [(0, 0), (1, -1)] ∧
      ∀ r ∈ callsInTurnRun.state.results, r.eax = r.own := by
  have hok : callsInTurnRun.isOk = true := by decide +kernel
  have hown : callsInTurnRun.state.results.map (fun r => (r.term, r.own)) = [(0, 0), (1, -1)] := by decide +kernel
  have hrun : run (sysStep shellImage) sysBoot callsInTurn = .ok callsInTurnRun.state := Outcome.eq_ok_of_isOk hok
  have hothers : Meets (sysStep shellImage) (fun c _ => ∀ t, t = c.machine.kernel.currTerm ∨ (c.phase t).stored = none) sysBoot
      callsInTurn := by decide +kernel
  have halone : ∀ (c : SysMachine) (e : SysEvent), True →
      (∀ t, t = c.machine.kernel.currTerm ∨ (c.phase t).stored = none) → StoresAlone c e := by
    intro c e _ hall own _ hstore t v hv
    rcases hall t with rfl | hnone
    · rw [hstore] at hv
      cases hv
    · rw [hnone] at hv
      cases hv
  have hm : Meets (sysStep shellImage) StoresAlone sysBoot callsInTurn :=
    Meets.of_invariant (fun _ _ _ _ _ _ => trivial) halone trivial hothers
  generalize callsInTurnRun.state = c at hown hrun ⊢
  unfold sysBoot at hrun hm
  exact ⟨hown, results_not_mixed shellImage _ _ hm hrun⟩

/-- The same calls, with the tick between the store of terminal 1 and its load. -/
def callsMixed : List SysEvent :=
  twoTerminals ++ [.int80 99 0, .handler, .handler, .event (.schedule 0 zeroResidue), .int80 7 0, .handler, .ret 0, .handler,
    .event (.schedule 1 zeroResidue), .handler, .handler, .handler]

def callsMixedRun : Outcome Stop SysMachine := run (sysStep shellImage) sysBoot callsMixed

/-- Terminal 1 gets the 0 of terminal 0's call for its own -1. -/
theorem result_of_other_call :
    callsMixedRun.isOk = true ∧ callsMixedRun.state.results = [{ term := 1, own := -1, eax := 0 }] ∧
      ¬(∀ events c, run (sysStep shellImage) sysBoot events = .ok c → ∀ r ∈ c.results, r.eax = r.own) := by
  have hok : callsMixedRun.isOk = true := by decide +kernel
  have hresults : callsMixedRun.state.results = [{ term := 1, own := -1, eax := 0 }] := by decide +kernel
  refine ⟨hok, hresults, fun h => ?_⟩
  have hrun : run (sysStep shellImage) sysBoot callsMixed = .ok callsMixedRun.state := Outcome.eq_ok_of_isOk hok
  have heq := h callsMixed callsMixedRun.state hrun { term := 1, own := -1, eax := 0 } (by rw [hresults]; exact List.mem_singleton_self _)
  exact absurd heq (by decide)

end ThreeTermOS
