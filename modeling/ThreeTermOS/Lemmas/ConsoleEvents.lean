import ThreeTermOS.ConsoleEvents
import ThreeTermOS.Lemmas.Process

/-!
# The console in the kernel

Every step of the kernel is, on its console, a run of the console by itself: what the console keeps, the kernel keeps.
-/

namespace ThreeTermOS

open Runs

/-- The console goes from the one state to the other by events of its own. -/
abbrev ConsoleRun (k k' : Console) : Prop := Reachable consoleStep k k'

/-- No modifier held. -/
def noModifiers : Keys := { ctrl := false, lShift := false, rShift := false, caps := false, alt := false, fn := 0 }

namespace ConsoleEventsAux

variable {k : Console} {κ κ' : Kernel} {img : Image} {r : Residue}

theorem consoleRun_print (κ : Kernel) (message : String) : ConsoleRun κ.toConsole (κ.print message).toConsole :=
  (Reachable.refl κ.toConsole).snoc (e := .printf (cstr (ascii message)) (fun _ => ⟨0, fun _ => 0⟩)) rfl

theorem consoleRun_memory (k : Console) (m : CPtr) : ConsoleRun k { k with mem := m } :=
  (Reachable.refl k).snoc (e := .memory m) rfl

theorem consoleRun_execute (img : Image) (κ : Kernel) (command : CPtr) (r : Residue) :
    ConsoleRun κ.toConsole (executeFunc img κ command r).kernel.toConsole := by
  rcases ProcessAux.executeFunc_cases img κ command r with ⟨message, -, he⟩ | ⟨d, m, -, -, he | he⟩
  · rw [he]
    exact consoleRun_print κ message
  · rw [he]
    exact consoleRun_memory κ.toConsole m
  · rw [he, ExecOut.kernel, ProcessAux.startProgram_eq]
    exact consoleRun_memory κ.toConsole m

/-- The call of `execute_func` as a part of a step that does not stop. -/
theorem consoleRun_outcome {o : ExecOut} (h : ConsoleRun k o.kernel.toConsole) {f : Kernel → Outcome Stop Kernel}
    (hf : ∀ κ₁ κ', f κ₁ = .ok κ' → κ' = κ₁) (hs : o.outcome f = .ok κ') : ConsoleRun k κ'.toConsole := by
  rcases ProcessAux.outcome_eq_ok hs with rfl | ⟨κ₁, rfl, hk⟩
  · exact h
  · rw [hf κ₁ κ' hk]
    exact h

theorem consoleRun_halt (hp : ProcInv κ) (status : UInt8) (hs : haltFunc img κ status r = .ok κ') :
    ConsoleRun κ.toConsole κ'.toConsole := by
  cases hn : κ.nextPId κ.currTerm with
  | zero =>
    have hnone : κ.currPcbPtr = none := by rw [hp.curr, hp.tops, hn, Chain.top_zero]
    unfold haltFunc at hs
    simp [hnone] at hs
  | succ n =>
    cases n with
    | zero =>
      rw [ProcessAux.haltFunc_root hp hn] at hs
      have hprint : ConsoleRun κ.toConsole ((ProcessAux.decremented κ).print "\nRestart the shell.\n").toConsole :=
        consoleRun_print (ProcessAux.decremented κ) _
      exact consoleRun_outcome (hprint.trans (consoleRun_execute img _ shellCommand r)) (fun _ _ hk => by cases hk) hs
    | succ n =>
      rw [ProcessAux.haltFunc_child hp hn, Outcome.ok.injEq] at hs
      subst hs
      exact Reachable.refl _

theorem consoleRun_doSwitch (hp : ProcInv κ) {dest : Term} (hs : doSwitch img κ dest r = .ok κ') :
    ConsoleRun κ.toConsole κ'.toConsole := by
  have hrun : ConsoleRun κ.toConsole { κ.toConsole with currTerm := dest } := (Reachable.refl _).snoc (e := .run dest) rfl
  rcases ProcessAux.doSwitch_ok hp hs with ⟨n, -, rfl⟩ | ⟨-, he⟩
  · exact hrun.snoc (e := .updateCursor) rfl
  · have hshell := consoleRun_execute img (ProcessAux.launching κ dest) shellCommand r
    rw [he] at hshell
    exact hrun.trans hshell

theorem consoleRun_displaying (κ : Kernel) (dest : Term) : ConsoleRun κ.toConsole (ProcessAux.displaying κ dest).toConsole := by
  have hdisplay : (ProcessAux.displaying κ dest).toConsole = κ.toConsole.display dest := by
    unfold ProcessAux.displaying switchVidmap switchVidmem Console.display
    dsimp only
  rw [hdisplay]
  exact (Reachable.refl κ.toConsole).snoc (e := .display dest) rfl

theorem consoleRun_switchTerminals (hp : ProcInv κ) {dest : Nat} (hs : switchTerminals img κ dest r = .ok κ') :
    ConsoleRun κ.toConsole κ'.toConsole := by
  rcases ProcessAux.switchTerminals_ok hs with rfl | ⟨t, κ₁, -, -, -, rfl, ⟨-, hk⟩ | ⟨-, rfl⟩⟩
  · exact Reachable.refl _
  · have hswitch := consoleRun_doSwitch (ProcessAux.procInv_congr hp (ProcessAux.sameProcs_displaying κ t)) hk
    exact (consoleRun_displaying κ t).trans hswitch
  · exact consoleRun_displaying κ t

/-- A step of the kernel is a run of its console. -/
theorem consoleRun_step (hp : ProcInv κ) {e : Event} (hs : step img κ e = .ok κ') : ConsoleRun κ.toConsole κ'.toConsole := by
  have hone : ∀ e k', consoleStep κ.toConsole e = .ok k' → ConsoleRun κ.toConsole k' := fun _ _ he => (Reachable.refl _).snoc he
  cases e with
  | execute command r =>
    exact consoleRun_outcome (consoleRun_execute img κ command r) (fun _ _ hk => (Outcome.ok.inj hk).symm) hs
  | halt status r => exact consoleRun_halt hp status hs
  | schedule newTerm r =>
    rcases ProcessAux.schedule_ok hs with rfl | ⟨κ₁, -, -, rfl, hk⟩
    · exact Reachable.refl _
    · have hswitch := consoleRun_doSwitch (ProcessAux.procInv_congr hp (ProcessAux.sameProcs_lock κ true)) hk
      exact hswitch
  | switchTerminals dest r => exact consoleRun_switchTerminals hp hs
  | key scancode r =>
    have hkeyed : ConsoleRun κ.toConsole (ProcessAux.keyed κ scancode).toConsole := hone (.key (κ.keys.update scancode) scancode) _ rfl
    rw [step, ProcessAux.getCKeyboard_eq] at hs
    split at hs
    · have hinv := ProcessAux.procInv_congr hp (ProcessAux.sameProcs_keyed κ scancode)
      exact hkeyed.trans (consoleRun_switchTerminals hinv hs)
    · rw [Outcome.ok.injEq] at hs
      exact hs ▸ hkeyed
  | write bytes =>
    rw [step, Outcome.ok.injEq] at hs
    exact hs ▸ hone (.write bytes) _ rfl
  | puts s =>
    rw [step, Outcome.ok.injEq] at hs
    exact hs ▸ hone (.puts s) _ rfl
  | printf format args =>
    rw [step, Outcome.ok.injEq] at hs
    exact hs ▸ hone (.printf format args) _ rfl
  | readBegin =>
    rw [step, Outcome.ok.injEq] at hs
    exact hs ▸ hone .readBegin _ rfl
  | readPoll =>
    rw [step, Outcome.ok.injEq] at hs
    exact hs ▸ Reachable.refl _
  | readCopy nbytes =>
    rw [step] at hs
    split at hs
    · rw [Outcome.ok.injEq] at hs
      exact hs ▸ hone (.readCopy nbytes) _ rfl
    · rw [Outcome.ok.injEq] at hs
      exact hs ▸ Reachable.refl _
  | vidmap screenStart =>
    obtain ⟨m, table, rfl⟩ := ProcessAux.vidmapFunc_eq hs
    exact consoleRun_memory κ.toConsole m
  | lock held =>
    rw [step, Outcome.ok.injEq] at hs
    exact hs ▸ Reachable.refl _

/-- Wherever the kernel goes from boot, its console goes by itself. -/
theorem consoleRun_reachable {m : CPtr} {p : Addr → PCB} (hr : Reachable (step img) (boot m p) κ) :
    ConsoleRun (boot m p).toConsole κ.toConsole :=
  Reachable.simulated (fun _ _ _ h hs => (ProcessAux.procInv_step h hs).1) (fun _ _ _ h hs => consoleRun_step h hs)
    (ProcessAux.procInv_boot m p) hr

end ConsoleEventsAux

end ThreeTermOS
