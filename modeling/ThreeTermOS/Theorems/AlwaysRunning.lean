import ThreeTermOS.Lemmas.Launch

/-!
# A program to run

A tick and a switch of terminals leave a live process of the running terminal current, unless the switch shows a terminal that was
never used and `execute_func` refuses it a shell: `do_switch` has set the current pointer to null by then and goes on with it.
-/

namespace ThreeTermOS

open Runs

/-- The current pointer is the block of a live process of the running terminal. -/
def RunsLive (k : Kernel) : Prop := ∃ i < k.nextPId k.currTerm, k.currPcbPtr = some (pidToPCBAddr i k.currTerm)

/-- The switch to a terminal passes the checks of `switch_terminals`, the terminal was never used, and `execute_func` refuses to
start its shell. -/
def LaunchRefused (img : Image) (k : Kernel) (dest : Nat) (r : Residue) : Prop :=
  ∃ t : Term, t.val = dest ∧ k.dispTerm ≠ t ∧ k.switchLock = false ∧ k.activeProgs t = none ∧ ShellRefused img k r

/-- No switch that the event asks for has its shell refused. -/
def NotRefused (img : Image) (k : Kernel) (e : Event) : Prop :=
  ∀ dest r, switchRequest k e = some (dest, r) → ¬LaunchRefused img k dest r

namespace AlwaysRunningAux

open ProcessAux VideoMapAux LaunchAux

variable {k k' k₀ : Kernel} {img : Image} {r : Residue}

theorem runsLive_of_procInv (h : ProcInv k) (hrun : k.currPcbPtr ≠ none) : RunsLive k := by
  obtain ⟨a, ha⟩ := Option.ne_none_iff_exists'.mp hrun
  obtain ⟨n, hn, rfl⟩ := currPcbPtr_eq h ha
  exact ⟨n, by omega, ha⟩

/-- A tick always completes: the terminal it goes to has a program. -/
theorem schedule_isOk (h : ProcInv k) (img : Image) (t : Term) (r : Residue) : ∃ k', schedule img k t r = .ok k' := by
  rcases schedule_cases img k t r with he | ⟨hact, -, he⟩
  · exact ⟨k, he⟩
  · cases hn : k.nextPId t with
    | zero =>
      rw [h.tops, hn, Chain.top_zero] at hact
      exact absurd rfl hact
    | succ n =>
      rw [he, doSwitch_active (procInv_congr h (sameProcs_lock k true)) hn, Outcome.andThen_ok]
      exact ⟨_, rfl⟩

/-- The shell of a terminal to be shown is refused with the same state as before the display changed. -/
theorem shellRefused_launching (t : Term) : ShellRefused img (launching (displaying k t) t) r ↔ ShellRefused img k r := by
  unfold ShellRefused launching
  dsimp only
  rw [(sameProcs_displaying k t).totalProgs]

/-- A refused launch stops the machine at the null pointer. -/
theorem switchTerminals_of_refused (h : ProcInv k) (hrun : k.currPcbPtr ≠ none) {dest : Nat} (hr : LaunchRefused img k dest r) :
    ∃ k₁, switchTerminals img k dest r = .stop .nullDeref k₁ ∧ k₁.currPcbPtr = none := by
  obtain ⟨t, rfl, hd, hl, hact, hshell⟩ := hr
  have hsame := sameProcs_displaying k t
  have hzero : (displaying k t).nextPId t = 0 := by
    rw [h.tops] at hact
    rw [hsame.nextPId]
    exact Chain.top_eq_none_iff.mp hact
  obtain ⟨message, hm⟩ := executeShell_refused ((shellRefused_launching t).mpr hshell)
  rw [switchTerminals_eq t hd hl, if_pos hact,
    doSwitch_unused (procInv_congr h hsame) (by rw [hsame.currPcbPtr]; exact hrun) hzero, hm]
  exact ⟨_, rfl, rfl⟩

/-- Any other switch completes. -/
theorem switchTerminals_isOk (h₀ : FirstShell img k₀) (h : VideoInv k) (hrun : k.currPcbPtr ≠ none) {dest : Nat}
    (hr : ¬LaunchRefused img k dest r) : ∃ k', switchTerminals img k dest r = .ok k' := by
  rcases switchTerminals_cases img k dest r with he | ⟨t, rfl, hd, hl, he⟩
  · exact ⟨k, he⟩
  · rw [he]
    by_cases hact : k.activeProgs t = none
    · have hshell : ¬ShellRefused img (launching (displaying k t) t) r := by
        rw [shellRefused_launching]
        exact fun hs => hr ⟨t, rfl, hd, hl, hact, hs⟩
      have hsame := sameProcs_displaying k t
      have hzero : (displaying k t).nextPId t = 0 := by
        rw [h.procs.tops] at hact
        rw [hsame.nextPId]
        exact Chain.top_eq_none_iff.mp hact
      have hv : VideoMapped (launching (displaying k t) t) := by
        have hdisp := videoMapped_displaying h.mapped t
        unfold launching
        exact videoMapped_of_keeps hdisp ⟨rfl, rfl, fun _ ht => Or.inl ht, fun _ ht => ht⟩
      obtain ⟨k', hk'⟩ := executeShell_started h₀ hv hshell
      rw [if_pos hact, doSwitch_unused (procInv_congr h.procs hsame) (by rw [hsame.currPcbPtr]; exact hrun) hzero, hk']
      exact ⟨_, rfl⟩
    · rw [if_neg hact]
      exact ⟨_, rfl⟩

/-- What a switch of terminals leaves. -/
theorem runsLive_switchTerminals_iff (h₀ : FirstShell img k₀) (h : VideoInv k) (hrun : k.currPcbPtr ≠ none) (dest : Nat) :
    RunsLive (switchTerminals img k dest r).state ↔ ¬LaunchRefused img k dest r := by
  constructor
  · intro hlive hr
    obtain ⟨k₁, he, hnone⟩ := switchTerminals_of_refused h.procs hrun hr
    rw [he, Outcome.state_stop] at hlive
    obtain ⟨i, -, hi⟩ := hlive
    rw [hnone] at hi
    cases hi
  · intro hr
    obtain ⟨k', hk'⟩ := switchTerminals_isOk h₀ h hrun hr
    obtain ⟨hinv, hrun'⟩ := procInv_switchTerminals h.procs hk'
    rw [hk', Outcome.state_ok]
    exact runsLive_of_procInv hinv (hrun' hrun)

/-- A step that asks for no refused launch does not follow the null pointer. -/
theorem step_ne_nullDeref (h₀ : FirstShell img k₀) (h : VideoInv k) (hrun : k.currPcbPtr ≠ none) {e : Event}
    (hn : NotRefused img k e) (k₁ : Kernel) : step img k e ≠ .stop .nullDeref k₁ := by
  intro hs
  cases e with
  | execute command r =>
    rw [step] at hs
    cases ho : executeFunc img k command r with
    | refused k₂ => rw [ho] at hs; cases hs
    | started k₂ => rw [ho] at hs; cases hs
    | fault k₂ => rw [ho] at hs; cases hs
  | halt status r =>
    rw [step] at hs
    obtain ⟨a, ha⟩ := Option.ne_none_iff_exists'.mp hrun
    obtain ⟨n, hc, -⟩ := currPcbPtr_eq h.procs ha
    cases n with
    | zero =>
      rw [haltFunc_root h.procs hc] at hs
      cases ho : executeFunc img ((decremented k).print "\nRestart the shell.\n") shellCommand r with
      | refused k₂ => rw [ho] at hs; cases hs
      | started k₂ => rw [ho] at hs; cases hs
      | fault k₂ => rw [ho] at hs; cases hs
    | succ n =>
      rw [haltFunc_child h.procs hc] at hs
      cases hs
  | schedule newTerm r =>
    obtain ⟨k', hk'⟩ := schedule_isOk h.procs img newTerm r
    rw [step, hk'] at hs
    cases hs
  | switchTerminals dest r =>
    obtain ⟨k', hk'⟩ := switchTerminals_isOk h₀ h hrun (hn dest r rfl)
    rw [step, hk'] at hs
    cases hs
  | key scancode r =>
    rw [step, getCKeyboard_eq] at hs
    split at hs
    · rename_i hreq
      have hr : ¬LaunchRefused img k ((k.keys.update scancode).fn - 1) r := hn _ r (if_pos hreq)
      have hdisp := (TerminalAux.key_sameTerms k.toConsole (k.keys.update scancode) scancode).disp
      have hr' : ¬LaunchRefused img (keyed k scancode) ((k.keys.update scancode).fn - 1) r := by
        rintro ⟨t, ht, hd, hl, hact, hshell⟩
        refine hr ⟨t, ht, ?_, hl, hact, hshell⟩
        rw [← hdisp]
        exact hd
      have hkeyed : VideoInv (keyed k scancode) := videoInv_keyed h scancode
      obtain ⟨k', hk'⟩ := switchTerminals_isOk h₀ hkeyed hrun hr'
      rw [hk'] at hs
      cases hs
    · cases hs
  | write bytes => cases hs
  | puts s => cases hs
  | printf format args => cases hs
  | readBegin => cases hs
  | readPoll => cases hs
  | readCopy nbytes =>
    rw [step] at hs
    split at hs
    · cases hs
    · cases hs
  | vidmap screenStart =>
    rw [step] at hs
    unfold vidmapFunc at hs
    split at hs
    · cases hs
    · exact storeBytes_ne_nullDeref _ _ _ _ hs
  | lock held => cases hs

end AlwaysRunningAux

open ProcessAux VideoMapAux AlwaysRunningAux in
/-- In every state the kernel reaches after its first shell is started, a tick leaves a live process of the running terminal
current, and a switch of terminals does so exactly when it does not ask for a shell that is refused. A run none of whose steps
asks for a refused shell never follows the null pointer, and ends with a live process current. -/
theorem step_runs_live_iff {img : Image} {k₀ : Kernel} (h₀ : FirstShell img k₀) :
    (∀ k, Reachable (step img) k₀ k →
      (∀ t r, RunsLive (schedule img k t r).state) ∧
        ∀ dest r, RunsLive (switchTerminals img k dest r).state ↔ ¬LaunchRefused img k dest r) ∧
      ∀ events, Meets (step img) (NotRefused img) k₀ events →
        (∀ k₁, run (step img) k₀ events ≠ .stop .nullDeref k₁) ∧ ∀ k, run (step img) k₀ events = .ok k → RunsLive k := by
  have hall : ∀ k, Reachable (step img) k₀ k → VideoInv k ∧ k.currPcbPtr ≠ none :=
    fun k hr => ⟨videoInv_running h₀ hr, (procInv_running h₀ hr).2⟩
  refine ⟨?_, ?_⟩
  · intro k hr
    obtain ⟨hinv, hrun⟩ := hall k hr
    refine ⟨?_, fun dest r => runsLive_switchTerminals_iff h₀ hinv hrun dest⟩
    intro t r
    obtain ⟨k', hk'⟩ := schedule_isOk hinv.procs img t r
    obtain ⟨hinv', hrun'⟩ := procInv_schedule hinv.procs hk'
    rw [hk', Outcome.state_ok]
    exact runsLive_of_procInv hinv' (hrun' hrun)
  · intro events hm
    refine ⟨?_, ?_⟩
    · intro k₁ hstop
      exact run_ne_stop_of_meets (fun k e hr hn => step_ne_nullDeref h₀ (hall k hr).1 (hall k hr).2 hn) hm k₁ hstop
    · intro k hk
      obtain ⟨hinv, hrun⟩ := hall k ⟨events, hk⟩
      exact runsLive_of_procInv hinv.procs hrun

/-- Six shells on terminal 0. -/
def sixShells : Outcome Stop Kernel :=
  run (step shellImage) firstShell (List.replicate 5 (.execute shellCommand zeroResidue))

/-- With all the program slots taken, a switch to terminal 1 leaves no program to run. -/
theorem sixShells_stops :
    sixShells.isOk = true ∧ ¬RunsLive (switchTerminals shellImage sixShells.state 1 zeroResidue).state := by
  refine ⟨by decide +kernel, ?_⟩
  rintro ⟨i, -, hi⟩
  have hnone : (switchTerminals shellImage sixShells.state 1 zeroResidue).state.currPcbPtr = none := by decide +kernel
  rw [hnone] at hi
  cases hi

/-- After the first shell, a tick leaves it running, and a switch to terminal 1 starts one there. -/
theorem step_runs_live_iff_firstShell :
    RunsLive (schedule shellImage firstShell 0 zeroResidue).state ∧
      RunsLive (switchTerminals shellImage firstShell 1 zeroResidue).state := by
  obtain ⟨hreach, -⟩ := step_runs_live_iff firstShell_firstShell
  obtain ⟨htick, hswitch⟩ := hreach firstShell (Reachable.refl firstShell)
  refine ⟨htick 0 zeroResidue, (hswitch 1 zeroResidue).mpr ?_⟩
  rintro ⟨t, -, -, -, -, hfull | ⟨message, hfile⟩⟩
  · exact absurd hfull (by decide +kernel)
  · have hsome : (checkFile shellImage (getArgsFname shellCommand zeroResidue).1 zeroResidue).toOption.isSome = true := by decide +kernel
    rw [hfile] at hsome
    cases hsome

end ThreeTermOS
