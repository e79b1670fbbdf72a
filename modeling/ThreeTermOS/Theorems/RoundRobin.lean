import ThreeTermOS.Library.Cycle
import ThreeTermOS.Pit
import ThreeTermOS.Theorems.AddressSpaces

/-!
# The processor goes round

Whatever the programs, the keys and the launches in between, the ticks ask for the three terminals in turn, and a terminal asked for
that has a program gets the processor. Only a terminal left in the keyboard's handler, where the first shell of another was launched,
is asked for twice. A tick, a launch or a handler is one step: `flush_tlb` enables interrupts in the middle of the first two, and a tick
that comes then is left out.
-/

namespace ThreeTermOS

open Chain Runs

/-- The event is a tick. -/
def Event.isTick : Event → Bool
  | .schedule _ _ => true
  | _ => false

/-- The terminals the ticks ask for. -/
def asked (s : PitKernel) (e : Event) : List Term := if e.isTick then [s.pitCounter] else []

/-- The terminals of the ticks that move `pit_counter` on. -/
def turns (img : Image) (s : PitKernel) (e : Event) : List Term :=
  if e.isTick ∧ (pitStep img s e).state.pitCounter ≠ s.pitCounter then [s.pitCounter] else []

/-- The terminals of the ticks that leave it where it is. -/
def repeats (img : Image) (s : PitKernel) (e : Event) : List Term :=
  if e.isTick ∧ (pitStep img s e).state.pitCounter = s.pitCounter then [s.pitCounter] else []

/-- The terminals that may yet be asked for twice: those without a program, of which the first launch leaves another one in the
keyboard's handler, and those left there already. -/
def PitKernel.late (s : PitKernel) : Finset Term :=
  Finset.univ.filter (fun t => t ≠ s.kernel.currTerm ∧ (s.kernel.activeProgs t = none ∨ s.frame t = .keyboard))

/-- What a tick does: a terminal with a program gets the processor, when no switch is under way; in any other case nobody else does. -/
def Serves (img : Image) (s : PitKernel) (e : Event) : Prop :=
  e.isTick = true → ∃ s', pitStep img s e = .ok s' ∧
    if s.kernel.activeProgs s.pitCounter ≠ none ∧ s.kernel.switchLock = false then
      ∃ q, s'.kernel.Runs s.pitCounter q ∧ s'.kernel.currPcbPtr = some (pcbAt s.pitCounter q) ∧
        s'.kernel.pdProg = progEntry q s.pitCounter
    else s'.kernel = s.kernel

namespace RoundRobinAux

open ProcessAux VideoMapAux AddressSpacesAux

variable {k k' k'' : Kernel} {s s' : PitKernel} {img : Image} {r : Residue} {t : Term}

/-! ### Which terminals have a program -/

/-- What a step does to the terminals: the one that runs after it has a program, the others have one as they had; and that one ran
before, or had none. -/
structure Moves (k k' : Kernel) : Prop where
  active : ∀ t, k'.activeProgs t = none ↔ k.activeProgs t = none ∧ t ≠ k'.currTerm
  curr : k'.currTerm = k.currTerm ∨ k.activeProgs k'.currTerm = none

/-- A step that leaves the process tables leaves the running terminal, which has a program. -/
theorem moves_of_same (hrun : k.activeProgs k.currTerm ≠ none) (h : SameProcs k k') : Moves k k' := by
  refine ⟨fun t => ?_, Or.inl h.currTerm⟩
  rw [h.activeProgs, h.currTerm]
  exact ⟨fun hnone => ⟨hnone, fun he => hrun (he ▸ hnone)⟩, And.left⟩

/-- The process tables are all the relation reads. -/
theorem moves_congr (h : SameProcs k k') (hm : Moves k' k'') : Moves k k'' := by
  obtain ⟨hact, hcurr⟩ := hm
  rw [h.activeProgs] at hact hcurr
  rw [h.currTerm] at hcurr
  exact ⟨hact, hcurr⟩

/-- A store of a program in `active_progs[curr_term]`. -/
theorem moves_of_update {a : Addr} (hcurr : k'.currTerm = k.currTerm)
    (hact : k'.activeProgs = Function.update k.activeProgs k.currTerm (some a)) : Moves k k' := by
  refine ⟨fun t => ?_, Or.inl hcurr⟩
  rw [hact, hcurr]
  by_cases ht : t = k.currTerm
  · rw [ht, Function.update_self]
    exact ⟨fun h => (by cases h), fun h => absurd rfl h.2⟩
  · rw [Function.update_of_ne ht]
    exact ⟨fun h => ⟨h, ht⟩, And.left⟩

/-- A program started runs on its terminal. -/
theorem moves_started {command : CPtr} (hs : executeFunc img k command r = .started k') : Moves k k' := by
  obtain ⟨d, m, -, rfl⟩ := started_eq hs
  rw [startProgram_eq]
  exact moves_of_update rfl rfl

/-- A program that runs is its terminal's. -/
theorem active_curr (h : ProcInv k) (hrun : k.currPcbPtr ≠ none) : k.activeProgs k.currTerm ≠ none := by
  rw [← h.curr]
  exact hrun

/-- `switch_terminals` leaves the running terminal or launches a shell on the one it displays. -/
theorem moves_switchTerminals (h : ProcInv k) (hrun : k.currPcbPtr ≠ none) {dest : Nat}
    (hs : switchTerminals img k dest r = .ok k') : Moves k k' := by
  have hact := active_curr h hrun
  rcases switchTerminals_ok hs with rfl | ⟨t, k₁, -, -, -, rfl, ⟨hnone, hk⟩ | ⟨-, rfl⟩⟩
  · exact moves_of_same hact (SameProcs.refl _)
  · have hshown := sameProcs_displaying k t
    rcases doSwitch_ok (procInv_congr h hshown) hk with ⟨n, hn, -⟩ | ⟨-, he⟩
    · rw [hshown.nextPId] at hn
      rw [h.tops, hn, top_succ] at hnone
      cases hnone
    · obtain ⟨hmoved, hterm⟩ := moves_started he
      have hcurr : k₁.currTerm = t := by
        rcases hterm with hterm | hterm
        · exact hterm
        · obtain ⟨-, -, hterm⟩ := procInv_doSwitch (procInv_congr h hshown) hk
          exact hterm
      refine ⟨hmoved, Or.inr ?_⟩
      change k.activeProgs k₁.currTerm = none
      rw [hcurr]
      exact hnone
  · exact moves_of_same hact (SameProcs.trans (sameProcs_displaying k t) (sameProcs_lock _ false))

/-- The end of a program leaves the running terminal with one. -/
theorem moves_halt (h : ProcInv k) (status : UInt8) (hs : haltFunc img k status r = .ok k') : Moves k k' := by
  cases hc : k.currPcbPtr with
  | none =>
    unfold haltFunc at hs
    simp [hc] at hs
  | some a =>
    obtain ⟨n, hn, -⟩ := currPcbPtr_eq h hc
    cases n with
    | zero =>
      rw [haltFunc_root h hn] at hs
      rcases outcome_eq_ok hs with he | ⟨k₁, -, hstop⟩
      · have hprint := sameProcs_print (decremented k) "\nRestart the shell.\n"
        have hmoves : Moves (decremented k) k' := moves_congr hprint (moves_started he)
        exact ⟨hmoves.active, hmoves.curr⟩
      · cases hstop
    | succ n =>
      rw [haltFunc_child h hn, Outcome.ok.injEq] at hs
      subst hs
      exact moves_of_update rfl rfl

/-- Every step but a tick. -/
theorem moves_step (h : ProcInv k) (hrun : k.currPcbPtr ≠ none) {e : Event} (he : e.isTick = false) (hs : step img k e = .ok k') :
    Moves k k' := by
  have hact := active_curr h hrun
  cases e with
  | execute command r =>
    rcases outcome_eq_ok hs with he | ⟨k₁, he, hk⟩
    · exact moves_started he
    · rw [← Outcome.ok.inj hk]
      exact moves_of_same hact (sameProcs_of_refused he)
  | halt status r => exact moves_halt h status hs
  | schedule newTerm r => cases he
  | switchTerminals dest r => exact moves_switchTerminals h hrun hs
  | key scancode r =>
    have hkeyed := sameProcs_keyed k scancode
    rw [step, getCKeyboard_eq] at hs
    split at hs
    · exact moves_congr hkeyed (moves_switchTerminals (procInv_congr h hkeyed) (by rwa [hkeyed.currPcbPtr]) hs)
    · rw [← Outcome.ok.inj hs]
      exact moves_of_same hact hkeyed
  | vidmap screenStart => exact moves_of_same hact (sameProcs_vidmap hs)
  | readCopy nbytes =>
    rw [step] at hs
    split at hs
    · rw [← Outcome.ok.inj hs]
      exact moves_of_same hact ⟨rfl, rfl, rfl, rfl, rfl, rfl, rfl, rfl⟩
    · rw [← Outcome.ok.inj hs]
      exact moves_of_same hact (SameProcs.refl _)
  | write bytes =>
    rw [← Outcome.ok.inj hs]
    exact moves_of_same hact (sameProcs_console (TerminalAux.terminalWrite_sameTerms _ _))
  | puts str =>
    rw [← Outcome.ok.inj hs]
    exact moves_of_same hact (sameProcs_console (TerminalAux.terminalPuts_sameTerms _ _))
  | printf format args =>
    rw [← Outcome.ok.inj hs]
    exact moves_of_same hact (sameProcs_console (TerminalAux.terminalPrintf_sameTerms _ _ _))
  | readBegin | readPoll | lock held =>
    rw [← Outcome.ok.inj hs]
    exact moves_of_same hact ⟨rfl, rfl, rfl, rfl, rfl, rfl, rfl, rfl⟩

/-! ### A tick -/

/-- The handler leaves by the frame of the terminal switched to. -/
theorem leaveHandler_eq (k' : Kernel) (hterm : k'.currTerm = s.pitCounter) :
    leaveHandler { s with kernel := k', frame := Function.update s.frame s.kernel.currTerm .pit } =
      { kernel := k'
        pitCounter := if s.pitCounter ≠ s.kernel.currTerm ∧ s.frame s.pitCounter = .keyboard then s.pitCounter else s.pitCounter + 1
        frame := Function.update s.frame s.kernel.currTerm .pit } := by
  unfold leaveHandler
  rw [hterm]
  by_cases hself : s.pitCounter = s.kernel.currTerm
  · simp [hself]
  · cases hframe : s.frame s.pitCounter with
    | pit => simp [hself, hframe]
    | keyboard => simp [hself, hframe]

/-- A tick whose switch goes through ends with the handler's return. -/
theorem pitHandler_of_ok (hs : schedule img s.kernel s.pitCounter r = .ok k') :
    pitHandler img s r =
      .ok (leaveHandler { s with kernel := k', frame := Function.update s.frame s.kernel.currTerm .pit }) :=
  congrArg (Outcome.map fun k => leaveHandler { s with kernel := k, frame := Function.update s.frame s.kernel.currTerm .pit }) hs

/-- A tick, in full: the turn is lost, or the terminal's top process goes on. -/
theorem pitHandler_cases (h : ProcInv s.kernel) (img : Image) (r : Residue) :
    ((s.kernel.activeProgs s.pitCounter = none ∨ s.kernel.switchLock = true) ∧
      pitHandler img s r = .ok { s with
        pitCounter := s.pitCounter + 1, frame := Function.update s.frame s.kernel.currTerm .pit }) ∨
    ∃ n k', s.kernel.nextPId s.pitCounter = n + 1 ∧ s.kernel.switchLock = false ∧
      schedule img s.kernel s.pitCounter r = .ok k' ∧ k'.currTerm = s.pitCounter ∧
      k'.nextPId = s.kernel.nextPId ∧ k'.activeProgs = s.kernel.activeProgs ∧ k'.currPcbPtr = some (pcbAt s.pitCounter n) ∧
      k'.pdProg = progEntry n s.pitCounter ∧
      pitHandler img s r = .ok
        { kernel := k'
          pitCounter := if s.pitCounter ≠ s.kernel.currTerm ∧ s.frame s.pitCounter = .keyboard then s.pitCounter else s.pitCounter + 1
          frame := Function.update s.frame s.kernel.currTerm .pit } := by
  by_cases hserved : s.kernel.activeProgs s.pitCounter ≠ none ∧ s.kernel.switchLock = false
  · right
    obtain ⟨hact, hl⟩ := hserved
    obtain ⟨n, hn⟩ : ∃ n, s.kernel.nextPId s.pitCounter = n + 1 := by
      refine Nat.exists_eq_succ_of_ne_zero (fun hz => hact ?_)
      rw [h.tops, hz, top_zero]
    have hlocked := procInv_congr h (sameProcs_lock s.kernel true)
    have hswitch : schedule img s.kernel s.pitCounter r =
        .ok { switchedTo { s.kernel with switchLock := true } s.pitCounter n with switchLock := false } := by
      unfold schedule
      rw [if_pos hact, if_neg (by simp [hl]), doSwitch_active hlocked hn, Outcome.andThen_ok]
    refine ⟨n, { switchedTo { s.kernel with switchLock := true } s.pitCounter n with switchLock := false }, hn, hl, hswitch, rfl,
      rfl, rfl, rfl, rfl, ?_⟩
    rw [pitHandler_of_ok hswitch]
    exact congrArg Outcome.ok (leaveHandler_eq _ rfl)
  · left
    have hlost : schedule img s.kernel s.pitCounter r = .ok s.kernel := by
      unfold schedule
      by_cases hact : s.kernel.activeProgs s.pitCounter ≠ none
      · rw [if_pos hact, if_pos (by simpa using fun hl => hserved ⟨hact, hl⟩)]
      · rw [if_neg hact]
    refine ⟨?_, ?_⟩
    · rw [not_and_or] at hserved
      simpa using hserved
    · rw [pitHandler_of_ok hlost]
      unfold leaveHandler
      simp

/-! ### The terminals that may be asked for twice -/

/-- A terminal is late if it does not run and has no program or was last left by the keyboard's handler. -/
theorem mem_late : t ∈ s.late ↔ t ≠ s.kernel.currTerm ∧ (s.kernel.activeProgs t = none ∨ s.frame t = .keyboard) := by
  unfold PitKernel.late
  simp

/-- At most two terminals are late. -/
theorem card_late_le (s : PitKernel) : s.late.card ≤ 2 := by
  have hsub : s.late ⊆ Finset.univ.erase s.kernel.currTerm := fun t ht =>
    Finset.mem_erase.mpr ⟨(mem_late.mp ht).1, Finset.mem_univ t⟩
  have hcard := Finset.card_le_card hsub
  rw [Finset.card_erase_of_mem (Finset.mem_univ _), Finset.card_univ, Fintype.card_fin] at hcard
  exact hcard

/-- What holds along every run. -/
structure Going (k : Kernel) : Prop where
  procs : ProcInv k
  running : k.currPcbPtr ≠ none

/-- A kernel with a program running has one after every step. -/
theorem going_step (h : Going k) {e : Event} (hs : step img k e = .ok k') : Going k' :=
  ⟨(procInv_step h.procs hs).1, (procInv_step h.procs hs).2 h.running⟩

/-- A step that is no tick is one of the kernel. -/
theorem pitStep_eq {e : Event} (he : e.isTick = false) : pitStep img s e = (step img s.kernel e).map (afterStep s) := by
  cases e with
  | schedule newTerm r => cases he
  | _ => rfl

/-- A step that is no tick keeps the number of terminals that may be asked for twice: a first launch takes one away and adds one. -/
theorem pitStep_other (h : Going s.kernel) {e : Event} (he : e.isTick = false) (hs : pitStep img s e = .ok s') :
    Going s'.kernel ∧ s'.pitCounter = s.pitCounter ∧ s'.late.card = s.late.card := by
  rw [pitStep_eq he, Outcome.map_eq_ok] at hs
  obtain ⟨k', hk, rfl⟩ := hs
  obtain ⟨hact, hcurr⟩ := moves_step h.procs h.running he hk
  have hgoing := going_step h hk
  unfold afterStep
  by_cases hsame : k'.currTerm = s.kernel.currTerm
  · rw [if_pos hsame]
    refine ⟨hgoing, rfl, congrArg Finset.card (Finset.ext fun t => ?_)⟩
    rw [mem_late, mem_late, hact t, hsame]
    grind
  · rw [if_neg hsame]
    refine ⟨hgoing, rfl, ?_⟩
    have hnone := hcurr.resolve_left hsame
    have hlate : PitKernel.late { s with kernel := k', frame := Function.update s.frame s.kernel.currTerm .keyboard } =
        insert s.kernel.currTerm (s.late.erase k'.currTerm) := by
      ext t
      rw [mem_late, Finset.mem_insert, Finset.mem_erase, mem_late]
      dsimp only
      rw [hact t]
      by_cases ht : t = s.kernel.currTerm
      · rw [ht]
        simp [Ne.symm hsame]
      · rw [Function.update_of_ne ht]
        grind
    have hnew : s.kernel.currTerm ∉ s.late.erase k'.currTerm := fun hmem => (mem_late.mp (Finset.mem_of_mem_erase hmem)).1 rfl
    have hold : k'.currTerm ∈ s.late := mem_late.mpr ⟨hsame, Or.inl hnone⟩
    rw [hlate, Finset.card_insert_of_notMem hnew, Finset.card_erase_of_mem hold]
    exact Nat.sub_add_cancel (Finset.card_pos.mpr ⟨_, hold⟩)

/-- After a tick that served a terminal left in the keyboard's handler, that one is not asked for twice again. -/
theorem late_again (hact : s.kernel.activeProgs s.kernel.currTerm ≠ none) {c : Term} (hterm : k'.currTerm = s.pitCounter)
    (hactive : k'.activeProgs = s.kernel.activeProgs) (hself : s.pitCounter ≠ s.kernel.currTerm) (hframe : s.frame s.pitCounter = .keyboard) :
    1 + (PitKernel.late ⟨k', c, Function.update s.frame s.kernel.currTerm .pit⟩).card = s.late.card := by
  have hmem : s.pitCounter ∈ s.late := mem_late.mpr ⟨hself, Or.inr hframe⟩
  have hlate : PitKernel.late ⟨k', c, Function.update s.frame s.kernel.currTerm .pit⟩ = s.late.erase s.pitCounter := by
    ext t
    rw [mem_late, Finset.mem_erase, mem_late]
    dsimp only
    rw [hterm, hactive]
    by_cases ht : t = s.kernel.currTerm
    · simp [ht, hact]
    · rw [Function.update_of_ne ht]
      grind
  rw [hlate, Finset.card_erase_of_mem hmem, Nat.add_comm]
  exact Nat.sub_add_cancel (Finset.card_pos.mpr ⟨_, hmem⟩)

/-- A tick that served any other leaves them as they were. -/
theorem late_served (hact : s.kernel.activeProgs s.kernel.currTerm ≠ none) (hasked : s.kernel.activeProgs s.pitCounter ≠ none) {c : Term}
    (hterm : k'.currTerm = s.pitCounter) (hactive : k'.activeProgs = s.kernel.activeProgs)
    (hlate : ¬(s.pitCounter ≠ s.kernel.currTerm ∧ s.frame s.pitCounter = .keyboard)) :
    PitKernel.late ⟨k', c, Function.update s.frame s.kernel.currTerm .pit⟩ = s.late := by
  ext t
  rw [mem_late, mem_late]
  dsimp only
  rw [hterm, hactive]
  by_cases ht : t = s.kernel.currTerm
  · simp [ht, hact]
  · rw [Function.update_of_ne ht]
    grind

/-- A tick moves the counter on, or finds one of the terminals that may be asked for twice. -/
theorem pitStep_tick (h : Going s.kernel) {newTerm : Term} (hs : pitStep img s (.schedule newTerm r) = .ok s') :
    Going s'.kernel ∧
      (s'.pitCounter = s.pitCounter + 1 ∧ s'.late.card = s.late.card ∨
        s'.pitCounter = s.pitCounter ∧ 1 + s'.late.card = s.late.card) := by
  have hact := active_curr h.procs h.running
  rcases pitHandler_cases h.procs img r with ⟨-, he⟩ | ⟨n, k', hn, -, hsched, hterm, -, hactive, hcur, -, he⟩
  · obtain rfl := Outcome.ok.inj (he.symm.trans hs)
    refine ⟨h, Or.inl ⟨rfl, congrArg Finset.card (Finset.ext fun t => ?_)⟩⟩
    rw [mem_late, mem_late]
    dsimp only
    by_cases ht : t = s.kernel.currTerm
    · simp [ht]
    · rw [Function.update_of_ne ht]
  · obtain rfl := Outcome.ok.inj (he.symm.trans hs)
    refine ⟨⟨(procInv_schedule h.procs hsched).1, by rw [hcur]; exact nofun⟩, ?_⟩
    have hasked : s.kernel.activeProgs s.pitCounter ≠ none := by
      rw [h.procs.tops, hn, top_succ]
      exact nofun
    by_cases hlate : s.pitCounter ≠ s.kernel.currTerm ∧ s.frame s.pitCounter = .keyboard
    · rw [if_pos hlate]
      exact Or.inr ⟨rfl, late_again hact hterm hactive hlate.1 hlate.2⟩
    · rw [if_neg hlate]
      exact Or.inl ⟨rfl, congrArg Finset.card (late_served hact hasked hterm hactive hlate)⟩

/-- Every step leaves a program running. -/
theorem going_pitStep (h : Going s.kernel) {e : Event} (hs : pitStep img s e = .ok s') : Going s'.kernel := by
  cases he : e.isTick with
  | false => exact (pitStep_other h he hs).1
  | true =>
    cases e with
    | schedule newTerm r => exact (pitStep_tick h hs).1
    | _ => cases he

/-- What a step gives to the turns and the repeats. -/
theorem turns_step (h : Going s.kernel) {e : Event} (hs : pitStep img s e = .ok s') :
    (turns img s e = [] ∧ s'.pitCounter = s.pitCounter ∨ turns img s e = [s.pitCounter] ∧ s'.pitCounter = s.pitCounter + 1) ∧
      (repeats img s e).length + s'.late.card = s.late.card := by
  have hnext : ∀ c : Term, c + 1 ≠ c := by decide
  unfold turns repeats
  rw [hs, Outcome.state_ok]
  cases he : e.isTick with
  | false =>
    obtain ⟨-, hc, hlate⟩ := pitStep_other h he hs
    simp [hc, hlate]
  | true =>
    cases e with
    | schedule newTerm r =>
      rcases (pitStep_tick h hs).2 with ⟨hc, hlate⟩ | ⟨hc, hlate⟩
      · simp [hc, hlate]
      · simp [hc, hlate]
    | _ => cases he

/-- Every tick is one or the other. -/
theorem length_asked (img : Image) (s : PitKernel) (e : Event) :
    (asked s e).length = (turns img s e).length + (repeats img s e).length := by
  unfold asked turns repeats
  cases he : e.isTick with
  | false => simp
  | true =>
    by_cases hc : (pitStep img s e).state.pitCounter = s.pitCounter
    · simp [hc]
    · simp [hc]

/-- With a program running every tick serves its terminal. -/
theorem serves_of_going (h : Going s.kernel) (e : Event) : Serves img s e := by
  intro he
  cases e with
  | schedule newTerm r =>
    rcases pitHandler_cases h.procs img r with ⟨hlost, he⟩ | ⟨n, k', hn, hl, -, hterm, hcount, -, hcur, hpage, he⟩
    · refine ⟨_, he, ?_⟩
      rw [if_neg]
      rintro ⟨hact, hl⟩
      rcases hlost with hnone | hlock
      · exact hact hnone
      · rw [hl] at hlock
        cases hlock
    · refine ⟨_, he, ?_⟩
      have hasked : s.kernel.activeProgs s.pitCounter ≠ none := by
        rw [h.procs.tops, hn, top_succ]
        exact nofun
      rw [if_pos ⟨hasked, hl⟩]
      exact ⟨n, ⟨hterm, by rw [hcount, hn]⟩, hcur, hpage⟩
  | _ => cases he

end RoundRobinAux

open RoundRobinAux ProcessAux AddressSpacesAux

/-- From any state of any run of whole ticks, calls and launches from the first shell on, whatever the programs do, whatever keys come
and whatever shells they launch: each tick gives its terminal the processor, if that one has a program and no switch is under way; the
ticks that move `pit_counter` on come to every terminal in turn, so each has its exact third of them; and over a whole run no more than
two do not. -/
theorem round_robin {img : Image} {s₀ s s' : PitKernel} (h₀ : FirstShell img s₀.kernel) (hr : Reachable (pitStep img) s₀ s)
    {es : List Event} (hs : run (pitStep img) s es = .ok s') :
    Meets (pitStep img) (Serves img) s es ∧
      (∀ t, (collect (pitStep img) (turns img) s es).count t =
        ((collect (pitStep img) (turns img) s es).length + 2 - (t - s.pitCounter).val) / 3) ∧
      (collect (pitStep img) asked s es).length =
        (collect (pitStep img) (turns img) s es).length + (collect (pitStep img) (repeats img) s es).length ∧
      (collect (pitStep img) (repeats img) s es).length + s'.late.card = s.late.card ∧ s.late.card ≤ 2 := by
  have hrunning := running_firstShell h₀
  have hgoing : Going s.kernel := Reachable.invariant (I := fun s => Going s.kernel) (fun _ _ _ h hs => going_pitStep h hs)
    ⟨hrunning.video.procs, hrunning.curr⟩ hr
  have hturns := collect_eq_cycle (turns img) PitKernel.pitCounter (I := fun s => Going s.kernel)
    (fun _ _ _ h hs => ⟨going_pitStep h hs, (turns_step h hs).1⟩) hgoing hs
  refine ⟨?_, fun t => ?_, ?_, ?_, card_late_le s⟩
  · exact meets_of_invariant (I := fun s => Going s.kernel) (fun _ _ _ h hs => going_pitStep h hs)
      (fun _ e h => serves_of_going h e) es hgoing
  · rw [hturns, count_cycle, length_cycle]
  · exact length_collect_split (length_asked img) s es
  · exact length_collect_add (I := fun s => Going s.kernel) (fun s => s.late.card)
      (fun _ _ _ h hs => ⟨going_pitStep h hs, (turns_step h hs).2⟩) hgoing hs

/-- The first shell, with `pit_counter` as `pit_init` leaves it. -/
def pitStart : PitKernel := { kernel := firstShell, pitCounter := 0, frame := fun _ => .pit }

/-- A tick, a switch to the second terminal, which launches its shell, and four ticks. -/
def launchedTicks : List Event :=
  [.schedule 0 zeroResidue, .switchTerminals 1 zeroResidue, .schedule 0 zeroResidue, .schedule 0 zeroResidue, .schedule 0 zeroResidue,
    .schedule 0 zeroResidue]

/-- Ticks while a shell is launched. -/
theorem round_robin_launch : collect (pitStep shellImage) (repeats shellImage) pitStart launchedTicks = [0] ∧
    (collect (pitStep shellImage) (turns shellImage) pitStart launchedTicks).count 0 =
      ((collect (pitStep shellImage) (turns shellImage) pitStart launchedTicks).length + 2 - (0 - pitStart.pitCounter).val) / 3 := by
  have h₀ : FirstShell shellImage pitStart.kernel := firstShell_firstShell
  have hok : (run (pitStep shellImage) pitStart launchedTicks).isOk = true := by decide +kernel
  obtain ⟨-, hcount, -⟩ := round_robin h₀ (Reachable.refl pitStart) (Outcome.eq_ok_of_isOk hok)
  exact ⟨by decide +kernel, hcount 0⟩

end ThreeTermOS
