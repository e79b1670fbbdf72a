import ThreeTermOS.Lemmas.Process

/-!
# The video pages

`video_table` has one page for each terminal. `init_paging` points all three at the video memory; a switch points the page of the
terminal it leaves at that terminal's buffer and the page of the one it shows at the video memory. `VideoMapped` says what holds
of the table throughout; a step either leaves the table alone and starts programs on the displayed terminal only, or is a switch
or a `vidmap`.
-/

namespace ThreeTermOS

open Runs

/-- The video pages: all three are present, writable and open to user programs, the displayed terminal's maps the video memory,
and any other's maps its buffer once a program has been started there. -/
structure VideoMapped (k : Kernel) : Prop where
  flags : ∀ t : Term, (k.videoTable t.val).flags = 0x7
  frames : ∀ t : Term, (k.videoTable t.val).base = video ∨ (k.videoTable t.val).base = videoBuffer t
  shown : (k.videoTable k.dispTerm.val).base = video
  behind : ∀ t, k.activeProgs t ≠ none → t ≠ k.dispTerm → (k.videoTable t.val).base = videoBuffer t
  outside : ∀ i, 3 ≤ i → k.videoTable i = { base := 0, flags := 0 }

/-- A step that leaves the video pages alone, starts programs on the displayed terminal only and leaves no terminal without the
program it had. -/
structure KeepsVideo (k k' : Kernel) : Prop where
  table : k'.videoTable = k.videoTable
  disp : k'.dispTerm = k.dispTerm
  started : ∀ t, k'.activeProgs t ≠ none → k.activeProgs t ≠ none ∨ t = k.dispTerm
  stays : ∀ t, k.activeProgs t ≠ none → k'.activeProgs t ≠ none

/-- The video pages of a kernel are its own. -/
theorem KeepsVideo.refl (k : Kernel) : KeepsVideo k k := ⟨rfl, rfl, fun _ h => Or.inl h, fun _ h => h⟩

/-- They stay over two changes in a row. -/
theorem KeepsVideo.trans {k k' k'' : Kernel} (h : KeepsVideo k k') (h' : KeepsVideo k' k'') : KeepsVideo k k'' := by
  refine ⟨h'.table.trans h.table, h'.disp.trans h.disp, ?_, fun t ht => h'.stays t (h.stays t ht)⟩
  intro t ht
  rcases h'.started t ht with ht | rfl
  · exact h.started t ht
  · exact Or.inr h.disp

namespace VideoMapAux

open ProcessAux

variable {k k' : Kernel} {img : Image} {r : Residue}

/-- Video pages that stay are mapped as they were. -/
theorem videoMapped_of_keeps (h : VideoMapped k) (hk : KeepsVideo k k') : VideoMapped k' := by
  obtain ⟨h1, hframes, h2, h3, h4⟩ := h
  obtain ⟨htable, hdisp, hstarted, -⟩ := hk
  refine ⟨?_, ?_, ?_, ?_, ?_⟩
  · rw [htable]
    exact h1
  · rw [htable]
    exact hframes
  · rw [htable, hdisp]
    exact h2
  · intro t ht hne
    rw [hdisp] at hne
    rw [htable]
    rcases hstarted t ht with ht | rfl
    · exact h3 t ht hne
    · exact absurd rfl hne
  · rw [htable]
    exact h4

/-! ### Steps that leave the pages alone -/

/-- A change of console that keeps the terminal numbers. -/
theorem keepsVideo_console {c : Console} (h : k.toConsole.SameTerms c) : KeepsVideo k { k with toConsole := c } :=
  ⟨rfl, h.disp, fun _ ht => Or.inl ht, fun _ ht => ht⟩

/-- What a key does to the console leaves the video pages. -/
theorem keepsVideo_keyed (k : Kernel) (c : UInt8) : KeepsVideo k (keyed k c) :=
  ⟨rfl, (TerminalAux.key_sameTerms k.toConsole _ _).disp, fun _ ht => Or.inl ht, fun _ ht => ht⟩

/-- A message leaves them. -/
theorem keepsVideo_print (k : Kernel) (s : String) : KeepsVideo k (k.print s) :=
  keepsVideo_console (TerminalAux.terminalPrintf_sameTerms k.toConsole _ _)

/-- A program made the running terminal's, where that is displayed or has one, starts no other terminal. -/
theorem started_update (hcur : k.activeProgs k.currTerm ≠ none ∨ k.currTerm = k.dispTerm) {a : Option Addr} {t : Term}
    (ht : Function.update k.activeProgs k.currTerm a t ≠ none) : k.activeProgs t ≠ none ∨ t = k.dispTerm := by
  by_cases heq : t = k.currTerm
  · subst heq
    exact hcur
  · rw [Function.update_of_ne heq] at ht
    exact Or.inl ht

/-- A terminal with a program still has one when another program starts. -/
theorem stays_update (a : Addr) {t : Term} (ht : k.activeProgs t ≠ none) :
    Function.update k.activeProgs k.currTerm (some a) t ≠ none := by
  by_cases heq : t = k.currTerm
  · rw [heq, Function.update_self]
    exact nofun
  · rw [Function.update_of_ne heq]
    exact ht

/-- `execute_func`, however it ends, for a terminal that is displayed or has a program already. -/
theorem keepsVideo_execute (hcur : k.activeProgs k.currTerm ≠ none ∨ k.currTerm = k.dispTerm) (command : CPtr) :
    KeepsVideo k (executeFunc img k command r).kernel := by
  rcases executeFunc_cases img k command r with ⟨message, -, he⟩ | ⟨d, m, -, -, he | he⟩
  · rw [he]
    exact keepsVideo_print k message
  · rw [he, ExecOut.kernel]
    unfold loaded
    exact ⟨rfl, rfl, fun _ ht => Or.inl ht, fun _ ht => ht⟩
  · rw [he, ExecOut.kernel, startProgram_eq]
    unfold loaded
    exact ⟨rfl, rfl, fun t ht => started_update hcur ht, fun t ht => stays_update _ ht⟩

/-- Where a call of `execute_func` leads, when what follows a refusal keeps the pages. -/
theorem keepsVideo_outcome {o : ExecOut} {f : Kernel → Outcome Stop Kernel} (h : KeepsVideo k o.kernel)
    (hf : ∀ k₁, KeepsVideo k k₁ → KeepsVideo k (f k₁).state) : KeepsVideo k (o.outcome f).state := by
  cases o with
  | refused k₁ => exact hf k₁ h
  | started k₁ => exact h
  | fault k₁ => exact h

/-- A terminal that runs is displayed or has a program. -/
theorem active_or_displayed (h : ProcInv k) (hidle : k.currPcbPtr = none → k.currTerm = k.dispTerm) :
    k.activeProgs k.currTerm ≠ none ∨ k.currTerm = k.dispTerm := by
  by_cases hrun : k.currPcbPtr = none
  · exact Or.inr (hidle hrun)
  · rw [h.curr] at hrun
    exact Or.inl hrun

/-- The end of a program leaves the video pages. -/
theorem keepsVideo_halt (h : ProcInv k) (hidle : k.currPcbPtr = none → k.currTerm = k.dispTerm) (status : UInt8) :
    KeepsVideo k (haltFunc img k status r).state := by
  have hcur := active_or_displayed h hidle
  cases hn : k.nextPId k.currTerm with
  | zero =>
    have hnone : k.currPcbPtr = none := by rw [h.curr, h.tops, hn, Chain.top_zero]
    unfold haltFunc
    simp only [hnone, Outcome.state_stop]
    exact ⟨rfl, rfl, fun _ ht => Or.inl ht, fun _ ht => ht⟩
  | succ n =>
    cases n with
    | zero =>
      rw [haltFunc_root h hn]
      have hdec : KeepsVideo k (decremented k) := by
        unfold decremented
        exact ⟨rfl, rfl, fun _ ht => Or.inl ht, fun _ ht => ht⟩
      have hprint := keepsVideo_print (decremented k) "\nRestart the shell.\n"
      have hsame := sameProcs_print (decremented k) "\nRestart the shell.\n"
      have hact : ((decremented k).print "\nRestart the shell.\n").activeProgs ((decremented k).print "\nRestart the shell.\n").currTerm ≠
          none ∨ ((decremented k).print "\nRestart the shell.\n").currTerm = ((decremented k).print "\nRestart the shell.\n").dispTerm := by
        rw [hsame.activeProgs, hsame.currTerm, hprint.disp]
        unfold decremented
        exact hcur
      refine keepsVideo_outcome (hdec.trans (hprint.trans (keepsVideo_execute hact shellCommand))) ?_
      exact fun k₁ hk₁ => hk₁
    | succ n =>
      rw [haltFunc_child h hn]
      unfold popped
      exact ⟨rfl, rfl, fun t ht => started_update hcur ht, fun t ht => stays_update _ ht⟩

/-- `do_switch`, to a terminal that is displayed or has a program. -/
theorem keepsVideo_doSwitch (h : ProcInv k) {dest : Term} (hdest : k.activeProgs dest ≠ none ∨ dest = k.dispTerm) :
    KeepsVideo k (doSwitch img k dest r).state := by
  by_cases hrun : k.currPcbPtr = none
  · unfold doSwitch
    simp only [hrun, Outcome.state_stop]
    exact KeepsVideo.refl k
  · cases hn : k.nextPId dest with
    | zero =>
      rw [doSwitch_unused h hrun hn]
      have hlaunch : KeepsVideo k (launching k dest) := by
        unfold launching
        exact ⟨rfl, rfl, fun _ ht => Or.inl ht, fun _ ht => ht⟩
      have hact : (launching k dest).activeProgs (launching k dest).currTerm ≠ none ∨
          (launching k dest).currTerm = (launching k dest).dispTerm := by
        unfold launching
        exact hdest
      refine keepsVideo_outcome (hlaunch.trans (keepsVideo_execute hact shellCommand)) ?_
      intro k₁ hk₁
      exact hk₁.trans (keepsVideo_console ⟨rfl, rfl⟩)
    | succ n =>
      rw [doSwitch_active h hn]
      unfold switchedTo
      exact ⟨rfl, rfl, fun _ ht => Or.inl ht, fun _ ht => ht⟩

/-- The lock given back after an outcome. -/
theorem keepsVideo_unlock {o : Outcome Stop Kernel} (h : KeepsVideo k o.state) :
    KeepsVideo k (o.andThen (fun k => .ok { k with switchLock := false })).state := by
  cases o with
  | ok k₁ => exact ⟨h.table, h.disp, h.started, h.stays⟩
  | stop reason k₁ => exact h

/-- A tick leaves them. -/
theorem keepsVideo_schedule (h : ProcInv k) (t : Term) : KeepsVideo k (schedule img k t r).state := by
  rcases schedule_cases img k t r with he | ⟨hact, -, he⟩
  · rw [he]
    exact KeepsVideo.refl k
  · rw [he]
    have hlock : KeepsVideo k { k with switchLock := true } := ⟨rfl, rfl, fun _ ht => Or.inl ht, fun _ ht => ht⟩
    exact keepsVideo_unlock (hlock.trans (keepsVideo_doSwitch (procInv_congr h (sameProcs_lock k true)) (Or.inl hact)))

/-! ### switch_terminals and vidmap_func -/

/-- The two stores of `switch_vidmap`: the displayed terminal's page goes to its buffer, the new one's to the video memory. -/
theorem videoMapped_displaying (h : VideoMapped k) (dest : Term) : VideoMapped (displaying k dest) := by
  obtain ⟨h1, hframes, h2, h3, h4⟩ := h
  unfold displaying switchVidmap switchVidmem
  refine ⟨?_, ?_, ?_, ?_, ?_⟩
  · intro t
    dsimp only
    by_cases ht : t.val = dest.val
    · rw [ht, Function.update_self]
    · rw [Function.update_of_ne ht]
      by_cases hd : t.val = k.dispTerm.val
      · rw [hd, Function.update_self]
      · rw [Function.update_of_ne hd]
        exact h1 t
  · intro t
    dsimp only
    by_cases ht : t = dest
    · rw [ht, Function.update_self]
      exact Or.inl rfl
    · rw [Function.update_of_ne (fun he => ht (Fin.ext he))]
      by_cases hd : t = k.dispTerm
      · rw [hd, Function.update_self]
        exact Or.inr rfl
      · rw [Function.update_of_ne (fun he => hd (Fin.ext he))]
        exact hframes t
  · dsimp only
    rw [Function.update_self]
  · intro t ht hne
    dsimp only at ht hne ⊢
    have hne' : t.val ≠ dest.val := fun he => hne (Fin.ext he)
    rw [Function.update_of_ne hne']
    by_cases hd : t = k.dispTerm
    · rw [hd, Function.update_self]
    · have hd' : t.val ≠ k.dispTerm.val := fun he => hd (Fin.ext he)
      rw [Function.update_of_ne hd']
      exact h3 t ht hd
  · intro i hi
    have hlt := dest.isLt
    have hlt' := k.dispTerm.isLt
    dsimp only
    rw [Function.update_of_ne (by omega), Function.update_of_ne (by omega)]
    exact h4 i hi

/-- `switch_terminals` maps the pages of the terminals it switches between. -/
theorem videoMapped_switchTerminals (h : ProcInv k) (hv : VideoMapped k) (dest : Nat) :
    VideoMapped (switchTerminals img k dest r).state := by
  rcases switchTerminals_cases img k dest r with he | ⟨t, -, -, -, he⟩
  · rw [he]
    exact hv
  · rw [he]
    have hd := videoMapped_displaying hv t
    refine videoMapped_of_keeps hd (keepsVideo_unlock ?_)
    split
    · exact keepsVideo_doSwitch (procInv_congr h (sameProcs_displaying k t)) (Or.inr rfl)
    · exact KeepsVideo.refl _

/-- The flag `vidmap_func` sets is set already. -/
theorem open_again (hv : VideoMapped k) :
    { k with
      videoTable := Function.update k.videoTable k.currTerm.val
        { k.videoTable k.currTerm.val with flags := (k.videoTable k.currTerm.val).flags ||| 4 } } = k := by
  have h7 := hv.flags k.currTerm
  have hentry : ({ k.videoTable k.currTerm.val with flags := (k.videoTable k.currTerm.val).flags ||| 4 } : PageEntry) =
      k.videoTable k.currTerm.val := by
    generalize k.videoTable k.currTerm.val = entry at h7 ⊢
    obtain ⟨base, flags⟩ := entry
    dsimp only at h7 ⊢
    rw [h7]
    rfl
  rw [hentry, Function.update_eq_self]

/-- `vidmap` maps the caller's page where its screen lies. -/
theorem videoMapped_vidmap (hv : VideoMapped k) (s : Nat) : VideoMapped (vidmapFunc k s).2.state := by
  unfold vidmapFunc
  split
  · exact hv
  · dsimp only
    rw [open_again hv]
    obtain ⟨m, hm⟩ := storeBytes_state (wordBytes (vidmapAddr k.currTerm)) k s
    rw [hm]
    exact videoMapped_of_keeps hv ⟨rfl, rfl, fun _ ht => Or.inl ht, fun _ ht => ht⟩

/-! ### Every step -/

/-- Until the first program runs, the running terminal is the displayed one. -/
def IdleDisplayed (k : Kernel) : Prop := k.currPcbPtr = none → k.currTerm = k.dispTerm

/-- A change of the console alone leaves no other program running. -/
theorem idleDisplayed_console {c : Console} (h : IdleDisplayed k) (hs : k.toConsole.SameTerms c) :
    IdleDisplayed { k with toConsole := c } := by
  intro hnone
  dsimp only
  rw [hs.curr, hs.disp]
  exact h hnone

/-- A switch of terminals before any program runs is refused or stops. -/
theorem idleDisplayed_switchTerminals (h : ProcInv k) (hi : IdleDisplayed k) {dest : Nat}
    (hs : switchTerminals img k dest r = .ok k') : IdleDisplayed k' := by
  intro hnone
  have hc : k.currPcbPtr = none := by
    by_contra hne
    exact (procInv_switchTerminals h hs).2 hne hnone
  rcases switchTerminals_ok hs with rfl | ⟨t, k₁, -, -, -, -, ⟨-, hk⟩ | ⟨hact, -⟩⟩
  · exact hi hnone
  · unfold doSwitch at hk
    simp [(sameProcs_displaying k t).currPcbPtr, hc] at hk
  · exact absurd (by rw [h.tops, h.idle hc, Chain.top_zero]) hact

/-- A tick leaves the processor without a program only on the displayed terminal. -/
theorem idleDisplayed_schedule (h : ProcInv k) (hi : IdleDisplayed k) {t : Term} (hs : schedule img k t r = .ok k') :
    IdleDisplayed k' := by
  intro hnone
  rcases schedule_ok hs with rfl | ⟨k₁, -, -, rfl, hk⟩
  · exact hi hnone
  · exact absurd hnone (procInv_doSwitch (procInv_congr h (sameProcs_lock k true)) hk).2.1

/-- So does every step. -/
theorem idleDisplayed_step (h : ProcInv k) (hi : IdleDisplayed k) {e : Event} (hs : step img k e = .ok k') :
    IdleDisplayed k' := by
  cases e with
  | execute command r =>
    rcases outcome_eq_ok hs with he | ⟨k₁, he, hk⟩
    · intro hnone
      obtain ⟨-, -, -, hcur, -⟩ := procInv_of_started (launchable_of_procInv h) he
      rw [hcur] at hnone
      cases hnone
    · rw [Outcome.ok.injEq] at hk
      subst hk
      obtain ⟨message, -, rfl⟩ := refused_eq he
      exact idleDisplayed_console hi (TerminalAux.terminalPrintf_sameTerms k.toConsole _ _)
  | halt status r =>
    intro hnone
    exact absurd hnone (procInv_halt h status hs).2
  | schedule newTerm r => exact idleDisplayed_schedule h hi hs
  | switchTerminals dest r => exact idleDisplayed_switchTerminals h hi hs
  | key scancode r =>
    have hkeyed : IdleDisplayed (keyed k scancode) := idleDisplayed_console hi (TerminalAux.key_sameTerms k.toConsole _ _)
    rw [step, getCKeyboard_eq] at hs
    split at hs
    · exact idleDisplayed_switchTerminals (procInv_congr h (sameProcs_keyed k scancode)) hkeyed hs
    · rw [Outcome.ok.injEq] at hs
      exact hs ▸ hkeyed
  | write bytes =>
    rw [step, Outcome.ok.injEq] at hs
    exact hs ▸ idleDisplayed_console hi (TerminalAux.terminalWrite_sameTerms _ _)
  | puts s =>
    rw [step, Outcome.ok.injEq] at hs
    exact hs ▸ idleDisplayed_console hi (TerminalAux.terminalPuts_sameTerms _ _)
  | printf format args =>
    rw [step, Outcome.ok.injEq] at hs
    exact hs ▸ idleDisplayed_console hi (TerminalAux.terminalPrintf_sameTerms _ _ _)
  | readBegin =>
    rw [step, Outcome.ok.injEq] at hs
    subst hs
    exact hi
  | readPoll =>
    rw [step, Outcome.ok.injEq] at hs
    subst hs
    exact hi
  | readCopy nbytes =>
    rw [step] at hs
    split at hs
    · rw [Outcome.ok.injEq] at hs
      subst hs
      exact hi
    · rw [Outcome.ok.injEq] at hs
      exact hs ▸ hi
  | vidmap screenStart =>
    obtain ⟨m, table, rfl⟩ := vidmapFunc_eq hs
    exact hi
  | lock held =>
    rw [step, Outcome.ok.injEq] at hs
    subst hs
    exact hi

/-- What the tables and the pages keep between steps. -/
structure VideoInv (k : Kernel) : Prop where
  procs : ProcInv k
  mapped : VideoMapped k
  idle : IdleDisplayed k

/-- A step either leaves the pages alone, or is a switch of terminals, or stores the address of a video page. -/
theorem step_video (hp : ProcInv k) (hi : IdleDisplayed k) (img : Image) (e : Event) :
    KeepsVideo k (step img k e).state ∨
      (∃ k₁ dest r, KeepsVideo k k₁ ∧ SameProcs k k₁ ∧ step img k e = switchTerminals img k₁ dest r) ∨
      ∃ s, e = .vidmap s := by
  have hcur := active_or_displayed hp hi
  cases e with
  | execute command r => exact Or.inl (keepsVideo_outcome (keepsVideo_execute hcur command) (fun _ hk₁ => hk₁))
  | halt status r => exact Or.inl (keepsVideo_halt hp hi status)
  | schedule newTerm r => exact Or.inl (keepsVideo_schedule hp newTerm)
  | switchTerminals dest r => exact Or.inr (Or.inl ⟨k, dest, r, KeepsVideo.refl k, SameProcs.refl k, rfl⟩)
  | key scancode r =>
    have hkeyed := keepsVideo_keyed k scancode
    rw [step, getCKeyboard_eq]
    split
    · exact Or.inr (Or.inl ⟨keyed k scancode, _, r, hkeyed, sameProcs_keyed k scancode, rfl⟩)
    · exact Or.inl hkeyed
  | write bytes => exact Or.inl (keepsVideo_console (TerminalAux.terminalWrite_sameTerms _ _))
  | puts s => exact Or.inl (keepsVideo_console (TerminalAux.terminalPuts_sameTerms _ _))
  | printf format args => exact Or.inl (keepsVideo_console (TerminalAux.terminalPrintf_sameTerms _ _ _))
  | readBegin => exact Or.inl ⟨rfl, rfl, fun _ ht => Or.inl ht, fun _ ht => ht⟩
  | readPoll => exact Or.inl ⟨rfl, rfl, fun _ ht => Or.inl ht, fun _ ht => ht⟩
  | readCopy nbytes =>
    rw [step]
    split
    · exact Or.inl ⟨rfl, rfl, fun _ ht => Or.inl ht, fun _ ht => ht⟩
    · exact Or.inl (KeepsVideo.refl k)
  | vidmap screenStart => exact Or.inr (Or.inr ⟨screenStart, rfl⟩)
  | lock held => exact Or.inl ⟨rfl, rfl, fun _ ht => Or.inl ht, fun _ ht => ht⟩

/-- After any step, also one that stops, the pages are mapped as they should be. -/
theorem videoMapped_step (h : VideoInv k) (img : Image) (e : Event) : VideoMapped (step img k e).state := by
  obtain ⟨hp, hv, hi⟩ := h
  rcases step_video hp hi img e with hk | ⟨k₁, dest, r, hk, hsame, he⟩ | ⟨s, rfl⟩
  · exact videoMapped_of_keeps hv hk
  · rw [he]
    exact videoMapped_switchTerminals (procInv_congr hp hsame) (videoMapped_of_keeps hv hk) dest
  · exact videoMapped_vidmap hv s

/-- Every step keeps the invariant of the video pages. -/
theorem videoInv_step (h : VideoInv k) {e : Event} (hs : step img k e = .ok k') : VideoInv k' := by
  have hmapped := videoMapped_step h img e
  rw [hs, Outcome.state_ok] at hmapped
  exact ⟨(procInv_step h.procs hs).1, hmapped, idleDisplayed_step h.procs h.idle hs⟩

/-- It holds at boot. -/
theorem videoInv_boot (m : CPtr) (p : Addr → PCB) : VideoInv (boot m p) := by
  refine ⟨procInv_boot m p, ⟨?_, ?_, ?_, ?_, ?_⟩, fun _ => rfl⟩
  · intro t
    unfold boot
    dsimp only
    rw [if_pos t.isLt]
  · intro t
    unfold boot
    dsimp only
    rw [if_pos t.isLt]
    exact Or.inl rfl
  · rfl
  · intro t ht
    exact absurd rfl ht
  · intro i hi
    unfold boot
    dsimp only
    rw [if_neg (by omega)]

/-- The pages are mapped as they should be in every state the kernel reaches. -/
theorem videoInv_reachable {m : CPtr} {p : Addr → PCB} (hr : Reachable (step img) (boot m p) k) : VideoInv k :=
  Reachable.invariant (fun _ _ _ h hs => videoInv_step h hs) (videoInv_boot m p) hr

/-- From the first shell on, the pages are mapped as they should be. -/
theorem videoInv_running {k₀ : Kernel} (h₀ : FirstShell img k₀) (hr : Reachable (step img) k₀ k) : VideoInv k := by
  obtain ⟨m, p, hboot⟩ := reachable_boot h₀ hr
  exact videoInv_reachable hboot

/-- What a key does to the console keeps it. -/
theorem videoInv_keyed (h : VideoInv k) (c : UInt8) : VideoInv (keyed k c) :=
  ⟨procInv_congr h.procs (sameProcs_keyed k c), videoMapped_of_keeps h.mapped (keepsVideo_keyed k c),
    idleDisplayed_console h.idle (TerminalAux.key_sameTerms k.toConsole (k.keys.update c) c)⟩

/-! ### The displayed terminal -/

/-- The displayed terminal has a program. -/
def DisplayedStarted (k : Kernel) : Prop := k.activeProgs k.dispTerm ≠ none

/-- A terminal displayed with a program keeps one. -/
theorem displayedStarted_of_keeps (h : DisplayedStarted k) (hk : KeepsVideo k k') : DisplayedStarted k' := by
  unfold DisplayedStarted
  rw [hk.disp]
  exact hk.stays _ h

/-- A switch of terminals that goes on leaves a terminal displayed that has a program, launched if need be. -/
theorem displayedStarted_switchTerminals (h : ProcInv k) (hd : DisplayedStarted k) {dest : Nat}
    (hs : switchTerminals img k dest r = .ok k') : DisplayedStarted k' := by
  rcases switchTerminals_ok hs with rfl | ⟨t, k₁, -, -, -, rfl, ⟨-, hk⟩ | ⟨hact, rfl⟩⟩
  · exact hd
  · have hp := procInv_congr h (sameProcs_displaying k t)
    obtain ⟨hp₁, hrun, hterm⟩ := procInv_doSwitch hp hk
    have hkeep : KeepsVideo (displaying k t) (doSwitch img (displaying k t) t r).state := keepsVideo_doSwitch hp (Or.inr rfl)
    rw [hk, Outcome.state_ok] at hkeep
    have hdisp : k₁.dispTerm = t := hkeep.disp
    rw [hp₁.curr, hterm, ← hdisp] at hrun
    exact hrun
  · unfold DisplayedStarted
    dsimp only
    rw [(sameProcs_displaying k t).activeProgs]
    exact hact

/-- Every step leaves the displayed terminal with a program. -/
theorem displayedStarted_step (h : VideoInv k) (hd : DisplayedStarted k) {e : Event} (hs : step img k e = .ok k') :
    DisplayedStarted k' := by
  rcases step_video h.procs h.idle img e with hk | ⟨k₁, dest, r, hk, hsame, he⟩ | ⟨s, rfl⟩
  · rw [hs] at hk
    exact displayedStarted_of_keeps hd hk
  · rw [he] at hs
    exact displayedStarted_switchTerminals (procInv_congr h.procs hsame) (displayedStarted_of_keeps hd hk) hs
  · obtain ⟨m, table, rfl⟩ := vidmapFunc_eq hs
    exact hd

/-- From the first shell on, the displayed terminal has a program. -/
theorem displayedStarted_running {k₀ : Kernel} (h₀ : FirstShell img k₀) (hr : Reachable (step img) k₀ k) : DisplayedStarted k := by
  have hfirst : DisplayedStarted k₀ := by
    obtain ⟨m, p, r, he⟩ := h₀
    obtain ⟨hp, hterm, -, hcur, -⟩ := procInv_of_started (launchable_of_procInv (procInv_boot m p)) he
    have hkeep : KeepsVideo (boot m p) (executeFunc img (boot m p) shellCommand r).kernel :=
      keepsVideo_execute (Or.inr rfl) shellCommand
    rw [he, ExecOut.kernel] at hkeep
    have hdisp : k₀.dispTerm = k₀.currTerm := hkeep.disp.trans hterm.symm
    unfold DisplayedStarted
    rw [hdisp, ← hp.curr, hcur]
    exact nofun
  have hinv : VideoInv k ∧ DisplayedStarted k :=
    Reachable.invariant (I := fun k => VideoInv k ∧ DisplayedStarted k)
      (fun _ _ _ h hs => ⟨videoInv_step h.1 hs, displayedStarted_step h.1 h.2 hs⟩)
      ⟨videoInv_running h₀ (Reachable.refl k₀), hfirst⟩ hr
  exact hinv.2

end VideoMapAux

end ThreeTermOS
