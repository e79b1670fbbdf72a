import ThreeTermOS.Lemmas.Moves

/-!
# The steps of one call under preemption

Seen from an `execute_func` under way on a terminal, a step of the machine is a step of that call, or a tick that comes back to the
terminal, or neither. `CallStep` says what each does to the call and to the page mapped; what all of them preserve is carried along a
run by `carried_step`.
-/

namespace ThreeTermOS

open Bytes Chain Runs

/-- How far an `execute_func` has got: its page not mapped yet, bytes left to load, all bytes loaded, the new process current. -/
inductive Phase where
  | unmapped | loading | loaded | committed
  deriving DecidableEq, Repr

def Point.phase : Point → Phase
  | .restart => .unmapped
  | .mapProgPage => .unmapped
  | .load _ (_ :: _) => .loading
  | .load _ [] => .loaded
  | .pcbInit => .loaded
  | .setShellFlag _ => .loaded
  | .setCurrPcb _ _ => .loaded
  | _ => .committed

/-- The number of the process that the call under way on terminal `t` creates. -/
def creates (s : Machine) (t : Term) : Nat := s.kernel.nextPId t + weight Point.uncounted (s.execs t) - 1

/-- An address in the program page of a process. -/
def InProgPage (p : Nat) (t : Term) (a : Nat) : Prop := (progEntry p t).base ≤ a ∧ a < (progEntry p t).base + mem4MB

/-- The call on terminal `t` is under way. -/
def UnderWay (t : Term) (s : Machine) (_ : Move) : Prop := s.execs t ≠ none

namespace LoadStepsAux

open ProcessAux PreemptionAux

variable {s s' : Machine} {img : Image} {t : Term} {x x' : Exec} {m : Move} {p q : Nat} {d : Dentry}

/-! ### Pages -/

/-- Two processes of a terminal have their own page entries. -/
theorem progEntry_inj (h : progEntry p t = progEntry q t) : p = q := by
  have hbase : (progEntry p t).base = (progEntry q t).base := by rw [h]
  unfold progEntry mem4MB at hbase
  dsimp only at hbase
  omega

/-- An address lies in the page of one process of a terminal at most. -/
theorem inProgPage_inj {a : Nat} (h : InProgPage p t a) (h' : InProgPage q t a) : p = q := by
  unfold InProgPage progEntry mem4MB at h h'
  dsimp only at h h'
  omega

/-- A virtual address in the program page is mapped into the page of the process whose entry is set. -/
theorem translate_progEntry {k : Kernel} (hpage : k.pdProg = progEntry q t) {v : Nat} (hlo : mb128 ≤ v) (hhi : v < mb128 + mem4MB) :
    ∃ a, k.translate v = some a ∧ InProgPage q t a := by
  unfold mb128 at hlo hhi
  unfold mem4MB at hhi
  have hdir : v / mem4MB = pdEntryProg := by
    unfold mem4MB pdEntryProg
    omega
  have hpresent : (progEntry q t).flags % 2 = 1 := by simp [progEntry, pagesize4MBProg]
  rw [Kernel.translate, if_pos hdir, hpage, if_pos hpresent]
  refine ⟨_, rfl, Nat.le_add_right _ _, ?_⟩
  exact Nat.add_lt_add_left (Nat.mod_lt _ (by decide)) _

/-! ### The steps of the call -/

/-- One step of the call that does not end it. -/
inductive OwnStep (img : Image) (s s' : Machine) (x x' : Exec) : Prop
  | map (hp : x.point = .mapProgPage) (hp' : x'.point = .load loadAddr (loadBytes img x.fileEntry))
      (hpage : s'.kernel.pdProg = progEntry (creates s s.kernel.currTerm) s.kernel.currTerm) (hmem : s'.kernel.mem = s.kernel.mem)
  | load (v : Nat) (b : UInt8) (bytes : List UInt8) (a : Nat) (hp : x.point = .load v (b :: bytes))
      (ha : s.kernel.translate v = some a) (hp' : x'.point = .load (v + 1) bytes)
      (hpage : s'.kernel.pdProg = s.kernel.pdProg) (hmem : s'.kernel.mem = set s.kernel.mem a b)
  | later (hp : x.point.phase = .loaded ∨ x.point.phase = .committed)
      (hp' : x'.point.phase = .committed ∨ x.point.phase = .loaded ∧ x'.point.phase = .loaded)
      (hpage : s'.kernel.pdProg = s.kernel.pdProg) (hmem : s'.kernel.mem = s.kernel.mem)

/-- What `advance` does for the running terminal is a step of its own call. -/
theorem ownStep_of_advance (hx : s.execs s.kernel.currTerm = some x) (hchecked : x.point ≠ .restart)
    (hs : advance img s x = .ok s') (hx' : s'.execs s.kernel.currTerm = some x') :
    s'.kernel.currTerm = s.kernel.currTerm ∧ creates s' s.kernel.currTerm = creates s s.kernel.currTerm ∧
      x'.fileEntry = x.fileEntry ∧ x'.point ≠ .restart ∧ OwnStep img s s' x x' := by
  rcases advance_goes hs with ⟨k, pt, hgoes, rfl⟩ | ⟨-, rfl⟩
  · rw [execs_goto, Option.some.injEq] at hx'
    have hcurr := (goes_frame hgoes).1
    have hentry : x'.fileEntry = x.fileEntry := by rw [← hx']
    have hpoint : x'.point = pt := by rw [← hx']
    -- the counter and the point's weight keep their sum
    have hcreates : k.nextPId s.kernel.currTerm + pt.uncounted = s.kernel.nextPId s.kernel.currTerm + x.point.uncounted →
        creates (s.goto x k pt) s.kernel.currTerm = creates s s.kernel.currTerm := by
      intro hnext
      unfold creates
      rw [execs_goto, hx, weight_some, weight_some]
      exact congrArg (· - 1) hnext
    generalize hq : x.point = q at hgoes hcreates hchecked
    have hlater : (q.phase = .loaded ∨ q.phase = .committed) → (pt.phase = .committed ∨ q.phase = .loaded ∧ pt.phase = .loaded) →
        k.pdProg = s.kernel.pdProg → k.mem = s.kernel.mem → OwnStep img s (s.goto x k pt) x x' := by
      intro hfrom hto hpage hmem
      subst hq hpoint
      exact OwnStep.later hfrom hto hpage hmem
    rw [hpoint]
    cases hgoes with
    | restart => exact absurd rfl hchecked
    | mapProgPage =>
      refine ⟨hcurr, hcreates rfl, hentry, nofun, OwnStep.map hq hpoint ?_ rfl⟩
      unfold creates
      rw [hx, weight_some, hq]
      rfl
    | loadEnd v => exact ⟨hcurr, hcreates rfl, hentry, nofun, hlater (Or.inl rfl) (Or.inr ⟨rfl, rfl⟩) rfl rfl⟩
    | load v b bytes a ha => exact ⟨hcurr, hcreates rfl, hentry, nofun, OwnStep.load v b bytes a hq ha hpoint rfl rfl⟩
    | pcbInit =>
      rw [pcbInit_eq] at hcreates hlater ⊢
      exact ⟨rfl, hcreates rfl, hentry, nofun, hlater (Or.inl rfl) (Or.inr ⟨rfl, rfl⟩) rfl rfl⟩
    | setShellFlag a => exact ⟨hcurr, hcreates rfl, hentry, nofun, hlater (Or.inl rfl) (Or.inr ⟨rfl, rfl⟩) rfl rfl⟩
    | setCurrPcb a kb => exact ⟨hcurr, hcreates rfl, hentry, nofun, hlater (Or.inl rfl) (Or.inl rfl) rfl rfl⟩
    | incrNextPId kb =>
      refine ⟨hcurr, hcreates ?_, hentry, nofun, hlater (Or.inr rfl) (Or.inl rfl) rfl rfl⟩
      have hself : (incrNextPId s.kernel).nextPId s.kernel.currTerm = s.kernel.nextPId s.kernel.currTerm + 1 :=
        Function.update_self _ _ _
      rw [hself]
      rfl
    | setESP0 kb =>
      obtain ⟨pcbs, he⟩ := setESP0_eq s.kernel kb
      rw [he] at hcreates hlater ⊢
      exact ⟨rfl, hcreates rfl, hentry, nofun, hlater (Or.inr rfl) (Or.inl rfl) rfl rfl⟩
    | _ => exact ⟨hcurr, hcreates rfl, hentry, nofun, hlater (Or.inr rfl) (Or.inl rfl) rfl rfl⟩
  · dsimp only at hx'
    rw [Function.update_self] at hx'
    cases hx'

/-! ### The video pages -/

/-- The video pages lie below the program pages. -/
def LowVideo (k : Kernel) : Prop := ∀ i, (k.videoTable i).base + hex4KB ≤ mb8

variable {k k' : Kernel} {r : Residue}

/-- The video table is all the predicate reads. -/
theorem lowVideo_congr (h : LowVideo k) (ht : k'.videoTable = k.videoTable) : LowVideo k' := by
  unfold LowVideo
  rw [ht]
  exact h

/-- `execute_func` leaves the video table. -/
theorem executeFunc_videoTable (img : Image) (k : Kernel) (command : CPtr) (r : Residue) :
    (executeFunc img k command r).kernel.videoTable = k.videoTable := by
  rcases executeFunc_cases img k command r with ⟨message, -, he⟩ | ⟨d, m, -, -, he | he⟩
  · rw [he]
    rfl
  · rw [he]
    rfl
  · rw [he, ExecOut.kernel, startProgram_eq]
    rfl

/-- So does `do_switch`. -/
theorem doSwitch_videoTable {dest : Term} (hs : doSwitch img k dest r = .ok k') : k'.videoTable = k.videoTable := by
  obtain ⟨-, ⟨b, -, rfl⟩ | ⟨-, he⟩⟩ := doSwitch_tops hs
  · rfl
  · have htable := executeFunc_videoTable img { switched k dest none with switchLock := false } shellCommand r
    rw [he] at htable
    exact htable

/-- The switch of the display maps video memory or a buffer, both low. -/
theorem lowVideo_displaying (h : LowVideo k) (dest : Term) : LowVideo (displaying k dest) := by
  have hvideo : ∀ t : Term, videoBuffer t + hex4KB ≤ mb8 := by decide
  unfold displaying switchVidmap switchVidmem
  intro i
  dsimp only
  by_cases hd : i = dest.val
  · rw [hd, Function.update_self]
    decide
  · rw [Function.update_of_ne hd]
    by_cases hc : i = k.dispTerm.val
    · rw [hc, Function.update_self]
      exact hvideo _
    · rw [Function.update_of_ne hc]
      exact h i

/-- `switch_terminals` keeps the video table low. -/
theorem lowVideo_switchTerminals (h : LowVideo k) {dest : Nat} (hs : switchTerminals img k dest r = .ok k') : LowVideo k' := by
  rcases switchTerminals_ok hs with rfl | ⟨d, k₁, -, -, -, rfl, ⟨-, hk⟩ | ⟨-, rfl⟩⟩
  · exact h
  · have h₁ := lowVideo_congr (lowVideo_displaying h d) (doSwitch_videoTable hk)
    exact h₁
  · exact lowVideo_displaying h d

/-- Stores of the program loaded go to memory, not to the tables. -/
theorem storeBytes_videoTable {v : Nat} {bytes : List UInt8} (hs : storeBytes k v bytes = .ok k') : k'.videoTable = k.videoTable := by
  obtain ⟨m, hm⟩ := storeBytes_state bytes k v
  rw [hs, Outcome.state_ok] at hm
  rw [hm]

/-- `vidmap` maps video memory or a buffer, both low. -/
theorem lowVideo_vidmap (h : LowVideo k) {screenStart : Nat} (hs : (vidmapFunc k screenStart).2 = .ok k') : LowVideo k' := by
  unfold vidmapFunc at hs
  split at hs
  · rw [Outcome.ok.injEq] at hs
    exact hs ▸ h
  · dsimp only at hs
    have htable := storeBytes_videoTable hs
    dsimp only at htable
    intro i
    rw [htable]
    by_cases hi : i = k.currTerm.val
    · rw [hi, Function.update_self]
      exact h _
    · rw [Function.update_of_ne hi]
      exact h i

/-- A message leaves the video table. -/
theorem print_videoTable (k : Kernel) (message : String) : (k.print message).videoTable = k.videoTable := rfl

/-- `halt_func` leaves the video table. -/
theorem haltFunc_videoTable (status : UInt8) (hs : haltFunc img k status r = .ok k') : k'.videoTable = k.videoTable := by
  unfold haltFunc at hs
  dsimp only at hs
  split at hs
  · cases hs
  · split at hs
    · rcases outcome_eq_ok hs with he | ⟨k₁, -, hk⟩
      · have htable := congrArg (fun o => (ExecOut.kernel o).videoTable) he
        rw [executeFunc_videoTable, print_videoTable] at htable
        exact htable.symm
      · cases hk
    · rw [Outcome.ok.injEq] at hs
      rw [← hs]
      rfl

/-- The steps of the kernel keep the video pages low. -/
theorem lowVideo_step (h : LowVideo k) {e : Event} (hs : step img k e = .ok k') : LowVideo k' := by
  cases e with
  | execute command r =>
    have htable := executeFunc_videoTable img k command r
    rcases outcome_eq_ok hs with he | ⟨k₁, he, hk⟩
    · rw [he] at htable
      exact lowVideo_congr h htable
    · rw [Outcome.ok.injEq] at hk
      rw [he] at htable
      exact hk ▸ lowVideo_congr h htable
  | halt status r =>
    exact lowVideo_congr h (haltFunc_videoTable status hs)
  | schedule newTerm r =>
    rcases schedule_ok hs with rfl | ⟨k₁, -, -, rfl, hk⟩
    · exact h
    · have hlock : LowVideo { k with switchLock := true } := h
      have h₁ := lowVideo_congr hlock (doSwitch_videoTable hk)
      exact h₁
  | switchTerminals dest r => exact lowVideo_switchTerminals h hs
  | key scancode r =>
    rw [step, getCKeyboard_eq] at hs
    have hkeyed : LowVideo (keyed k scancode) := h
    split at hs
    · exact lowVideo_switchTerminals hkeyed hs
    · rw [Outcome.ok.injEq] at hs
      exact hs ▸ hkeyed
  | readCopy nbytes =>
    rw [step] at hs
    split at hs
    · rw [Outcome.ok.injEq] at hs
      exact hs ▸ h
    · rw [Outcome.ok.injEq] at hs
      exact hs ▸ h
  | vidmap screenStart => exact lowVideo_vidmap h hs
  | _ =>
    rw [step, Outcome.ok.injEq] at hs
    exact hs ▸ h

/-- So does the beginning of an `execute_func`. -/
theorem lowVideo_begin (h : LowVideo s.kernel) {command : CPtr} {f : Machine → Outcome Stop Machine}
    (hf : ∀ s₁, f s₁ = .ok s' → s' = s₁) (hs : beginExecute img s command r f = .ok s') : LowVideo s'.kernel := by
  unfold beginExecute at hs
  dsimp only at hs
  split at hs
  · rw [hf _ hs]
    exact h
  · rw [Outcome.ok.injEq] at hs
    exact hs ▸ h

/-- A step of a call keeps the video table low. -/
theorem lowVideo_advance (h : LowVideo s.kernel) (hs : advance img s x = .ok s') : LowVideo s'.kernel := by
  rcases advance_goes hs with ⟨k, p, hgoes, rfl⟩ | ⟨-, rfl⟩
  · exact lowVideo_congr h (goes_frame hgoes).2.1
  · exact h

/-- Every move keeps the video table low. -/
theorem lowVideo_moveStep (h : LowVideo s.kernel) (hs : moveStep img s m = .ok s') : LowVideo s'.kernel := by
  have hkernel : ∀ e, kernelStep img s e = .ok s' → LowVideo s'.kernel := by
    intro e he
    unfold kernelStep at he
    rw [Outcome.map_eq_ok] at he
    obtain ⟨k₁, hk, rfl⟩ := he
    exact lowVideo_step h hk
  cases m with
  | advance =>
    rw [moveStep] at hs
    split at hs
    · rw [Outcome.ok.injEq] at hs
      exact hs ▸ h
    · exact lowVideo_advance h hs
  | restart r =>
    rw [moveStep] at hs
    split at hs
    · rw [Outcome.ok.injEq] at hs
      exact hs ▸ h
    · split at hs
      · obtain ⟨k, -, -, -, htable, rfl | ⟨d, z, -, -, rfl⟩⟩ := restartStep_ok hs
        · exact lowVideo_congr h htable
        · exact lowVideo_congr h htable
      · rw [Outcome.ok.injEq] at hs
        exact hs ▸ h
  | event e =>
    unfold moveStep at hs
    dsimp only at hs
    split at hs
    · rw [Outcome.ok.injEq] at hs
      exact hs ▸ h
    · cases e with
      | execute command r => exact lowVideo_begin h (fun s₁ he => (Outcome.ok.inj he).symm) hs
      | halt status r =>
        unfold haltStep at hs
        dsimp only at hs
        split at hs
        · exact hkernel _ hs
        · split at hs
          · rw [Outcome.ok.injEq] at hs
            exact hs ▸ h
          · exact hkernel _ hs
      | _ => exact hkernel _ hs

/-- The video table is low at boot. -/
theorem lowVideo_boot (m : CPtr) (p : Addr → PCB) : LowVideo (Machine.boot m p).kernel := by
  intro i
  unfold Machine.boot boot
  dsimp only
  split
  · decide
  · decide

/-! ### Runs -/

/-- What holds along a run while the call on terminal `t` that creates process `p` from the file `d` is under way. -/
structure Along (t : Term) (p : Nat) (d : Dentry) (s : Machine) : Prop where
  inv : MachineInv s
  video : LowVideo s.kernel
  call : ∀ x, s.execs t = some x → creates s t = p ∧ x.fileEntry = d ∧ x.point ≠ .restart

/-- While it runs, terminal `t` has the page of process `q` mapped. -/
def Maps (s : Machine) (t : Term) (q : Nat) : Prop := s.kernel.currTerm = t → s.kernel.pdProg = progEntry q t

/-- A step of the machine, seen from the call on terminal `t` that creates process `p`: a step of the call, a tick that comes back
to it, or anything else. A tick maps the new process's page once that is current, its parent's before. -/
inductive CallStep (img : Image) (t : Term) (p : Nat) (s s' : Machine) (m : Move) (x x' : Exec) : Prop
  | own (ha : Advances s.kernel m t) (hcurr : s'.kernel.currTerm = t) (hown : OwnStep img s s' x x')
  | resumed (hr : Resumes s.kernel m t) (hx : x' = x) (hcommitted : x.point.phase = .committed → s'.kernel.pdProg = progEntry p t)
      (hbefore : x.point.phase ≠ .committed → s'.kernel.pdProg = progEntry (p - 1) t)
  | spared (hr : ¬Resumes s.kernel m t) (hx : x' = x)
      (hpage : s'.kernel.currTerm = t → s.kernel.currTerm = t ∧ s'.kernel.pdProg = s.kernel.pdProg)

/-- The page a switch back to the terminal maps. -/
theorem resumed_page (x : Exec) {n : Nat} (hchecked : x.point ≠ .restart)
    (hp : n + weight Point.uncounted (some x) - 1 = p) :
    (x.point.phase = .committed → n + x.point.pushed - 1 = p) ∧ (x.point.phase ≠ .committed → n + x.point.pushed - 1 = p - 1) := by
  rw [weight_some] at hp
  subst hp
  revert hchecked
  cases x.point with
  | restart => exact fun hchecked => absurd rfl hchecked
  | load v bytes => cases bytes <;> simp [Point.phase, Point.pushed, Point.uncounted]
  | _ => simp [Point.phase, Point.pushed, Point.uncounted]

/-- A move that is a step of a terminal's call is no resumption of it. -/
theorem not_resumes_of_advances (h : Advances s.kernel m t) : ¬Resumes s.kernel m t := by
  rintro ⟨r, he, -⟩
  rw [h.1] at he
  cases he

/-- The step lemma of every fact below. -/
theorem callStep_of_move (h : Along t p d s) (hx : s.execs t = some x) (hs : moveStep img s m = .ok s') :
    Along t p d s' ∧ ∀ x', s'.execs t = some x' → CallStep img t p s s' m x x' := by
  obtain ⟨hinv, hmove⟩ := machineInv_moveStep h.inv hs
  obtain ⟨hres, hspare⟩ := hmove t (by rw [hx]; exact fun hnone => by cases hnone)
  obtain ⟨hp, hd, hchecked⟩ := h.call x hx
  have hcall : ∀ x', s'.execs t = some x' →
      creates s' t = creates s t ∧ x'.fileEntry = x.fileEntry ∧ x'.point ≠ .restart ∧ CallStep img t p s s' m x x' := by
    intro x' hx'
    by_cases hadv : Advances s.kernel m t
    · obtain ⟨rfl, hcurr⟩ := hadv
      subst hcurr
      rw [moveStep, hx] at hs
      obtain ⟨hcurr, hcreates, hentry, hpoint, hown⟩ := ownStep_of_advance hx hchecked hs hx'
      exact ⟨hcreates, hentry, hpoint, CallStep.own ⟨rfl, rfl⟩ hcurr hown⟩
    · by_cases hr : Resumes s.kernel m t
      · obtain ⟨hexec, hnext, -, hpage⟩ := hres hr
        rw [hx', hx, Option.some.injEq] at hexec
        rw [hx, weight_some] at hpage
        rw [creates, hx] at hp
        obtain ⟨hcommitted, hbefore⟩ := resumed_page x hchecked hp
        refine ⟨?_, by rw [hexec], by rw [hexec]; exact hchecked, CallStep.resumed hr hexec (fun hph => ?_) (fun hph => ?_)⟩
        · rw [creates, creates, hnext, hx', hx, hexec]
        · rw [hpage, hcommitted hph]
        · rw [hpage, hbefore hph]
      · obtain ⟨hexec, hnext, hpage⟩ : Spares s s' t := by
          by_cases hturn : Turns s.kernel m t
          · -- the checks of this call have passed: no loop waits for it
            obtain ⟨⟨r, rfl⟩, hcurr⟩ := hturn
            rw [moveStep, hcurr, hx] at hs
            dsimp only at hs
            rw [if_neg hchecked, Outcome.ok.injEq] at hs
            subst hs
            exact ⟨rfl, rfl, fun he => ⟨he, rfl⟩⟩
          · exact hspare hr hadv hturn
        rw [hx', hx, Option.some.injEq] at hexec
        refine ⟨?_, by rw [hexec], by rw [hexec]; exact hchecked, CallStep.spared hr hexec hpage⟩
        rw [creates, creates, hnext, hx', hx, hexec]
  refine ⟨⟨hinv, lowVideo_moveStep h.video hs, fun x' hx' => ?_⟩, fun x' hx' => (hcall x' hx').2.2.2⟩
  obtain ⟨hcreates, hentry, hpoint, -⟩ := hcall x' hx'
  exact ⟨hcreates.trans hp, hentry.trans hd, hpoint⟩

/-- `Q` holds of the call on terminal `t` as long as it is under way. -/
def Carried (t : Term) (p : Nat) (d : Dentry) (Q : Machine → Exec → Prop) (s : Machine) : Prop :=
  Along t p d s ∧ ∀ x, s.execs t = some x → Q s x

/-- What every step, seen from the call, preserves is carried along. -/
theorem carried_step {Q : Machine → Exec → Prop} {G : Machine → Move → Prop}
    (hQ : ∀ s m s' x x', Along t p d s → s.execs t = some x → G s m → Q s x → CallStep img t p s s' m x x' → Q s' x') :
    ∀ s m s', Carried t p d Q s → UnderWay t s m ∧ G s m → moveStep img s m = .ok s' → Carried t p d Q s' := by
  intro s m s' ⟨h, hq⟩ ⟨hu, hg⟩ hs
  obtain ⟨x, hx⟩ := Option.ne_none_iff_exists'.mp hu
  obtain ⟨h', hstep⟩ := callStep_of_move h hx hs
  exact ⟨h', fun x' hx' => hQ s m s' x x' h hx hg (hq x hx) (hstep x' hx')⟩

/-- A call with bytes left to store is loading. -/
theorem phase_load_cons {v : Nat} {b : UInt8} {bytes : List UInt8} (h : x.point = .load v (b :: bytes)) : x.point.phase = .loading := by
  rw [h]
  rfl

/-- A page mapped stays mapped by a move of another terminal. -/
theorem Maps.spared (h : Maps s t q) (hpage : s'.kernel.currTerm = t → s.kernel.currTerm = t ∧ s'.kernel.pdProg = s.kernel.pdProg) :
    Maps s' t q := by
  intro hcurr'
  obtain ⟨hcurr, he⟩ := hpage hcurr'
  rw [he, h hcurr]

/-- A page mapped stays mapped by a step that leaves the entry of the directory. -/
theorem Maps.own (h : Maps s t q) (ha : Advances s.kernel m t) (he : s'.kernel.pdProg = s.kernel.pdProg) : Maps s' t q :=
  h.spared (fun _ => ⟨ha.2, he⟩)

/-- The step that maps the page maps the page of the child. -/
theorem maps_of_map (h : Along t p d s) (hx : s.execs t = some x) (ha : Advances s.kernel m t)
    (hpage : s'.kernel.pdProg = progEntry (creates s s.kernel.currTerm) s.kernel.currTerm) : Maps s' t p := by
  intro _
  rw [hpage, ha.2, (h.call x hx).1]

end LoadStepsAux

end ThreeTermOS
