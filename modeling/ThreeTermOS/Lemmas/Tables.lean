import ThreeTermOS.Lemmas.Launch
import ThreeTermOS.Lemmas.Moves

/-!
# What a move does to the process tables

Every move leaves the counters and the calls under way alone, or takes one step of the running terminal's `execute_func`, or begins
one, or ends a process, or puts a shell in the place of the one that ended, or launches a shell on a terminal that has none. `TableStep`
lists these ways with all that each changes, so that facts about the counters and the process control blocks need no other look at the
kernel.
-/

namespace ThreeTermOS

open Bytes Chain Runs

/-- Every process control block has the arguments it had. -/
def SameArgs (k k' : Kernel) : Prop := ∀ a, (k'.pcbs a).args = (k.pcbs a).args

/-- The new process control block is still to be filled in. -/
def Point.unfilled : Point → Bool
  | .restart => true
  | .mapProgPage => true
  | .load _ _ => true
  | .pcbInit => true
  | _ => false

/-- 1 from the check of `execute_func` until `next_pid` is incremented. -/
def Point.launching : Point → Nat
  | .restart => 0
  | p => p.uncounted

/-- A shell being launched is a process not counted yet. -/
theorem Point.launching_le (p : Point) : p.launching ≤ p.uncounted := by
  cases p with
  | restart => exact Nat.zero_le 1
  | _ => exact Nat.le_refl _

/-- The move asks for a switch to a terminal that has no program, and `execute_func` does not refuse it a shell. -/
def OpensShell (img : Image) (k : Kernel) (m : Move) (dest : Term) : Prop :=
  ∃ e r, m = .event e ∧ switchRequest k e = some (dest.val, r) ∧ k.dispTerm ≠ dest ∧ k.switchLock = false ∧
    k.activeProgs dest = none ∧ ¬ShellRefused img k r

/-- The ways of a move. -/
inductive TableStep (img : Image) (s s' : Machine) : Move → Prop where
  | keep (m : Move) (next : s'.kernel.nextPId = s.kernel.nextPId) (total : s'.kernel.totalProgs = s.kernel.totalProgs)
      (execs : s'.execs = s.execs) (args : SameArgs s.kernel s'.kernel)
      (retval : s'.kernel.haltRetval = s.kernel.haltRetval) : TableStep img s s' m
  | advance (y : Exec) (under : s.execs s.kernel.currTerm = some y) (hs : advance img s y = .ok s') :
      TableStep img s s' .advance
  | begin (command : CPtr) (r : Residue) (d : Dentry) (idle : s.execs s.kernel.currTerm = none)
      (check : checkExecute img s.kernel (getArgsFname command r).1 r = .ok d)
      (kernel : s'.kernel = s.kernel)
      (execs : s'.execs = Function.update s.execs s.kernel.currTerm
        (some ⟨(getArgsFname command r).1, (getArgsFname command r).2, d, .mapProgPage⟩)) :
      TableStep img s s' (.event (.execute command r))
  | pop (status : UInt8) (r : Residue) (n : Nat) (idle : s.execs s.kernel.currTerm = none)
      (top : s.kernel.currPcbPtr = some (pcbAt s.kernel.currTerm (n + 1)))
      (two : s.kernel.nextPId s.kernel.currTerm = n + 2)
      (next : s'.kernel.nextPId = Function.update s.kernel.nextPId s.kernel.currTerm (n + 1))
      (total : s'.kernel.totalProgs = s.kernel.totalProgs - 1) (execs : s'.execs = s.execs)
      (args : SameArgs s.kernel s'.kernel)
      (retval : s'.kernel.haltRetval = Function.update s.kernel.haltRetval s.kernel.currTerm 0) :
      TableStep img s s' (.event (.halt status r))
  | restart (status : UInt8) (r : Residue) (x : Exec) (idle : s.execs s.kernel.currTerm = none)
      (top : s.kernel.currPcbPtr = some (pcbAt s.kernel.currTerm 0))
      (one : s.kernel.nextPId s.kernel.currTerm = 1)
      (next : s'.kernel.nextPId = Function.update s.kernel.nextPId s.kernel.currTerm 0)
      (total : s'.kernel.totalProgs = s.kernel.totalProgs - 1)
      (execs : s'.execs = Function.update s.execs s.kernel.currTerm (some x)) (point : x.point = .restart)
      (args : SameArgs s.kernel s'.kernel) (retval : s'.kernel.haltRetval = s.kernel.haltRetval) :
      TableStep img s s' (.event (.halt status r))
  | again (r : Residue) (y x : Exec) (d : Dentry) (under : s.execs s.kernel.currTerm = some y) (waits : y.point = .restart)
      (check : checkExecute img s.kernel (getArgsFname shellCommand r).1 r = .ok d)
      (next : s'.kernel.nextPId = s.kernel.nextPId) (total : s'.kernel.totalProgs = s.kernel.totalProgs)
      (execs : s'.execs = Function.update s.execs s.kernel.currTerm (some x)) (point : x.point = .mapProgPage)
      (args : SameArgs s.kernel s'.kernel) (retval : s'.kernel.haltRetval = s.kernel.haltRetval) :
      TableStep img s s' (.restart r)
  | launch (m : Move) (dest : Term) (opens : OpensShell img s.kernel m dest) (unused : s.kernel.nextPId dest = 0)
      (idle : s.execs dest = none)
      (next : s'.kernel.nextPId = Function.update s.kernel.nextPId dest 1)
      (total : s'.kernel.totalProgs = s.kernel.totalProgs + 1) (execs : s'.execs = s.execs)
      (args : ∀ a, a ≠ pcbAt dest 0 → (s'.kernel.pcbs a).args = (s.kernel.pcbs a).args)
      (retval : s'.kernel.haltRetval = Function.update s.kernel.haltRetval dest 0) : TableStep img s s' m

namespace TablesAux

open ProcessAux VideoMapAux LaunchAux PreemptionAux

variable {s s' : Machine} {k k' : Kernel} {img : Image} {r : Residue} {m : Move} {u : Term}

/-- The arguments of a kernel are its own. -/
theorem SameArgs.refl (k : Kernel) : SameArgs k k := fun _ => rfl

/-- Blocks that stay keep their arguments. -/
theorem sameArgs_of_pcbs (h : k'.pcbs = k.pcbs) : SameArgs k k' := fun a => by rw [h]

/-- A change that leaves the process tables. -/
theorem keep_sameProcs (m : Move) (h : SameProcs s.kernel k') (hret : k'.haltRetval = s.kernel.haltRetval) :
    TableStep img s { s with kernel := k' } m :=
  .keep m h.nextPId h.totalProgs rfl (sameArgs_of_pcbs h.pcbs) hret

/-- A move that changes nothing. -/
theorem keep_refl (m : Move) : TableStep img s s m := .keep m rfl rfl rfl (SameArgs.refl _) rfl

/-- A call begins, or is refused. -/
theorem tableStep_begin {command : CPtr} (hx : s.execs s.kernel.currTerm = none)
    (hs : beginExecute img s command r .ok = .ok s') : TableStep img s s' (.event (.execute command r)) := by
  unfold beginExecute at hs
  dsimp only at hs
  split at hs
  · rw [Outcome.ok.injEq] at hs
    subst hs
    exact keep_sameProcs _ (sameProcs_print s.kernel _) (haltRetval_print _ _)
  · rename_i d hcheck
    rw [Outcome.ok.injEq] at hs
    subst hs
    exact .begin command r d hx hcheck rfl rfl

/-- `halt_func` of a process with a parent leaves every argument string. -/
theorem sameArgs_halt {a b : Addr} (hc : k.currPcbPtr = some a) (hp : (k.pcbs a).parent = some b) {status : UInt8}
    (hs : haltFunc img k status r = .ok k') : SameArgs k k' := by
  unfold haltFunc at hs
  simp only [hc, hp, Outcome.ok.injEq] at hs
  subst hs
  intro c
  simp only [clearRetval, setTss, Kernel.modifyPCB, rtcDefaultRate, getParentPCB, swapPages]
  by_cases hcb : c = b
  · rw [hcb, Function.update_self]
  · rw [Function.update_of_ne hcb]

/-- `halt_func` of a process with a parent goes as far as the clearing of `halt_retval` in the parent's `execute_func`. -/
theorem haltRetval_halt {a b : Addr} (hc : k.currPcbPtr = some a) (hp : (k.pcbs a).parent = some b) {status : UInt8}
    (hs : haltFunc img k status r = .ok k') : k'.haltRetval = Function.update k.haltRetval k.currTerm 0 := by
  unfold haltFunc at hs
  simp only [hc, hp, Outcome.ok.injEq] at hs
  subst hs
  rfl

/-- A program halts: its process is popped, or a shell is to take its place. -/
theorem tableStep_halt (h : MachineInv s) (hx : s.execs s.kernel.currTerm = none) {status : UInt8}
    (hs : haltStep img s status r = .ok s') : TableStep img s s' (.event (.halt status r)) := by
  rcases haltStep_ok h hx hs with ⟨hone, htop, z, hz, rfl⟩ | ⟨n, k₁, hn, htop, hparent, hk, rfl⟩
  · have hnext : (decremented s.kernel).nextPId = Function.update s.kernel.nextPId s.kernel.currTerm 0 := by
      unfold decremented
      dsimp only
      rw [hone]
    exact .restart status r z hx htop hone hnext rfl rfl hz (SameArgs.refl _) rfl
  · obtain ⟨k₂, hk₂, -, -, -, -, htotal, hnext, -⟩ := haltFunc_parent img r htop hparent status
    rw [hk, Outcome.ok.injEq] at hk₂
    subst hk₂
    rw [hn, Nat.add_sub_cancel] at hnext
    exact .pop status r n hx htop hn hnext htotal rfl (sameArgs_halt htop hparent hk) (haltRetval_halt htop hparent hk)

/-- The shell in the place of a process that has ended is refused, or about to be loaded. -/
theorem tableStep_restart {y : Exec} (hx : s.execs s.kernel.currTerm = some y) (hp : y.point = .restart)
    (hs : restartStep img s r = .ok s') : TableStep img s s' (.restart r) := by
  obtain ⟨k, hprocs, -, hret, -, rfl | ⟨d, z, hcheck, hz, rfl⟩⟩ := restartStep_ok hs
  · exact keep_sameProcs _ hprocs hret
  · exact .again r y z d hx hp hcheck hprocs.nextPId hprocs.totalProgs rfl hz (sameArgs_of_pcbs hprocs.pcbs) hret

/-- A switch to a terminal with a program moves no counter. -/
theorem keep_schedule {dest : Term} (m : Move) (hs : schedule img s.kernel dest r = .ok k') :
    TableStep img s { s with kernel := k' } m := by
  rcases schedule_ok hs with rfl | ⟨k₁, hact, -, rfl, hk⟩
  · exact keep_refl m
  · obtain ⟨hrun, ⟨b, hb, rfl⟩ | ⟨hb, -⟩⟩ := doSwitch_tops hk
    · exact .keep m rfl rfl rfl (SameArgs.refl _) rfl
    · exact absurd hb (topPtr_of_tick hrun hact)

/-- A launch clears the cell of the new process's terminal. -/
theorem haltRetval_launched {dest : Term}
    (he : executeFunc img { switched k dest none with switchLock := false } shellCommand r = .started k') :
    k'.haltRetval = Function.update k.haltRetval dest 0 := by
  obtain ⟨d, m, -, rfl⟩ := started_eq he
  rw [startProgram_eq]
  rfl

/-- A shell is launched on a terminal that has no program. -/
theorem launch_doSwitch {e : Event} {dest : Term} (h : MachineInv s) (hsame : SameProcs s.kernel k)
    (hret : k.haltRetval = s.kernel.haltRetval)
    (hreq : switchRequest s.kernel e = some (dest.val, r)) (hne : s.kernel.dispTerm ≠ dest) (hlock : s.kernel.switchLock = false)
    (hact : s.kernel.activeProgs dest = none) (hs : doSwitch img k dest r = .ok k') :
    TableStep img s { s with kernel := { k' with switchLock := false } } (.event e) := by
  -- the terminal that runs is not the one without a program
  have hdc : dest ≠ s.kernel.currTerm := by
    rintro rfl
    exact hne (h.idle hact).1
  have hb : topPtr k dest = none := by
    rw [topPtr_sameProcs hsame, topPtr_of_ne hdc]
    exact hact
  have hdest := h.terms dest
  rw [topPtr_of_ne hdc, hact] at hdest
  have hzero := termOk_of_none hdest
  obtain ⟨-, ⟨b, htop, -⟩ | ⟨-, he⟩⟩ := doSwitch_tops hs
  · rw [hb] at htop
    cases htop
  · obtain ⟨-, -, hnext, htotal, -, -, -, hother⟩ := launched_eq (by rw [hsame.nextPId, hzero]) he
    have hshell : ¬ShellRefused img s.kernel r := by
      intro hrefused
      unfold ShellRefused at hrefused
      rw [← hsame.totalProgs] at hrefused
      obtain ⟨message, hm⟩ := executeShell_refused (k := { switched k dest none with switchLock := false }) hrefused
      rw [hm] at he
      cases he
    rw [hsame.nextPId] at hnext
    rw [hsame.totalProgs] at htotal
    refine .launch _ dest ⟨e, r, rfl, hreq, hne, hlock, hact, hshell⟩ hzero (h.away dest hdc hact) hnext htotal rfl (fun a ha => ?_) ?_
    · dsimp only
      rw [hother a ha, hsame.pcbs]
    · have hcell := haltRetval_launched he
      rw [hret] at hcell
      exact hcell

/-- The display leaves the return value of the last program. -/
theorem haltRetval_displaying (k : Kernel) (dest : Term) : (displaying k dest).haltRetval = k.haltRetval := by
  unfold displaying switchVidmap switchVidmem
  dsimp only

/-- A key leaves it. -/
theorem haltRetval_keyed (k : Kernel) (scancode : UInt8) : (keyed k scancode).haltRetval = k.haltRetval := by
  unfold keyed
  dsimp only

/-- A switch of terminals, in the kernel as a key may have left it. -/
theorem tableStep_switchTerminals {e : Event} {dest : Nat} (h : MachineInv s) (hsame : SameProcs s.kernel k)
    (hdisp : k.dispTerm = s.kernel.dispTerm) (hlock : k.switchLock = s.kernel.switchLock)
    (hret : k.haltRetval = s.kernel.haltRetval) (hreq : switchRequest s.kernel e = some (dest, r)) (hs : switchTerminals img k dest r = .ok k') :
    TableStep img s { s with kernel := k' } (.event e) := by
  rcases switchTerminals_ok hs with rfl | ⟨d, k₁, rfl, hne, hfree, rfl, ⟨hact, hk⟩ | ⟨-, rfl⟩⟩
  · exact keep_sameProcs _ hsame hret
  · rw [hdisp] at hne
    rw [hlock] at hfree
    rw [hsame.activeProgs] at hact
    exact launch_doSwitch h (SameProcs.trans hsame (sameProcs_displaying k d)) ((haltRetval_displaying k d).trans hret) hreq hne
      hfree hact hk
  · have hshown := SameProcs.trans hsame (sameProcs_displaying k d)
    exact keep_sameProcs _ (SameProcs.trans hshown (sameProcs_lock (displaying k d) false)) ((haltRetval_displaying k d).trans hret)

/-- Events of the kernel other than launches by the program and halts. -/
theorem tableStep_kernelStep (h : MachineInv s) {e : Event} (hexec : ∀ c r, e ≠ .execute c r)
    (hhalt : ∀ b r, e ≠ .halt b r) (hs : kernelStep img s e = .ok s') : TableStep img s s' (.event e) := by
  unfold kernelStep at hs
  rw [Outcome.map_eq_ok] at hs
  obtain ⟨k₁, hk, rfl⟩ := hs
  cases e with
  | execute command r => exact absurd rfl (hexec command r)
  | halt status r => exact absurd rfl (hhalt status r)
  | schedule newTerm r => exact keep_schedule _ hk
  | switchTerminals dest r => exact tableStep_switchTerminals h (SameProcs.refl _) rfl rfl rfl rfl hk
  | key scancode r =>
    have hsame := sameProcs_keyed s.kernel scancode
    rw [step, getCKeyboard_eq] at hk
    split at hk
    · rename_i hkeys
      exact tableStep_switchTerminals h hsame (keepsVideo_keyed s.kernel scancode).disp rfl (haltRetval_keyed _ _)
        (if_pos hkeys) hk
    · rw [Outcome.ok.injEq] at hk
      subst hk
      exact keep_sameProcs _ hsame (haltRetval_keyed _ _)
  | vidmap screenStart =>
    obtain ⟨m, table, rfl⟩ := vidmapFunc_eq hk
    exact .keep _ rfl rfl rfl (SameArgs.refl _) rfl
  | readCopy nbytes =>
    rw [step] at hk
    split at hk
    · rw [Outcome.ok.injEq] at hk
      subst hk
      exact .keep _ rfl rfl rfl (SameArgs.refl _) rfl
    · rw [Outcome.ok.injEq] at hk
      subst hk
      exact keep_refl _
  | _ =>
    rw [step, Outcome.ok.injEq] at hk
    subst hk
    exact .keep _ rfl rfl rfl (SameArgs.refl _) rfl

/-- Every move is one of the ways. -/
theorem tableStep_moveStep (h : MachineInv s) {m : Move} (hs : moveStep img s m = .ok s') : TableStep img s s' m := by
  cases m with
  | advance =>
    rw [moveStep] at hs
    split at hs
    · rw [Outcome.ok.injEq] at hs
      subst hs
      exact keep_refl _
    · rename_i y hy
      exact .advance y hy hs
  | restart r =>
    have hsame : s' = s → TableStep img s s' (.restart r) := by
      rintro rfl
      exact keep_refl _
    rw [moveStep] at hs
    split at hs
    · exact hsame (Outcome.ok.inj hs).symm
    · rename_i y hy
      split at hs
      · rename_i hp
        exact tableStep_restart hy hp hs
      · exact hsame (Outcome.ok.inj hs).symm
  | event e =>
    unfold moveStep at hs
    dsimp only at hs
    split at hs
    · rw [Outcome.ok.injEq] at hs
      subst hs
      exact keep_refl _
    · rename_i hcall
      have hidle : e.isCall = true → s.execs s.kernel.currTerm = none :=
        fun he => Option.not_isSome_iff_eq_none.mp (fun hx => hcall ⟨he, hx⟩)
      cases e with
      | execute command r => exact tableStep_begin (hidle rfl) hs
      | halt status r => exact tableStep_halt h (hidle rfl) hs
      | _ => exact tableStep_kernelStep h (fun _ _ he => by cases he) (fun _ _ he => by cases he) hs

/-! ### A step of execute_func -/

/-- A change of a block that leaves its arguments. -/
theorem sameArgs_modifyPCB (k : Kernel) (a : Addr) {f : PCB → PCB} (hf : ∀ p, (f p).args = p.args) :
    SameArgs k (k.modifyPCB a f) := by
  intro b
  unfold Kernel.modifyPCB
  dsimp only
  by_cases hb : b = a
  · rw [hb, Function.update_self, hf]
  · rw [Function.update_of_ne hb]

/-- `set_ESP0` leaves the arguments. -/
theorem sameArgs_setESP0 (k : Kernel) (kb : Nat) : SameArgs k (setESP0 k kb) := by
  unfold setESP0
  split
  · exact SameArgs.refl _
  · exact sameArgs_modifyPCB _ _ (fun _ => rfl)

/-- A step of `execute_func` fills in the new process control block, or counts the new process, or leaves for the program; any other
leaves both to do as they were. -/
theorem advance_cases {y : Exec} (hs : advance img s y = .ok s') :
    (∃ k p, s' = s.goto y k p ∧ k.nextPId = s.kernel.nextPId ∧ SameArgs s.kernel k ∧
        p.uncounted = y.point.uncounted ∧ p.launching = y.point.launching ∧ p.unfilled = y.point.unfilled) ∨
      (y.point = .pcbInit ∧ s' = s.goto y
        (pcbInit img s.kernel (pcbAt s.kernel.currTerm (s.kernel.nextPId s.kernel.currTerm)) y.args y.fileEntry)
        (.setShellFlag (pcbAt s.kernel.currTerm (s.kernel.nextPId s.kernel.currTerm)))) ∨
      (∃ kb, y.point = .incrNextPId kb ∧ s' = s.goto y (incrNextPId s.kernel) (.setActive kb)) ∨
      (y.point = .iret ∧ s' = { s with execs := Function.update s.execs s.kernel.currTerm none }) := by
  rcases advance_goes hs with ⟨k, p, hgoes, rfl⟩ | ⟨hp, rfl⟩
  · generalize y.point = q at hgoes
    cases hgoes with
    | pcbInit => exact Or.inr (Or.inl ⟨rfl, rfl⟩)
    | setShellFlag a => exact Or.inl ⟨_, _, rfl, rfl, sameArgs_modifyPCB _ _ (fun _ => rfl), rfl, rfl, rfl⟩
    | incrNextPId kb => exact Or.inr (Or.inr (Or.inl ⟨kb, rfl, rfl⟩))
    | setESP0 kb => exact Or.inl ⟨_, _, rfl, (sameTables_setESP0 _ kb).nextPId, sameArgs_setESP0 _ kb, rfl, rfl, rfl⟩
    | _ => exact Or.inl ⟨_, _, rfl, rfl, SameArgs.refl _, rfl, rfl, rfl⟩
  · exact Or.inr (Or.inr (Or.inr ⟨hp, rfl⟩))

/-- The processes a terminal has, with the one its `execute_func` has not counted yet. -/
def taken (s : Machine) (u : Term) : Nat := s.kernel.nextPId u + weight Point.uncounted (s.execs u)

/-- A step of `execute_func` takes nothing more. -/
theorem taken_advance {y : Exec} (hx : s.execs s.kernel.currTerm = some y) (hs : advance img s y = .ok s') :
    ∀ u, taken s' u = taken s u := by
  intro u
  unfold taken
  by_cases hu : u = s.kernel.currTerm
  · have hgoto : ∀ k p, (s.goto y k p).execs s.kernel.currTerm = some { y with point := p } :=
      fun k p => Function.update_self _ _ _
    rw [hu, hx, weight_some]
    rcases advance_cases hs with ⟨k, p, rfl, hnext, -, hun, -, -⟩ | ⟨hp, rfl⟩ | ⟨kb, hp, rfl⟩ | ⟨hp, rfl⟩
    · rw [hgoto, weight_some, hun, ← hnext]
      rfl
    · rw [hgoto, weight_some, hp, Machine.goto, pcbInit_eq]
      rfl
    · rw [hgoto, weight_some, hp, Machine.goto, incrNextPId]
      dsimp only
      rw [Function.update_self]
      rfl
    · dsimp only
      rw [Function.update_self, hp]
      rfl
  · have hsp := advance_spares hs hu
    rw [hsp.exec, hsp.next]

/-- A new block leaves the return value. -/
theorem haltRetval_pcbInit (img : Image) (k : Kernel) (a : Addr) (args : List UInt8) (d : Dentry) :
    (pcbInit img k a args d).haltRetval = k.haltRetval := by
  unfold pcbInit Kernel.modifyPCB
  dsimp only
  split
  · split
    · rfl
    · rfl
  · rfl

/-- Of the steps of `execute_func`, one stores to `halt_retval`: it clears the cell of its terminal, right before the last step. -/
theorem haltRetval_advance {y : Exec} (hs : advance img s y = .ok s') :
    s'.kernel.haltRetval =
        (if y.point = .clearRetval then Function.update s.kernel.haltRetval s.kernel.currTerm 0 else s.kernel.haltRetval) ∧
      ∀ x, s'.execs s.kernel.currTerm = some x → x.point = .iret → y.point = .clearRetval := by
  rcases advance_goes hs with ⟨k, p, hgoes, rfl⟩ | ⟨hp, rfl⟩
  · have hpoint : ∀ x, (s.goto y k p).execs s.kernel.currTerm = some x → x.point = p := by
      intro x hx
      rw [execs_goto, Option.some.injEq] at hx
      rw [← hx]
    generalize y.point = q at hgoes
    cases hgoes with
    | clearRetval => exact ⟨rfl, fun _ _ _ => rfl⟩
    | pcbInit =>
      refine ⟨haltRetval_pcbInit _ _ _ _ _, fun x hx hiret => ?_⟩
      rw [hpoint x hx] at hiret
      cases hiret
    | setESP0 kb =>
      obtain ⟨pcbs, he⟩ := setESP0_eq s.kernel kb
      have hret : (setESP0 s.kernel kb).haltRetval = s.kernel.haltRetval := by rw [he]
      refine ⟨hret, fun x hx hiret => ?_⟩
      rw [hpoint x hx] at hiret
      cases hiret
    | _ =>
      refine ⟨rfl, fun x hx hiret => ?_⟩
      rw [hpoint x hx] at hiret
      cases hiret
  · refine ⟨by rw [hp]; rfl, fun x hx _ => ?_⟩
    dsimp only at hx
    rw [Function.update_self] at hx
    cases hx

/-- `PCB_init` stores the arguments in the new block and leaves those of the others. -/
theorem args_pcbInit (img : Image) (k : Kernel) (a b : Addr) (args : List UInt8) (d : Dentry) :
    ((pcbInit img k a args d).pcbs b).args = if b = a then args else (k.pcbs b).args := by
  by_cases hb : b = a
  · rw [if_pos hb, hb]
    unfold pcbInit
    cases k.currPcbPtr with
    | none => simp [Kernel.modifyPCB, PCB.init]
    | some cur =>
      by_cases hz : k.nextPId k.currTerm = 0
      · simp [Kernel.modifyPCB, PCB.init, hz]
      · simp [Kernel.modifyPCB, PCB.init, hz]
  · rw [if_neg hb, pcbInit_pcbs_other hb]
    split
    · rfl
    · rfl

end TablesAux

/-! ## Launching the shell of the small image -/

/-- The machine at boot over empty memory. -/
def bootMachine : Machine := Machine.boot (fun _ => 0) (fun _ => rootShellPCB)

/-- A call of `execute_func` for the shell of the small image, from its check to its `iret`. -/
def launchMoves : List Move := .event (.execute shellCommand zeroResidue) :: List.replicate 17 .advance

end ThreeTermOS
