import ThreeTermOS.Lemmas.Preemption

/-!
# Whole moves under preemption

A call of a program, the start and the end of a process, a switch and a key each keep the process stacks in order, and each says what
it does to the calls under way on the other terminals: it spares them, or it is the tick that comes back to one.
-/

namespace ThreeTermOS

open Bytes Chain Runs

namespace PreemptionAux

open ProcessAux VideoMapAux

variable {s s' : Machine} {k k' : Kernel} {img : Image} {r : Residue} {t u : Term} {y : Exec}

/-! ### Events -/

/-- Events that leave the process tables alone. -/
theorem machineInv_sameProcs (h : MachineInv s) (hs : SameProcs s.kernel k') (hd : k'.dispTerm = s.kernel.dispTerm) :
    MachineInv { s with kernel := k' } ∧ ∀ t, Spares s { s with kernel := k' } t := by
  refine ⟨?_, fun t => ⟨rfl, by rw [hs.nextPId], fun hcurr => ⟨hs.currTerm.symm.trans hcurr, hs.pdProg⟩⟩⟩
  have hterm := h.terms s.kernel.currTerm
  rw [topPtr_self] at hterm
  refine machineInv_local h ⟨hs.currTerm, fun u _ => rfl, fun u _ => by rw [hs.nextPId], fun u _ => by rw [hs.activeProgs],
    fun u _ i _ => ?_⟩ ?_ ?_ ?_
  · dsimp only
    rw [hs.pcbs]
    exact SameLinks.refl _ _
  · dsimp only
    rw [hs.pcbs, hs.nextPId, hs.currPcbPtr]
    exact hterm
  · dsimp only
    rw [hs.nextPId, hs.totalProgs]
  · dsimp only
    rw [hs.activeProgs]
    exact fun hnone => ⟨hnone, hd⟩

/-- A terminal without a call under way is counted in `total_progs`. -/
theorem nextPId_le_total (h : MachineInv s) (hx : s.execs u = none) : s.kernel.nextPId u ≤ s.kernel.totalProgs := by
  have hsum := sum_update s.kernel.nextPId u 0
  have hle : ∑ v, weight Point.pending (s.execs v) ≤ ∑ v, Function.update s.kernel.nextPId u 0 v := by
    refine Finset.sum_le_sum (fun v _ => ?_)
    by_cases hv : v = u
    · rw [hv, hx, weight_none]
      exact Nat.zero_le _
    · rw [Function.update_of_ne hv]
      exact (h.terms v).pending
  have htotal := h.total
  omega

/-- A call begins, or is refused. -/
theorem machineInv_begin (h : MachineInv s) (hx : s.execs s.kernel.currTerm = none) {command : CPtr}
    (hs : beginExecute img s command r .ok = .ok s') :
    MachineInv s' ∧ ∀ t, s.execs t ≠ none → Spares s s' t := by
  have hterm := h.terms s.kernel.currTerm
  rw [hx, topPtr_self] at hterm
  unfold beginExecute at hs
  dsimp only at hs
  split at hs
  · rw [Outcome.ok.injEq] at hs
    subst hs
    obtain ⟨hinv, hspares⟩ := machineInv_sameProcs h (sameProcs_print s.kernel _) (keepsVideo_print s.kernel _).disp
    exact ⟨hinv, fun t _ => hspares t⟩
  · rename_i d hcheck
    rw [Outcome.ok.injEq] at hs
    have hlt : s.kernel.totalProgs < maxProgs := by
      unfold checkExecute at hcheck
      split at hcheck
      · cases hcheck
      · omega
    have hle := nextPId_le_total h hx
    generalize hy : (⟨(getArgsFname command r).1, (getArgsFname command r).2, d, .mapProgPage⟩ : Exec) = z at hs
    have hpoint : z.point = .mapProgPage := by rw [← hy]
    have hself : Function.update s.execs s.kernel.currTerm (some z) s.kernel.currTerm = some z := Function.update_self _ _ _
    subst hs
    refine ⟨?_, fun t ht => ?_⟩
    · refine machineInv_local h ⟨rfl, fun u hu => Function.update_of_ne hu _ _, fun u _ => rfl, fun u _ => rfl,
        fun u _ i _ => SameLinks.refl _ _⟩ ?_ ?_ (fun hnone => ⟨hnone, rfl⟩)
      · dsimp only
        rw [hself]
        refine ⟨?_, ?_, ?_, ?_, ?_⟩
        · rw [weight_some, hpoint, Point.uncounted]
          omega
        · rw [weight_some, hpoint]
          exact Nat.zero_le _
        · rw [weight_some, hpoint]
          exact hterm.links
        · rw [weight_some, hpoint]
          exact Or.inl (termOk_none hterm)
        · intro w b hw hb
          rw [Option.some.injEq] at hw
          rw [← hw, hpoint] at hb
          cases hb
      · dsimp only
        rw [hself, hx, weight_some, hpoint]
        rfl
    · have hne : t ≠ s.kernel.currTerm := by
        rintro rfl
        exact ht hx
      exact ⟨Function.update_of_ne hne _ _, rfl, fun hcurr => ⟨hcurr, rfl⟩⟩

/-- `halt_func` of a process with a parent, as far as the process tables go. -/
theorem haltFunc_parent (img : Image) (r : Residue) {a b : Addr} (hc : k.currPcbPtr = some a) (hp : (k.pcbs a).parent = some b)
    (status : UInt8) : ∃ k', haltFunc img k status r = .ok k' ∧ k'.currTerm = k.currTerm ∧ k'.dispTerm = k.dispTerm ∧ k'.currPcbPtr = some b ∧
      k'.activeProgs = Function.update k.activeProgs k.currTerm (some b) ∧ k'.totalProgs = k.totalProgs - 1 ∧
      k'.nextPId = Function.update k.nextPId k.currTerm (k.nextPId k.currTerm - 1) ∧ ∀ c, SameLinks k.pcbs k'.pcbs c := by
  unfold haltFunc
  simp only [hc, hp]
  exact ⟨_, rfl, rfl, rfl, rfl, rfl, rfl, rfl,
    sameLinks_modifyPCB k b (f := fun p => { p with child := none }) (fun p => ⟨rfl, rfl, rfl⟩)⟩

/-- The last process of a terminal is counted out, and a shell is to take its place. -/
theorem machineInv_restart (h : MachineInv s) (hx : s.execs s.kernel.currTerm = none) (hone : s.kernel.nextPId s.kernel.currTerm = 1)
    {z : Exec} (hpoint : z.point = .restart) :
    MachineInv { kernel := decremented s.kernel, execs := Function.update s.execs s.kernel.currTerm (some z) } ∧
      ∀ t, s.execs t ≠ none →
        Spares s { kernel := decremented s.kernel, execs := Function.update s.execs s.kernel.currTerm (some z) } t := by
  have hterm := h.terms s.kernel.currTerm
  have hle := nextPId_le_total h hx
  rw [hx, topPtr_self, hone] at hterm
  have hself : Function.update s.execs s.kernel.currTerm (some z) s.kernel.currTerm = some z := Function.update_self _ _ _
  have hzero : (decremented s.kernel).nextPId s.kernel.currTerm = 0 := by
    unfold decremented
    dsimp only
    rw [Function.update_self, hone]
  have htotal : (decremented s.kernel).totalProgs = s.kernel.totalProgs - 1 := rfl
  refine ⟨?_, fun t ht => ?_⟩
  · refine machineInv_local h ⟨rfl, fun u hu => Function.update_of_ne hu _ _, fun u hu => Function.update_of_ne hu _ _, fun u _ => rfl,
      fun u _ i _ => SameLinks.refl _ _⟩ ?_ ?_ (fun hnone => ⟨hnone, rfl⟩)
    · dsimp only
      rw [hself, hzero]
      have hlink := hterm.links 0 (Nat.lt_succ_self 0)
      refine ⟨?_, ?_, ?_, Or.inr ⟨rfl, ?_, ?_, termOk_none hterm, hlink.pId⟩, ?_⟩
      · rw [weight_some, hpoint]
        decide
      · rw [weight_some, hpoint]
        exact Nat.le_refl 0
      · rw [weight_some, hpoint]
        exact fun i hi => absurd hi (Nat.not_lt_zero i)
      · rw [weight_some, hpoint]
        rfl
      · rw [weight_some, hpoint]
        rfl
      · intro w b hw hb
        rw [Option.some.injEq] at hw
        rw [← hw, hpoint] at hb
        cases hb
    · dsimp only
      rw [hself, hx, hzero, hone, htotal, weight_some, weight_none, show z.point.pending = 0 by rw [hpoint]; rfl]
      omega
  · have hne : t ≠ s.kernel.currTerm := by
      rintro rfl
      exact ht hx
    exact ⟨Function.update_of_ne hne _ _, Function.update_of_ne hne _ _, fun hcurr => absurd hcurr.symm hne⟩

theorem haltRetval_print (k : Kernel) (msg : String) : (k.print msg).haltRetval = k.haltRetval := rfl

/-- A turn of the loop of `halt_func`: the shell is refused, or its `execute_func` has passed its checks. -/
theorem restartStep_ok (hs : restartStep img s r = .ok s') :
    ∃ k, SameProcs s.kernel k ∧ k.dispTerm = s.kernel.dispTerm ∧ k.haltRetval = s.kernel.haltRetval ∧
      k.videoTable = s.kernel.videoTable ∧
      (s' = { s with kernel := k } ∨ ∃ d z, checkExecute img s.kernel (getArgsFname shellCommand r).1 r = .ok d ∧
        z.point = .mapProgPage ∧ s' = { kernel := k, execs := Function.update s.execs s.kernel.currTerm (some z) }) := by
  have hprocs := sameProcs_print s.kernel "\nRestart the shell.\n"
  have hvideo := keepsVideo_print s.kernel "\nRestart the shell.\n"
  have hretval := haltRetval_print s.kernel "\nRestart the shell.\n"
  have hcheck : checkExecute img (s.kernel.print "\nRestart the shell.\n") (getArgsFname shellCommand r).1 r =
      checkExecute img s.kernel (getArgsFname shellCommand r).1 r := by
    unfold checkExecute
    rw [hprocs.totalProgs]
  unfold restartStep at hs
  generalize s.kernel.print "\nRestart the shell.\n" = k₁ at hs hprocs hvideo hretval hcheck
  unfold beginExecute at hs
  dsimp only at hs
  rw [hcheck, hprocs.currTerm] at hs
  split at hs
  · rename_i message _
    rw [Outcome.ok.injEq] at hs
    have hv := keepsVideo_print k₁ message
    exact ⟨_, SameProcs.trans hprocs (sameProcs_print k₁ message), hv.disp.trans hvideo.disp,
      (haltRetval_print k₁ message).trans hretval, hv.table.trans hvideo.table, Or.inl hs.symm⟩
  · rename_i d hd
    rw [Outcome.ok.injEq] at hs
    exact ⟨k₁, hprocs, hvideo.disp, hretval, hvideo.table, Or.inr ⟨d, _, hd, rfl, hs.symm⟩⟩

/-- A turn of the loop of `halt_func` keeps the invariant, and the calls under way on the other terminals. -/
theorem machineInv_again (h : MachineInv s) (hx : s.execs s.kernel.currTerm = some y) (hp : y.point = .restart)
    (hs : restartStep img s r = .ok s') : MachineInv s' ∧ ∀ t, t ≠ s.kernel.currTerm → Spares s s' t := by
  obtain ⟨k, hprocs, hdisp, -, -, rfl | ⟨d, z, -, hz, rfl⟩⟩ := restartStep_ok hs
  · obtain ⟨hinv, hspares⟩ := machineInv_sameProcs h hprocs hdisp
    exact ⟨hinv, fun t _ => hspares t⟩
  · have hterm := h.terms s.kernel.currTerm
    rw [hx, topPtr_self] at hterm
    have hself : Function.update s.execs s.kernel.currTerm (some z) s.kernel.currTerm = some z := Function.update_self _ _ _
    have hweights : SameWeights z.point y.point := by
      rw [hz, hp]
      exact sameWeights_of_none rfl rfl rfl rfl
    refine ⟨?_, fun t ht => ⟨Function.update_of_ne ht _ _, by rw [hprocs.nextPId], fun hcurr => ?_⟩⟩
    · refine machineInv_local h ⟨hprocs.currTerm, fun u hu => Function.update_of_ne hu _ _, fun u _ => by dsimp only; rw [hprocs.nextPId],
        fun u _ => by dsimp only; rw [hprocs.activeProgs], fun u _ i _ => by dsimp only; rw [hprocs.pcbs]; exact SameLinks.refl _ _⟩ ?_ ?_ ?_
      · dsimp only
        rw [hself, hprocs.pcbs, hprocs.nextPId, hprocs.currPcbPtr]
        exact termOk_goto hterm hweights
      · dsimp only
        rw [hself, hx, hprocs.nextPId, hprocs.totalProgs, weight_some, weight_some, hweights.pending]
      · dsimp only
        rw [hprocs.activeProgs]
        exact fun hnone => ⟨hnone, hdisp⟩
    · exact absurd (hprocs.currTerm.symm.trans hcurr).symm ht

/-- A `halt_func` that goes on: the last process of its terminal is counted out, any other goes back to the one below. -/
theorem haltStep_ok (h : MachineInv s) (hx : s.execs s.kernel.currTerm = none) {status : UInt8} (hs : haltStep img s status r = .ok s') :
    (s.kernel.nextPId s.kernel.currTerm = 1 ∧ s.kernel.currPcbPtr = some (pcbAt s.kernel.currTerm 0) ∧
        ∃ z, z.point = .restart ∧
          s' = { kernel := decremented s.kernel, execs := Function.update s.execs s.kernel.currTerm (some z) }) ∨
      ∃ n k₁, s.kernel.nextPId s.kernel.currTerm = n + 1 + 1 ∧ s.kernel.currPcbPtr = some (pcbAt s.kernel.currTerm (n + 1)) ∧
        (s.kernel.pcbs (pcbAt s.kernel.currTerm (n + 1))).parent = some (pcbAt s.kernel.currTerm n) ∧
        haltFunc img s.kernel status r = .ok k₁ ∧ s' = { s with kernel := k₁ } := by
  have hterm := h.terms s.kernel.currTerm
  rw [hx, topPtr_self] at hterm
  have htop := termOk_none hterm
  cases hn : s.kernel.nextPId s.kernel.currTerm with
  | zero =>
    -- nothing runs: the null pointer is followed
    rw [hn, top_zero] at htop
    unfold haltStep kernelStep at hs
    simp only [htop] at hs
    rw [step, Outcome.map_eq_ok] at hs
    obtain ⟨k₁, hk, -⟩ := hs
    unfold haltFunc at hk
    simp [htop] at hk
  | succ m =>
    rw [hn, top_succ] at htop
    have hparent := (hterm.links m (by rw [hn]; exact Nat.lt_succ_self m)).parent
    cases m with
    | zero =>
      rw [top_zero] at hparent
      have hroot : haltStep img s status r = .ok {
          kernel := decremented s.kernel
          execs := Function.update s.execs s.kernel.currTerm
            (some { fileName := fun _ => 0, args := [], fileEntry := { byte := fun _ => 0 }, point := .restart }) } := by
        unfold haltStep decremented
        simp only [htop, hparent, if_true]
      rw [hroot, Outcome.ok.injEq] at hs
      exact Or.inl ⟨rfl, htop, _, rfl, hs.symm⟩
    | succ m =>
      rw [top_succ] at hparent
      unfold haltStep at hs
      simp only [htop, hparent, reduceCtorEq, if_false] at hs
      unfold kernelStep at hs
      rw [step, Outcome.map_eq_ok] at hs
      obtain ⟨k₁, hk, he⟩ := hs
      exact Or.inr ⟨m, k₁, rfl, htop, hparent, hk, he.symm⟩

/-- A program halts: its terminal goes back to the one below, or a shell is to take its place. -/
theorem machineInv_halt (h : MachineInv s) (hx : s.execs s.kernel.currTerm = none) {status : UInt8}
    (hs : haltStep img s status r = .ok s') : MachineInv s' ∧ ∀ t, s.execs t ≠ none → Spares s s' t := by
  rcases haltStep_ok h hx hs with ⟨hone, -, z, hz, rfl⟩ | ⟨m, k₁, hn, htop, hparent, hk, rfl⟩
  · exact machineInv_restart h hx hone hz
  · have hterm := h.terms s.kernel.currTerm
    rw [hx, topPtr_self] at hterm
    have hle := nextPId_le_total h hx
    obtain ⟨k₂, hk₂, hcurr, hdisp, hptr, hactive, htotal, hnext, hlinks⟩ := haltFunc_parent img r htop hparent status
    rw [hk, Outcome.ok.injEq] at hk₂
    subst hk₂
    refine ⟨?_, fun t ht => ?_⟩
    · have hown : k₁.nextPId s.kernel.currTerm = m + 1 := by rw [hnext, Function.update_self, hn, Nat.add_sub_cancel]
      refine machineInv_local h ⟨hcurr, fun u _ => rfl, fun u hu => by dsimp only; rw [hnext]; exact Function.update_of_ne hu _ _,
        fun u hu => by dsimp only; rw [hactive]; exact Function.update_of_ne hu _ _, fun u _ i _ => hlinks _⟩ ?_ ?_ ?_
      · have hbound := hterm.bound
        rw [hn] at hbound
        dsimp only
        rw [hown, hptr, hx]
        refine ⟨Nat.le_of_succ_le hbound, Nat.zero_le _, fun i hi => ?_, Or.inl (top_succ _ m).symm, fun w b hw => by cases hw⟩
        exact linkOk_congr (hterm.links i (by rw [hn]; exact Nat.lt_succ_of_lt hi)) (hlinks _)
      · dsimp only
        rw [hown, htotal, hn]
        omega
      · dsimp only
        rw [hactive, Function.update_self]
        exact fun hnone => by cases hnone
    · have hne : t ≠ s.kernel.currTerm := by
        rintro rfl
        exact ht hx
      refine ⟨rfl, ?_, fun hcurr' => absurd (hcurr.symm.trans hcurr').symm hne⟩
      dsimp only
      rw [hnext, Function.update_of_ne hne]

/-! ### Switches -/

/-- The tables with another terminal running. -/
def switched (k : Kernel) (dest : Term) (p : Option Addr) : Kernel :=
  { k with activeProgs := Function.update k.activeProgs k.currTerm k.currPcbPtr, currPcbPtr := p, currTerm := dest }

/-- Saving the running process moves no terminal's top. -/
theorem saved_eq (k : Kernel) (u : Term) : Function.update k.activeProgs k.currTerm k.currPcbPtr u = topPtr k u := by
  unfold topPtr
  by_cases hu : u = k.currTerm
  · rw [hu, Function.update_self, if_pos rfl]
  · rw [Function.update_of_ne hu, if_neg hu]

theorem topPtr_switched (k : Kernel) (dest u : Term) : topPtr (switched k dest (topPtr k dest)) u = topPtr k u := by
  by_cases hu : u = dest
  · rw [hu]
    exact if_pos rfl
  · rw [topPtr_of_ne hu]
    exact saved_eq k u

/-- A switch that goes on comes from a running process, to the process of the terminal that is to go on, or to a shell launched
on a terminal without one. -/
theorem doSwitch_tops {dest : Term} (hs : doSwitch img k dest r = .ok k') :
    k.currPcbPtr ≠ none ∧
      ((∃ b, topPtr k dest = some b ∧ k' = resume (switched k dest (some b)) b) ∨
        topPtr k dest = none ∧
          executeFunc img { switched k dest none with switchLock := false } shellCommand r = .started k') := by
  cases hc : k.currPcbPtr with
  | none =>
    unfold doSwitch at hs
    simp [hc] at hs
  | some a =>
    refine ⟨nofun, ?_⟩
    have hsaved := saved_eq k dest
    rw [hc] at hsaved
    unfold switched
    rw [hc]
    unfold doSwitch at hs
    simp only [hc, hsaved] at hs
    cases hb : topPtr k dest with
    | some b =>
      simp only [hb, Outcome.ok.injEq] at hs
      exact Or.inl ⟨b, rfl, hs.symm⟩
    | none =>
      simp only [hb] at hs
      rcases outcome_eq_ok hs with he | ⟨k₁, -, hstop⟩
      · exact Or.inr ⟨rfl, he⟩
      · cases hstop

/-- A tick to a terminal with a program goes on with a process. -/
theorem topPtr_of_tick (hrun : k.currPcbPtr ≠ none) {dest : Term} (hact : k.activeProgs dest ≠ none) : topPtr k dest ≠ none := by
  by_cases hd : dest = k.currTerm
  · rw [hd, topPtr_self]
    exact hrun
  · rw [topPtr_of_ne hd]
    exact hact

/-- A terminal without a process has no call under way. -/
theorem exec_none_of_topPtr (h : StacksInv s) (hrun : s.kernel.currPcbPtr ≠ none) {u : Term} (hnone : topPtr s.kernel u = none) :
    s.execs u = none := by
  by_cases huc : u = s.kernel.currTerm
  · rw [huc, topPtr_self] at hnone
    exact absurd hnone hrun
  · rw [topPtr_of_ne huc] at hnone
    exact h.away u huc hnone

/-- A switch to a terminal with a program, with nothing else changed in the tables. -/
theorem machineInv_switched (h : MachineInv s) (hrun : s.kernel.currPcbPtr ≠ none) {dest : Term} {b : Addr}
    (hb : topPtr s.kernel dest = some b) :
    MachineInv { s with kernel := resume (switched s.kernel dest (some b)) b } ∧
      Resumed s { s with kernel := resume (switched s.kernel dest (some b)) b } dest ∧
      ∀ t, t ≠ dest → Spares s { s with kernel := resume (switched s.kernel dest (some b)) b } t := by
  have htop : ∀ u, topPtr (resume (switched s.kernel dest (some b)) b) u = topPtr s.kernel u := by
    intro u
    have hu := topPtr_switched s.kernel dest u
    rw [hb] at hu
    exact hu
  have hterm := h.terms dest
  rw [hb] at hterm
  have hsaved : ∀ u, (resume (switched s.kernel dest (some b)) b).activeProgs u = topPtr s.kernel u := saved_eq s.kernel
  refine ⟨⟨⟨?_, h.total, ?_⟩, ?_⟩, ⟨rfl, rfl, rfl, ?_⟩, fun t ht => ⟨rfl, rfl, fun hcurr => absurd hcurr.symm ht⟩⟩
  · intro u
    dsimp only
    rw [htop u]
    exact h.terms u
  · intro u hu hnone
    rw [hsaved u] at hnone
    exact exec_none_of_topPtr h.toStacksInv hrun hnone
  · intro hnone
    have hnone' : topPtr s.kernel dest = none := (hsaved dest).symm.trans hnone
    rw [hb] at hnone'
    cases hnone'
  · have hpid := pId_of_termOk hterm
    rw [← hpid]
    rfl

/-- A shell started on a terminal without a program, as far as the process tables go. -/
theorem launched_eq {dest : Term} (hzero : k.nextPId dest = 0)
    (he : executeFunc img { switched k dest none with switchLock := false } shellCommand r = .started k') :
    k'.currTerm = dest ∧ k'.currPcbPtr = some (pcbAt dest 0) ∧ k'.nextPId = Function.update k.nextPId dest 1 ∧
      k'.totalProgs = k.totalProgs + 1 ∧ (∀ u, u ≠ dest → k'.activeProgs u = topPtr k u) ∧
      k'.activeProgs dest = some (pcbAt dest 0) ∧ LinkOk k'.pcbs dest 0 ∧ ∀ b, b ≠ pcbAt dest 0 → k'.pcbs b = k.pcbs b := by
  obtain ⟨d, m, -, he⟩ := started_eq he
  rw [startProgram_eq] at he
  generalize hL : loaded { switched k dest none with switchLock := false } m = L at he
  have hcurr : L.currTerm = dest := by rw [← hL]; rfl
  have hnext : L.nextPId = k.nextPId := by rw [← hL]; rfl
  have hpcbs : L.pcbs = k.pcbs := by rw [← hL]; rfl
  have htotal : L.totalProgs = k.totalProgs := by rw [← hL]; rfl
  have hsaved : ∀ u, L.activeProgs u = topPtr k u := by
    rw [← hL]
    exact saved_eq k
  have hn : L.nextPId L.currTerm = 0 := by rw [hnext, hcurr, hzero]
  have hslot : SlotOk (startedPcbs img L (pcbAt L.currTerm (L.nextPId L.currTerm)) (getArgsFname shellCommand r).1
      (getArgsFname shellCommand r).2 d) L.currTerm (L.nextPId L.currTerm + 1) (L.nextPId L.currTerm) :=
    slotOk_startedPcbs rfl (fun hz => absurd hn hz) (fun hz => absurd hn hz)
  have hother : ∀ b, b ≠ pcbAt L.currTerm (L.nextPId L.currTerm) →
      startedPcbs img L (pcbAt L.currTerm (L.nextPId L.currTerm)) (getArgsFname shellCommand r).1
        (getArgsFname shellCommand r).2 d b = k.pcbs b := by
    intro b hb
    rw [startedPcbs_other hb, if_neg (fun hc => hc.1 hn), hpcbs]
  generalize startedPcbs img L (pcbAt L.currTerm (L.nextPId L.currTerm)) (getArgsFname shellCommand r).1
    (getArgsFname shellCommand r).2 d = pcbs₁ at he hslot hother
  rw [hn, hcurr, hnext, htotal] at he
  rw [hn, hcurr] at hslot hother
  subst he
  refine ⟨hcurr, rfl, rfl, rfl, fun u hu => ?_, Function.update_self _ _ _, ⟨hslot.pId, hslot.parentPId, hslot.parent⟩, hother⟩
  exact (Function.update_of_ne hu _ _).trans (hsaved u)

/-- A switch to a terminal without a program, once its shell is started. -/
theorem machineInv_launched (h : StacksInv s) (hrun : s.kernel.currPcbPtr ≠ none) {dest : Term} (hne : dest ≠ s.kernel.currTerm)
    (hb : topPtr s.kernel dest = none)
    (he : executeFunc img { switched s.kernel dest none with switchLock := false } shellCommand r = .started k') :
    MachineInv { s with kernel := k' } ∧ ∀ t, s.execs t ≠ none → Spares s { s with kernel := k' } t := by
  have hexec : s.execs dest = none := exec_none_of_topPtr h hrun hb
  have hdest := h.terms dest
  rw [hb] at hdest
  have hzero := termOk_of_none hdest
  obtain ⟨hcurr, hptr, hnext, htotal, hactive, hown, hlink, hother⟩ := launched_eq hzero he
  have htop : ∀ u, u ≠ dest → topPtr k' u = topPtr s.kernel u := by
    intro u hu
    rw [topPtr_of_ne (by rw [hcurr]; exact hu), hactive u hu]
  refine ⟨⟨⟨?_, ?_, ?_⟩, ?_⟩, fun t ht => ?_⟩
  · intro u
    dsimp only
    by_cases hu : u = dest
    · subst hu
      rw [← hcurr, topPtr_self, hcurr, hexec, hnext, Function.update_self, hptr]
      refine ⟨by decide, Nat.zero_le 1, fun i hi => ?_, Or.inl rfl, fun w b hw => by cases hw⟩
      rw [Nat.lt_one_iff.mp hi]
      exact hlink
    · rw [htop u hu, hnext, Function.update_of_ne hu]
      refine termOk_congr (h.terms u) (fun i hi => ?_)
      rw [SameLinks, hother _ (pcbAt_ne_of_term hi (by decide) hu)]
      exact ⟨rfl, rfl, rfl⟩
  · have hsum := sum_update s.kernel.nextPId dest 1
    have hall := h.total
    dsimp only
    rw [hnext, htotal]
    omega
  · intro u hu hnone
    dsimp only at hu hnone ⊢
    rw [hcurr] at hu
    rw [hactive u hu] at hnone
    exact exec_none_of_topPtr h hrun hnone
  · intro hnone
    dsimp only at hnone
    rw [hcurr, hown] at hnone
    cases hnone
  · have htd : t ≠ dest := by
      rintro rfl
      exact ht hexec
    refine ⟨rfl, ?_, fun hcurr' => absurd (hcurr.symm.trans hcurr').symm htd⟩
    dsimp only
    rw [hnext, Function.update_of_ne htd]

theorem topPtr_sameProcs (hs : SameProcs k k') (u : Term) : topPtr k' u = topPtr k u := by
  unfold topPtr
  rw [hs.currTerm, hs.currPcbPtr, hs.activeProgs]

theorem stacksInv_sameProcs (h : StacksInv s) (hs : SameProcs s.kernel k') : StacksInv { s with kernel := k' } := by
  refine ⟨fun u => ?_, ?_, fun u hu hnone => ?_⟩
  · dsimp only
    rw [hs.pcbs, hs.nextPId, topPtr_sameProcs hs]
    exact h.terms u
  · dsimp only
    rw [hs.nextPId, hs.totalProgs]
    exact h.total
  · dsimp only at hu hnone
    rw [hs.currTerm] at hu
    rw [hs.activeProgs] at hnone
    exact h.away u hu hnone

theorem spares_sameProcs (hs : SameProcs s.kernel k') (t : Term) : Spares s { s with kernel := k' } t :=
  ⟨rfl, by rw [hs.nextPId], fun hcurr => ⟨hs.currTerm.symm.trans hcurr, hs.pdProg⟩⟩

/-- A tick: a switch to a terminal with a program when the lock is free, and nothing otherwise. -/
theorem machineInv_schedule (h : MachineInv s) {dest : Term} (hs : schedule img s.kernel dest r = .ok k') :
    MachineInv { s with kernel := k' } ∧
      (s.kernel.switchLock = false → s.kernel.activeProgs dest ≠ none → Resumed s { s with kernel := k' } dest) ∧
      ∀ t, ¬(t = dest ∧ s.kernel.switchLock = false ∧ s.kernel.activeProgs dest ≠ none) → Spares s { s with kernel := k' } t := by
  by_cases hgo : s.kernel.switchLock = false ∧ s.kernel.activeProgs dest ≠ none
  · obtain ⟨hlock, hact⟩ := hgo
    unfold schedule at hs
    rw [if_pos hact, if_neg (by simp [hlock]), Outcome.andThen_eq_ok] at hs
    obtain ⟨k₁, hk, hs⟩ := hs
    rw [Outcome.ok.injEq] at hs
    obtain ⟨hlocked, -⟩ := machineInv_sameProcs h (sameProcs_lock s.kernel true) rfl
    obtain ⟨hrun, ⟨b, hb, rfl⟩ | ⟨hb, -⟩⟩ := doSwitch_tops hk
    swap
    · exact absurd hb (topPtr_of_tick hrun hact)
    obtain ⟨hinv, hresumed, hspares⟩ := machineInv_switched hlocked hrun hb
    obtain ⟨hinv', -⟩ := machineInv_sameProcs hinv (sameProcs_lock _ false) rfl
    subst hs
    refine ⟨hinv', fun _ _ => ⟨hresumed.exec, hresumed.next, hresumed.curr, hresumed.page⟩, fun t ht => ?_⟩
    have hsp := hspares t (fun he => ht ⟨he, hlock, hact⟩)
    exact ⟨hsp.exec, hsp.next, hsp.page⟩
  · have he : schedule img s.kernel dest r = .ok s.kernel := by
      unfold schedule
      by_cases hact : s.kernel.activeProgs dest ≠ none
      · rw [if_pos hact, if_pos]
        exact Bool.eq_true_of_not_eq_false (fun hl => hgo ⟨hl, hact⟩)
      · rw [if_neg hact]
    rw [he, Outcome.ok.injEq] at hs
    subst hs
    exact ⟨h, fun hl hact => absurd ⟨hl, hact⟩ hgo, fun t _ => ⟨rfl, rfl, fun hcurr => ⟨hcurr, rfl⟩⟩⟩

/-- A switch of terminals: nothing, another terminal displayed, or a shell launched there. -/
theorem machineInv_switchTerminals (h : MachineInv s) {dest : Nat} (hs : switchTerminals img s.kernel dest r = .ok k') :
    MachineInv { s with kernel := k' } ∧ ∀ t, s.execs t ≠ none → Spares s { s with kernel := k' } t := by
  rcases switchTerminals_ok hs with rfl | ⟨d, k₁, -, hne, -, rfl, ⟨hact, hk⟩ | ⟨hact, rfl⟩⟩
  · exact ⟨h, fun t _ => ⟨rfl, rfl, fun hcurr => ⟨hcurr, rfl⟩⟩⟩
  · have hsame := sameProcs_displaying s.kernel d
    -- the terminal that runs is not the one without a program
    have hdc : d ≠ s.kernel.currTerm := by
      rintro rfl
      exact hne (h.idle hact).1
    have htop : topPtr (displaying s.kernel d) d = none := by
      rw [topPtr_sameProcs hsame, topPtr_of_ne hdc]
      exact hact
    have hdc' : d ≠ (displaying s.kernel d).currTerm := by
      rw [hsame.currTerm]
      exact hdc
    obtain ⟨hrun, ⟨b, hb, -⟩ | ⟨-, he⟩⟩ := doSwitch_tops hk
    · rw [htop] at hb
      cases hb
    obtain ⟨hinv, hspares⟩ := machineInv_launched (stacksInv_sameProcs h.toStacksInv hsame) hrun hdc' htop he
    obtain ⟨hinv', -⟩ := machineInv_sameProcs hinv (sameProcs_lock k₁ false) rfl
    refine ⟨hinv', fun t ht => ?_⟩
    have hsp := (spares_sameProcs hsame t).trans (hspares t ht)
    exact ⟨hsp.exec, hsp.next, hsp.page⟩
  · have hsame := sameProcs_displaying s.kernel d
    have hunlocked := SameProcs.trans hsame (sameProcs_lock (displaying s.kernel d) false)
    refine ⟨⟨stacksInv_sameProcs h.toStacksInv hunlocked, fun hnone => ?_⟩, fun t _ => spares_sameProcs hunlocked t⟩
    dsimp only at hnone
    rw [hsame.currTerm, hsame.activeProgs] at hnone
    exact absurd ((h.idle hnone).2 d) hact

/-- A step of one terminal's call leaves the others' where they are. -/
theorem advance_spares (hs : advance img s y = .ok s') (ht : t ≠ s.kernel.currTerm) : Spares s s' t := by
  rcases advance_goes hs with ⟨k, p, hgoes, rfl⟩ | ⟨-, rfl⟩
  · obtain ⟨hcurr, -, hnext⟩ := goes_frame hgoes
    exact ⟨Function.update_of_ne ht _ _, hnext t ht, fun he => absurd (hcurr.symm.trans he).symm ht⟩
  · exact ⟨Function.update_of_ne ht _ _, rfl, fun hcurr => absurd hcurr.symm ht⟩

/-- Events of the kernel other than ticks, launches by the program and halts. -/
theorem machineInv_kernelStep (h : MachineInv s) {e : Event} (hsched : ∀ t r, e ≠ .schedule t r) (hexec : ∀ c r, e ≠ .execute c r)
    (hhalt : ∀ b r, e ≠ .halt b r) (hs : kernelStep img s e = .ok s') :
    MachineInv s' ∧ ∀ t, s.execs t ≠ none → Spares s s' t := by
  unfold kernelStep at hs
  rw [Outcome.map_eq_ok] at hs
  obtain ⟨k₁, hk, rfl⟩ := hs
  have hsame : SameProcs s.kernel k₁ → k₁.dispTerm = s.kernel.dispTerm →
      MachineInv { s with kernel := k₁ } ∧ ∀ t, s.execs t ≠ none → Spares s { s with kernel := k₁ } t := by
    intro hp hd
    obtain ⟨hinv, hspares⟩ := machineInv_sameProcs h hp hd
    exact ⟨hinv, fun t _ => hspares t⟩
  cases e with
  | execute command r => exact absurd rfl (hexec command r)
  | halt status r => exact absurd rfl (hhalt status r)
  | schedule newTerm r => exact absurd rfl (hsched newTerm r)
  | switchTerminals dest r => exact machineInv_switchTerminals h hk
  | key scancode r =>
    obtain ⟨hinv, hspares⟩ := machineInv_sameProcs h (sameProcs_keyed s.kernel scancode) (keepsVideo_keyed s.kernel scancode).disp
    rw [step, getCKeyboard_eq] at hk
    split at hk
    · obtain ⟨hinv', hspares'⟩ := machineInv_switchTerminals hinv hk
      exact ⟨hinv', fun t ht => (hspares t).trans (hspares' t ht)⟩
    · rw [Outcome.ok.injEq] at hk
      subst hk
      exact ⟨hinv, fun t _ => hspares t⟩
  | write bytes =>
    rw [step, Outcome.ok.injEq] at hk
    subst hk
    have hc := TerminalAux.terminalWrite_sameTerms s.kernel.toConsole bytes
    exact hsame (sameProcs_console hc) hc.disp
  | puts str =>
    rw [step, Outcome.ok.injEq] at hk
    subst hk
    have hc := TerminalAux.terminalPuts_sameTerms s.kernel.toConsole (strcpyBytes str)
    exact hsame (sameProcs_console hc) hc.disp
  | printf format args =>
    rw [step, Outcome.ok.injEq] at hk
    subst hk
    have hc := TerminalAux.terminalPrintf_sameTerms s.kernel.toConsole format args
    exact hsame (sameProcs_console hc) hc.disp
  | readBegin =>
    rw [step, Outcome.ok.injEq] at hk
    subst hk
    exact hsame ⟨rfl, rfl, rfl, rfl, rfl, rfl, rfl, rfl⟩ rfl
  | readPoll =>
    rw [step, Outcome.ok.injEq] at hk
    subst hk
    exact hsame ⟨rfl, rfl, rfl, rfl, rfl, rfl, rfl, rfl⟩ rfl
  | readCopy nbytes =>
    rw [step] at hk
    split at hk
    · rw [Outcome.ok.injEq] at hk
      subst hk
      exact hsame ⟨rfl, rfl, rfl, rfl, rfl, rfl, rfl, rfl⟩ rfl
    · rw [Outcome.ok.injEq] at hk
      exact hsame (hk ▸ SameProcs.refl _) (by rw [hk])
  | vidmap screenStart =>
    have hd : k₁.dispTerm = s.kernel.dispTerm := by
      obtain ⟨m, table, rfl⟩ := vidmapFunc_eq hk
      rfl
    exact hsame (sameProcs_vidmap hk) hd
  | lock held =>
    rw [step, Outcome.ok.injEq] at hk
    subst hk
    exact hsame (sameProcs_lock s.kernel held) rfl

/-- A step keeps the invariant; for a terminal with a call under way it is a step of that call, or a turn of the loop it waits in, or
a tick that switches to the terminal, or it leaves the call where it is. -/
theorem machineInv_moveStep (h : MachineInv s) {m : Move} (hs : moveStep img s m = .ok s') :
    MachineInv s' ∧ ∀ t, s.execs t ≠ none → (Resumes s.kernel m t → Resumed s s' t) ∧
      (¬Resumes s.kernel m t → ¬Advances s.kernel m t → ¬Turns s.kernel m t → Spares s s' t) := by
  cases m with
  | advance =>
    have hno : ∀ t, ¬Resumes s.kernel .advance t := by
      rintro t ⟨r, he, -⟩
      cases he
    rw [moveStep] at hs
    split at hs
    · rw [Outcome.ok.injEq] at hs
      subst hs
      exact ⟨h, fun t _ => ⟨fun hr => absurd hr (hno t), fun _ _ _ => ⟨rfl, rfl, fun hcurr => ⟨hcurr, rfl⟩⟩⟩⟩
    · rename_i y hy
      refine ⟨machineInv_advance h hy hs, fun t _ => ⟨fun hr => absurd hr (hno t), fun _ ha _ => ?_⟩⟩
      exact advance_spares hs (fun he => ha ⟨rfl, he.symm⟩)
  | restart r =>
    have hno : ∀ t, ¬Resumes s.kernel (.restart r) t := by
      rintro t ⟨r', he, -⟩
      cases he
    have hsame : s' = s → MachineInv s' ∧ ∀ t, s.execs t ≠ none → (Resumes s.kernel (.restart r) t → Resumed s s' t) ∧
        (¬Resumes s.kernel (.restart r) t → ¬Advances s.kernel (.restart r) t → ¬Turns s.kernel (.restart r) t → Spares s s' t) := by
      rintro rfl
      exact ⟨h, fun t _ => ⟨fun hr => absurd hr (hno t), fun _ _ _ => ⟨rfl, rfl, fun hcurr => ⟨hcurr, rfl⟩⟩⟩⟩
    rw [moveStep] at hs
    split at hs
    · exact hsame (Outcome.ok.inj hs).symm
    · rename_i y hy
      split at hs
      · rename_i hp
        obtain ⟨hinv, hspares⟩ := machineInv_again h hy hp hs
        exact ⟨hinv, fun t _ => ⟨fun hr => absurd hr (hno t), fun _ _ ht => hspares t (fun he => ht ⟨⟨r, rfl⟩, he.symm⟩)⟩⟩
      · exact hsame (Outcome.ok.inj hs).symm
  | event e =>
    unfold moveStep at hs
    dsimp only at hs
    have hquiet : (∀ t r, e ≠ .schedule t r) → (∀ t, s.execs t ≠ none → Spares s s' t) → ∀ t, s.execs t ≠ none →
        (Resumes s.kernel (.event e) t → Resumed s s' t) ∧
          (¬Resumes s.kernel (.event e) t → ¬Advances s.kernel (.event e) t → ¬Turns s.kernel (.event e) t → Spares s s' t) := by
      intro he hsp t ht
      refine ⟨?_, fun _ _ _ => hsp t ht⟩
      rintro ⟨r, hr, -⟩
      rw [Move.event.injEq] at hr
      exact absurd hr (he t r)
    split at hs
    · rename_i hcall
      rw [Outcome.ok.injEq] at hs
      subst hs
      refine ⟨h, hquiet ?_ (fun t _ => ⟨rfl, rfl, fun hcurr => ⟨hcurr, rfl⟩⟩)⟩
      rintro t r rfl
      cases hcall.1
    · rename_i hcall
      have hidle : e.isCall = true → s.execs s.kernel.currTerm = none :=
        fun he => Option.not_isSome_iff_eq_none.mp (fun hx => hcall ⟨he, hx⟩)
      cases e with
      | execute command r =>
        obtain ⟨hinv, hsp⟩ := machineInv_begin h (hidle rfl) hs
        exact ⟨hinv, hquiet (fun _ _ he => by cases he) hsp⟩
      | halt status r =>
        obtain ⟨hinv, hsp⟩ := machineInv_halt h (hidle rfl) hs
        exact ⟨hinv, hquiet (fun _ _ he => by cases he) hsp⟩
      | schedule newTerm r =>
        unfold kernelStep at hs
        rw [Outcome.map_eq_ok] at hs
        obtain ⟨k₁, hk, rfl⟩ := hs
        obtain ⟨hinv, hresumed, hspares⟩ := machineInv_schedule h hk
        refine ⟨hinv, fun t _ => ⟨?_, fun hno _ _ => hspares t ?_⟩⟩
        · rintro ⟨r', he, hlock, hact⟩
          rw [Move.event.injEq, Event.schedule.injEq] at he
          obtain ⟨rfl, -⟩ := he
          exact hresumed hlock hact
        · rintro ⟨rfl, hlock, hact⟩
          exact hno ⟨r, rfl, hlock, hact⟩
      | _ =>
        obtain ⟨hinv, hsp⟩ := machineInv_kernelStep h (fun _ _ he => by cases he) (fun _ _ he => by cases he)
          (fun _ _ he => by cases he) hs
        exact ⟨hinv, hquiet (fun _ _ he => by cases he) hsp⟩

theorem machineInv_boot (m : CPtr) (p : Addr → PCB) : MachineInv (Machine.boot m p) := by
  refine ⟨⟨fun u => ?_, ?_, fun _ _ _ => rfl⟩, fun _ => ⟨rfl, fun _ => rfl⟩⟩
  · have hptr : topPtr (Machine.boot m p).kernel u = none := by
      unfold topPtr
      split
      · rfl
      · rfl
    rw [hptr]
    exact ⟨Nat.zero_le _, Nat.le_refl 0, fun i hi => absurd hi (Nat.not_lt_zero i), Or.inl rfl, fun y a hy => by cases hy⟩
  · simp [Machine.boot, boot]

/-- The stacks are right in every state the machine reaches. -/
theorem machineInv_reachable {m : CPtr} {p : Addr → PCB} (hr : Reachable (moveStep img) (Machine.boot m p) s) : MachineInv s :=
  Reachable.invariant (fun _ _ _ h hs => (machineInv_moveStep h hs).1) (machineInv_boot m p) hr

end PreemptionAux

end ThreeTermOS
