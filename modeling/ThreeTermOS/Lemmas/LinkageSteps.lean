import ThreeTermOS.Lemmas.Linkage

/-!
# Every step keeps the pending calls linked

`execute_func` takes its steps and the process it starts is owed its return; a process ends and its return is on the way; everything
else leaves the calls alone. `linked_step` assembles these.
-/

namespace ThreeTermOS

open Bytes Chain Runs

namespace LinkageAux

open ProcessAux PreemptionAux TablesAux

variable {c c' : SysMachine} {img : Image} {e : SysEvent} {p : SysPhase} {r : Residue} {s s' : Machine} {t u : Term} {n : Nat}
  {a : Addr} {y : Exec}

/-! ### Calls of execute_func -/

theorem begun_some {x : Exec} (hx : s.execs c.machine.kernel.currTerm = some x) :
    c.begun s =
      { c with
        machine := s
        calls := c.calls + 1
        call := Function.update c.call c.machine.kernel.currTerm c.calls
        caller := Function.update c.caller c.calls c.machine.kernel.currPcbPtr } := by
  unfold SysMachine.begun
  dsimp only
  rw [if_pos (by rw [hx]; rfl)]

/-- `execute_func` called by the kernel itself returns -1. -/
theorem begun_none (hx : s.execs c.machine.kernel.currTerm = none) (hp : c.phase c.machine.kernel.currTerm = .inKernel) :
    c.begun s = { c with machine := s } := by
  unfold SysMachine.begun
  dsimp only
  rw [if_neg (by rw [hx]; nofun), hp]

/-- `execute_func` passes its checks: the call gets a number, and the process that makes it goes on waiting. -/
theorem linked_begin (h : Linked c) {x : Exec} (hidle : c.machine.execs c.machine.kernel.currTerm = none)
    (hmay : (c.phase c.machine.kernel.currTerm).mayExecute = true) (hm : MachineInv s)
    (hexecs : s.execs = Function.update c.machine.execs c.machine.kernel.currTerm (some x)) (hpoint : x.point = .mapProgPage)
    (hnext : s.kernel.nextPId = c.machine.kernel.nextPId) (hcells : s.kernel.haltRetval = c.machine.kernel.haltRetval) :
    Linked (c.begun s) := by
  have hexec : s.execs c.machine.kernel.currTerm = some x := by
    rw [hexecs]
    exact Function.update_self _ _ _
  have hbegun := begun_some hexec
  have hentered : enteredProgs s c.machine.kernel.currTerm = enteredProgs c.machine c.machine.kernel.currTerm := by
    rw [enteredProgs_some hexec, enteredProgs_none hidle]
    unfold taken
    rw [hexec, hnext, weight_some, hpoint]
    rfl
  have hk : KeepsCalls c (c.begun s) := by
    rw [hbegun]
    exact ⟨Nat.le_succ _, fun n hn => Function.update_of_ne (Nat.ne_of_lt hn) _ _, rfl⟩
  have hterm := h.terms c.machine.kernel.currTerm
  rw [hbegun] at hk ⊢
  refine linked_local (t := c.machine.kernel.currTerm) h hm ⟨fun _ _ => rfl, fun u hu => ?_, fun u _ => ?_, fun u _ => ?_,
    fun _ _ => rfl, fun u hu => Function.update_of_ne hu _ _⟩ hk h.frames ⟨fun _ => hmay, fun y hy hun => ?_, ?_, ?_, ?_, fun _ => ?_, ?_⟩
  · dsimp only
    rw [hexecs, Function.update_of_ne hu]
  · dsimp only
    rw [hnext]
  · dsimp only
    rw [hcells]
  · dsimp only at hy
    rw [hexec, Option.some.injEq] at hy
    subst hy
    rw [hpoint] at hun
    cases hun
  · dsimp only
    rw [hentered]
    exact hterm.alive
  · dsimp only
    rw [hexec, hcells]
    have hcell := hterm.cell
    rw [hidle] at hcell
    cases hp : c.phase c.machine.kernel.currTerm with
    | inKernel =>
      intro y hy hiret
      rw [Option.some.injEq] at hy
      subst hy
      rw [hpoint] at hiret
      cases hiret
    | _ =>
      rw [hp] at hcell
      exact hcell
  · dsimp only
    rw [hentered]
    exact fun i hi => owed_keep (hterm.chain i hi) hk
  · dsimp only
    rw [hentered]
    intro i hi
    refine ⟨?_, ?_, fun rt hrt heq => ?_⟩
    · rw [Function.update_self]
      exact Nat.lt_succ_self _
    · dsimp only
      rw [Function.update_self, Function.update_self]
      exact top_of_entered h.machine hidle hi
    · rw [Function.update_self] at heq
      exact absurd (h.answered rt hrt).made (by rw [heq]; exact Nat.lt_irrefl _)
  · dsimp only
    rw [hentered]
    intro e he
    obtain ⟨hown, hpend⟩ := hterm.ended e he
    exact ⟨hown, fun i hi => owed_keep (hpend i hi) hk⟩

/-- A step of the machine that leaves the calls, the counters and the cells alone. -/
theorem linked_keep (h : Linked c) (hm : MachineInv s) (hexecs : s.execs = c.machine.execs)
    (hnext : s.kernel.nextPId = c.machine.kernel.nextPId) (hcells : s.kernel.haltRetval = c.machine.kernel.haltRetval) :
    Linked { c with machine := s } := by
  refine ⟨hm, fun u => ?_, h.frames, fun rt hrt => answered_keep (h.answered rt hrt) (Nat.le_refl _) (fun _ _ => rfl), h.once⟩
  refine termLinked_congr (h.terms u) rfl ?_ ?_ ?_ rfl rfl (fun n i _ ho => ⟨ho.made, ho.caller, ho.pending⟩)
  · dsimp only
    rw [hexecs]
  · dsimp only
    rw [hnext]
  · dsimp only
    rw [hcells]

/-- `execute_func` returns -1 at its checks: to the handler, or to the kernel. -/
theorem linked_refused (h : Linked c) (hidle : c.machine.execs c.machine.kernel.currTerm = none) (hm : MachineInv s)
    (hexecs : s.execs = c.machine.execs) (hnext : s.kernel.nextPId = c.machine.kernel.nextPId)
    (hcells : s.kernel.haltRetval = c.machine.kernel.haltRetval) : Linked (c.begun s) := by
  unfold SysMachine.begun
  dsimp only
  rw [if_neg (by rw [hexecs, hidle]; nofun)]
  split
  · rename_i eax ebx hp
    have hcell := cell_of_phase h hp
    refine linked_goto h hidle (entered_of_phase h (by rw [hp]; nofun) (by rw [hp]; nofun)) hm hexecs hnext ?_ rfl
      ⟨rfl, rfl, rfl, rfl, rfl, rfl⟩ ?_ (fun e he => by cases he)
    · intro u _
      dsimp only
      rw [hcells]
    · dsimp only
      rw [hcells]
      exact hcell
  · exact linked_keep h hm hexecs hnext hcells

/-- A call of `execute_func`, by a program or by the kernel. -/
theorem linked_execute (h : Linked c) {command : CPtr} (hidle : c.machine.execs c.machine.kernel.currTerm = none)
    (hmay : (c.phase c.machine.kernel.currTerm).mayExecute = true)
    (hs : moveStep img c.machine (.event (.execute command r)) = .ok s) : Linked (c.begun s) := by
  have hm := (machineInv_moveStep h.machine hs).1
  cases tableStep_moveStep h.machine hs with
  | keep _ next total execs args retval => exact linked_refused h hidle hm execs next retval
  | begin _ _ d _ check kernel execs => exact linked_begin h hidle hmay hm execs rfl (by rw [kernel]) (by rw [kernel])
  | launch _ dest opens unused idle next total execs args retval =>
    obtain ⟨e, r', he, hreq, -⟩ := opens
    cases he
    cases hreq

/-- A step of `execute_func` other than its last goes on to the next. -/
theorem goto_of_advance (hs : advance img s y = .ok s') (hp : y.point ≠ .iret) : ∃ k q, s' = s.goto y k q := by
  rcases advance_goes hs with ⟨k, q, -, he⟩ | ⟨hiret, -⟩
  · exact ⟨k, q, he⟩
  · exact absurd hiret hp

/-- A step of `execute_func` before the new process is entered. -/
theorem linked_advance (h : Linked c) (hx : c.machine.execs c.machine.kernel.currTerm = some y) (hp : y.point ≠ .iret)
    (hm : MachineInv s') (hs : advance img c.machine y = .ok s') : Linked { c with machine := s' } := by
  obtain ⟨hcells, hiret⟩ := haltRetval_advance hs
  have htaken := taken_advance hx hs c.machine.kernel.currTerm
  obtain ⟨k, q, hgoto⟩ := goto_of_advance hs hp
  have hexec : s'.execs c.machine.kernel.currTerm = some { y with point := q } := by
    rw [hgoto]
    exact Function.update_self _ _ _
  have hentered : enteredProgs s' c.machine.kernel.currTerm = enteredProgs c.machine c.machine.kernel.currTerm := by
    rw [enteredProgs_some hexec, enteredProgs_some hx, htaken]
  have hk : KeepsCalls c { c with machine := s' } := ⟨Nat.le_refl _, fun _ _ => rfl, rfl⟩
  have hterm := h.terms c.machine.kernel.currTerm
  have hmay := hterm.under (by rw [hx]; nofun)
  -- the cell is cleared on the way, or holds what it held
  have hcell : s'.kernel.haltRetval c.machine.kernel.currTerm = c.machine.kernel.haltRetval c.machine.kernel.currTerm ∨
      s'.kernel.haltRetval c.machine.kernel.currTerm = 0 := by
    rw [hcells]
    split
    · exact Or.inr (Function.update_self _ _ _)
    · exact Or.inl rfl
  refine linked_local (t := c.machine.kernel.currTerm) h hm ⟨fun _ _ => rfl, fun u hu => (advance_spares hs hu).exec,
    fun u hu => (advance_spares hs hu).next, fun u hu => ?_, fun _ _ => rfl, fun _ _ => rfl⟩ hk h.frames
    ⟨fun _ => hmay, fun z hz hun => ?_, ?_, ?_, ?_, fun _ => ?_, ?_⟩
  · dsimp only
    rw [hcells]
    split
    · exact Function.update_of_ne hu _ _
    · rfl
  · dsimp only at hz ⊢
    unfold taken at htaken
    rw [hz, hx, weight_some, weight_some, hun] at htaken
    have hcount := hterm.counted y hx
    by_cases hzero : y.point.uncounted = 0
    · have hpos := hcount hzero
      omega
    · omega
  · dsimp only
    rw [hentered]
    exact hterm.alive
  · dsimp only
    have hbefore := hterm.cell
    cases hphase : c.phase c.machine.kernel.currTerm with
    | inKernel =>
      intro z hz hziret
      rw [hcells, if_pos (hiret z hz hziret)]
      exact Function.update_self _ _ _
    | calling eax ebx =>
      rw [hphase] at hbefore
      rcases hcell with hsame | hzero
      · exact hsame.trans hbefore
      · exact hzero
    | _ =>
      rw [hphase] at hmay
      cases hmay
  · dsimp only
    rw [hentered]
    exact fun i hi => owed_keep (hterm.chain i hi) hk
  · dsimp only
    rw [hentered]
    exact fun i hi => owed_keep (hterm.call (by rw [hx]; nofun) i hi) hk
  · dsimp only
    rw [hentered]
    intro e he
    obtain ⟨hown, hpend⟩ := hterm.ended e he
    exact ⟨hown, fun i hi => owed_keep (hpend i hi) hk⟩

/-- The last step of `execute_func`: the new process's stack pointers lead back to the call, which its caller now waits in. -/
theorem linked_iret (h : Linked c) (hx : c.machine.execs c.machine.kernel.currTerm = some y) (hp : y.point = .iret)
    (hm : MachineInv s') (hs : advance img c.machine y = .ok s') : Linked (c.advanced s') := by
  have hterm := h.terms c.machine.kernel.currTerm
  have hmay := hterm.under (by rw [hx]; nofun)
  obtain ⟨n, hn⟩ := Nat.exists_eq_succ_of_ne_zero (Nat.ne_of_gt (hterm.counted y hx (by rw [hp]; rfl)))
  have hok := h.machine.terms c.machine.kernel.currTerm
  rw [hx, topPtr_self] at hok
  have hbound := hok.bound
  rw [weight_some, hp] at hbound
  have htop : c.machine.kernel.currPcbPtr = some (pcbAt c.machine.kernel.currTerm n) := by
    have hcur := hok.cur
    rw [weight_some, weight_some, hp, hn] at hcur
    rcases hcur with hcur | ⟨hzero, -⟩
    · exact hcur
    · cases hzero
  have hcell : c.machine.kernel.haltRetval c.machine.kernel.currTerm = 0 := by
    have hbefore := hterm.cell
    cases hphase : c.phase c.machine.kernel.currTerm with
    | inKernel =>
      rw [hphase] at hbefore
      exact hbefore y hx hp
    | calling eax ebx =>
      rw [hphase] at hbefore
      exact hbefore
    | _ =>
      rw [hphase] at hmay
      cases hmay
  -- before the step the new process counts in `next_p_id` but has not been entered
  have hbefore : enteredProgs c.machine c.machine.kernel.currTerm = n := by
    unfold enteredProgs
    rw [hx, hn]
    dsimp only
    rw [hp]
    rfl
  have hstep : s' = { c.machine with execs := Function.update c.machine.execs c.machine.kernel.currTerm none } := by
    rcases advance_goes hs with ⟨k, p, hgoes, -⟩ | ⟨-, he⟩
    · rw [hp] at hgoes
      cases hgoes
    · exact he
  have hnone : s'.execs c.machine.kernel.currTerm = none := by
    rw [hstep]
    exact Function.update_self _ _ _
  have hafter : enteredProgs s' c.machine.kernel.currTerm = n + 1 := by
    rw [enteredProgs_none hnone, hstep]
    exact hn
  have hadvanced : c.advanced s' =
      { c.goto .user with
        machine := s'
        frame := Function.update c.frame (pcbAt c.machine.kernel.currTerm n) (c.call c.machine.kernel.currTerm)
        startedBy := Function.update c.startedBy c.machine.kernel.currTerm
          (Function.update (c.startedBy c.machine.kernel.currTerm) n (c.call c.machine.kernel.currTerm)) } := by
    unfold SysMachine.advanced
    dsimp only
    rw [hx, htop]
    dsimp only
    rw [if_pos hp, hn, Nat.succ_sub_one]
  rw [hadvanced]
  refine linked_local (t := c.machine.kernel.currTerm) h hm ⟨fun u hu => Function.update_of_ne hu _ _, fun u hu => ?_,
    fun u _ => by rw [hstep], fun u _ => by rw [hstep], fun u hu => Function.update_of_ne hu _ _, fun _ _ => rfl⟩
    ⟨Nat.le_refl _, fun _ _ => rfl, rfl⟩ (fun u i hi => ?_)
    ⟨fun hne => absurd hnone hne, fun z hz => ?_, fun huser => ?_, ?_, fun i hi => ?_, fun hne => absurd hnone hne, fun e he => ?_⟩
  · rw [hstep]
    exact Function.update_of_ne hu _ _
  · dsimp only
    by_cases hu : u = c.machine.kernel.currTerm
    · rw [hu, Function.update_self]
      by_cases hin : i = n
      · rw [hin, Function.update_self, Function.update_self]
      · rw [Function.update_of_ne hin, Function.update_of_ne (pcbAt_ne_of_pid hi (by omega) hin)]
        exact h.frames _ i hi
    · rw [Function.update_of_ne hu, Function.update_of_ne (pcbAt_ne_of_term hi (by omega) hu)]
      exact h.frames u i hi
  · dsimp only at hz
    rw [hnone] at hz
    cases hz
  · exact absurd (Function.update_self _ _ _) huser
  · have hself : (c.goto .user).phase c.machine.kernel.currTerm = .user := Function.update_self _ _ _
    dsimp only
    rw [hself, hnone, hstep]
    exact hcell
  · dsimp only at hi ⊢
    rw [hafter] at hi
    rw [Function.update_self]
    by_cases hin : i + 1 = n
    · rw [hin, Function.update_self]
      have howed := hterm.call (by rw [hx]; nofun) i (by rw [hbefore, hin])
      exact ⟨howed.made, howed.caller, howed.pending⟩
    · rw [Function.update_of_ne hin]
      have howed := hterm.chain i (by rw [hbefore]; omega)
      exact ⟨howed.made, howed.caller, howed.pending⟩
  · have hself : (c.goto .user).phase c.machine.kernel.currTerm = .user := Function.update_self _ _ _
    dsimp only at he
    rw [hself] at he
    cases he

/-! ### The end of a process -/

theorem haltFunc_eq {a b : Addr} {k : Kernel} (img : Image) (r : Residue) (hc : k.currPcbPtr = some a)
    (hp : (k.pcbs a).parent = some b) (status : UInt8) : haltFunc img k status r = .ok (clearRetval (haltToParent k a b)) := by
  unfold haltFunc haltToParent
  simp only [hc, hp]

theorem sameProcs_unclear (k : Kernel) : SameProcs (clearRetval k) k := ⟨rfl, rfl, rfl, rfl, rfl, rfl, rfl, rfl⟩

/-- `halt_func` of a process with a parent keeps the invariant of the machine. -/
theorem machineInv_haltToParent (h : MachineInv s) (hidle : s.execs s.kernel.currTerm = none) {a b : Addr}
    (hc : s.kernel.currPcbPtr = some a) (hp : (s.kernel.pcbs a).parent = some b) (r : Residue) (img : Image) :
    MachineInv { s with kernel := haltToParent s.kernel a b } := by
  have hstep : haltStep img s 0 r = .ok { s with kernel := clearRetval (haltToParent s.kernel a b) } := by
    have hhalt := haltFunc_eq img r hc hp 0
    unfold haltStep kernelStep
    simp only [hc, hp, reduceCtorEq, if_false, step, hhalt]
    rfl
  have hm := (machineInv_halt h hidle hstep).1
  exact (machineInv_sameProcs hm (sameProcs_unclear _) rfl).1

theorem nextPId_haltToParent (k : Kernel) (a b : Addr) :
    (haltToParent k a b).nextPId = Function.update k.nextPId k.currTerm (k.nextPId k.currTerm - 1) := rfl

theorem haltRetval_haltToParent (k : Kernel) (a b : Addr) : (haltToParent k a b).haltRetval = k.haltRetval := rfl

/-- A process ends that has a parent: the call that its stack pointers lead back to is the one that started it, and is pending. -/
theorem linked_toParent (h : Linked c) {ending : Ending} (hidle : c.machine.execs c.machine.kernel.currTerm = none)
    (hcell : c.machine.kernel.haltRetval c.machine.kernel.currTerm = ending.delivered) {n : Nat} {b : Addr}
    (hn : enteredProgs c.machine c.machine.kernel.currTerm = n + 2)
    (hparent : (c.machine.kernel.pcbs (pcbAt c.machine.kernel.currTerm (n + 1))).parent = some b) (r : Residue) (img : Image) :
    Linked { c.goto (.returnHere
        { call := c.frame (pcbAt c.machine.kernel.currTerm (n + 1))
          startedBy := c.startedBy c.machine.kernel.currTerm (c.machine.kernel.nextPId c.machine.kernel.currTerm - 1)
          ending := ending }) with
      machine := { c.machine with kernel := haltToParent c.machine.kernel (pcbAt c.machine.kernel.currTerm (n + 1)) b } } := by
  have hterm := h.terms c.machine.kernel.currTerm
  have htop := top_of_entered h.machine hidle hn
  have hnext : c.machine.kernel.nextPId c.machine.kernel.currTerm = n + 2 := by
    rw [← enteredProgs_none hidle]
    exact hn
  have hle := enteredProgs_le h.machine c.machine.kernel.currTerm
  have hm := machineInv_haltToParent h.machine hidle htop hparent r img
  have hlast := nextPId_haltToParent c.machine.kernel (pcbAt c.machine.kernel.currTerm (n + 1)) b
  have hcells := haltRetval_haltToParent c.machine.kernel (pcbAt c.machine.kernel.currTerm (n + 1)) b
  generalize haltToParent c.machine.kernel (pcbAt c.machine.kernel.currTerm (n + 1)) b = k' at hm hlast hcells ⊢
  rw [hnext, h.frames _ (n + 1) (by omega)]
  have hentered : enteredProgs { c.machine with kernel := k' } c.machine.kernel.currTerm = n + 1 := by
    refine (enteredProgs_none (s := { c.machine with kernel := k' }) hidle).trans ?_
    dsimp only
    rw [hlast, Function.update_self, hnext]
    rfl
  have hself : ∀ q, (c.goto q).phase c.machine.kernel.currTerm = q := fun q => Function.update_self _ _ _
  refine linked_local (t := c.machine.kernel.currTerm) h hm ⟨fun u hu => Function.update_of_ne hu _ _, fun _ _ => rfl,
    fun u hu => ?_, fun u _ => ?_, fun _ _ => rfl, fun _ _ => rfl⟩ ⟨Nat.le_refl _, fun _ _ => rfl, rfl⟩ h.frames
    ⟨fun hx => absurd hidle hx, fun y hy => ?_, fun _ _ => ?_, ?_, fun i hi => ?_, fun hx => absurd hidle hx, fun e he => ?_⟩
  · dsimp only
    rw [hlast, Function.update_of_ne hu]
  · dsimp only
    rw [hcells]
  · dsimp only at hy
    rw [hidle] at hy
    cases hy
  · dsimp only
    rw [hentered]
    exact Nat.succ_pos n
  · dsimp only
    rw [hself, hcells]
    exact hcell
  · dsimp only at hi ⊢
    rw [hentered] at hi
    have howed := hterm.chain i (by omega)
    exact ⟨howed.made, howed.caller, howed.pending⟩
  · dsimp only at he ⊢
    rw [hself, SysPhase.ended, Option.some.injEq] at he
    subst he
    refine ⟨rfl, fun i hi => ?_⟩
    rw [hentered] at hi
    have hin : i = n := by omega
    subst hin
    have howed := hterm.chain i (by omega)
    exact ⟨howed.made, howed.caller, howed.pending⟩

/-- A process ends that has no parent: a shell is to take its place. -/
theorem linked_restart (h : Linked c) (hidle : c.machine.execs c.machine.kernel.currTerm = none)
    (hone : enteredProgs c.machine c.machine.kernel.currTerm = 1) {status : UInt8}
    (hs : moveStep img c.machine (.event (.halt status r)) = .ok s) : Linked ((c.goto .inKernel).begun s) := by
  have hm := (machineInv_moveStep h.machine hs).1
  have hself : (c.goto .inKernel).phase c.machine.kernel.currTerm = .inKernel := Function.update_self _ _ _
  have hnext : c.machine.kernel.nextPId c.machine.kernel.currTerm = 1 := by
    rw [← enteredProgs_none hidle]
    exact hone
  cases tableStep_moveStep h.machine hs with
  | keep _ next total execs args retval =>
    have hnone : s.execs c.machine.kernel.currTerm = none := by
      rw [execs]
      exact hidle
    rw [begun_none (c := c.goto .inKernel) hnone hself]
    refine linked_goto h hidle (by rw [hone]; exact Nat.one_pos) hm execs next (fun u _ => ?_) rfl ⟨rfl, rfl, rfl, rfl, rfl, rfl⟩
      (fun y hy => by cases hy) (fun e he => by cases he)
    dsimp only
    rw [retval]
  | pop _ _ n idle top two =>
    rw [hnext] at two
    cases two
  | launch _ dest opens =>
    obtain ⟨e, r', he, hreq, -⟩ := opens
    cases he
    cases hreq
  | restart _ _ x idle top one next total execs point args retval =>
    have hexec : s.execs c.machine.kernel.currTerm = some x := by
      rw [execs]
      exact Function.update_self _ _ _
    have hzero : enteredProgs s c.machine.kernel.currTerm = 0 := by
      rw [enteredProgs_some hexec]
      unfold taken
      rw [hexec, next, Function.update_self, weight_some, point]
      rfl
    rw [begun_some (c := c.goto .inKernel) hexec]
    refine linked_local (t := c.machine.kernel.currTerm) h hm ⟨fun u hu => Function.update_of_ne hu _ _, fun u hu => ?_, fun u hu => ?_,
      fun u _ => by rw [retval], fun _ _ => rfl, fun u hu => Function.update_of_ne hu _ _⟩
      ⟨Nat.le_succ _, fun n hn => Function.update_of_ne (Nat.ne_of_lt hn) _ _, rfl⟩ h.frames
      ⟨fun _ => ?_, fun y hy hun => ?_, fun _ hkernel => absurd hself hkernel, ?_, fun i hi => ?_, fun _ i hi => ?_, fun e he => ?_⟩
    · rw [execs, Function.update_of_ne hu]
    · rw [next, Function.update_of_ne hu]
    · dsimp only
      rw [hself]
      rfl
    · dsimp only at hy
      rw [hexec, Option.some.injEq] at hy
      subst hy
      rw [point] at hun
      cases hun
    · dsimp only
      rw [hself, hexec]
      intro y hy hiret
      rw [Option.some.injEq] at hy
      subst hy
      rw [point] at hiret
      cases hiret
    · dsimp only at hi
      rw [hzero] at hi
      omega
    · dsimp only at hi
      rw [hzero] at hi
      omega
    · dsimp only at he
      rw [hself] at he
      cases he

/-- The shell in the place of a process that has ended is refused, or its `execute_func` passes its checks. -/
theorem linked_again (h : Linked c) (hs : moveStep img c.machine (.restart r) = .ok s) : Linked { c with machine := s } := by
  have hm := (machineInv_moveStep h.machine hs).1
  have htable := tableStep_moveStep h.machine hs
  generalize hmove : Move.restart r = m at htable
  cases htable with
  | keep _ next total execs args retval => exact linked_keep h hm execs next retval
  | launch _ dest opens =>
    obtain ⟨e, r', he, -⟩ := opens
    rw [← hmove] at he
    cases he
  | again _ y x d under waits check next total execs point args retval =>
    have hexec : s.execs c.machine.kernel.currTerm = some x := by
      rw [execs]
      exact Function.update_self _ _ _
    have hentered : enteredProgs s c.machine.kernel.currTerm = enteredProgs c.machine c.machine.kernel.currTerm := by
      rw [enteredProgs_some hexec, enteredProgs_some under]
      unfold taken
      rw [hexec, under, next, weight_some, weight_some, point, waits]
      rfl
    have hk : KeepsCalls c { c with machine := s } := ⟨Nat.le_refl _, fun _ _ => rfl, rfl⟩
    have hterm := h.terms c.machine.kernel.currTerm
    have hmay := hterm.under (by rw [under]; nofun)
    refine linked_local (t := c.machine.kernel.currTerm) h hm ⟨fun _ _ => rfl, fun u hu => ?_, fun u _ => ?_, fun u _ => ?_,
      fun _ _ => rfl, fun _ _ => rfl⟩ hk h.frames ⟨fun _ => hmay, fun z hz hun => ?_, ?_, ?_, ?_, fun _ => ?_, ?_⟩
    · dsimp only
      rw [execs, Function.update_of_ne hu]
    · dsimp only
      rw [next]
    · dsimp only
      rw [retval]
    · dsimp only at hz
      rw [hexec, Option.some.injEq] at hz
      rw [← hz, point] at hun
      cases hun
    · dsimp only
      rw [hentered]
      exact hterm.alive
    · dsimp only
      rw [hexec, retval]
      have hcell := hterm.cell
      cases hphase : c.phase c.machine.kernel.currTerm with
      | inKernel =>
        intro z hz hiret
        rw [Option.some.injEq] at hz
        rw [← hz, point] at hiret
        cases hiret
      | calling eax ebx =>
        rw [hphase] at hcell
        exact hcell
      | _ =>
        rw [hphase] at hmay
        cases hmay
    · dsimp only
      rw [hentered]
      exact fun i hi => owed_keep (hterm.chain i hi) hk
    · dsimp only
      rw [hentered]
      exact fun i hi => owed_keep (hterm.call (by rw [under]; nofun) i hi) hk
    · dsimp only
      rw [hentered]
      intro e he
      obtain ⟨hown, hpend⟩ := hterm.ended e he
      exact ⟨hown, fun i hi => owed_keep (hpend i hi) hk⟩
  | _ => cases hmove

theorem linked_endProcess (h : Linked c) {ending : Ending} (hidle : c.machine.execs c.machine.kernel.currTerm = none)
    (halive : 0 < enteredProgs c.machine c.machine.kernel.currTerm)
    (hcell : c.machine.kernel.haltRetval c.machine.kernel.currTerm = ending.delivered)
    (hs : endProcess img c ending r = .ok c') : Linked c' := by
  obtain ⟨n, hn⟩ := Nat.exists_eq_succ_of_ne_zero (Nat.ne_of_gt halive)
  have htop := top_of_entered h.machine hidle hn
  have hnext := enteredProgs_none hidle
  rw [hn] at hnext
  have hok := h.machine.terms c.machine.kernel.currTerm
  rw [hidle, topPtr_self] at hok
  have hparent := (hok.links n (by rw [← hnext]; exact Nat.lt_succ_self n)).parent
  unfold endProcess at hs
  dsimp only at hs
  rw [htop] at hs
  dsimp only at hs
  cases n with
  | zero =>
    rw [top_zero] at hparent
    rw [hparent] at hs
    dsimp only at hs
    rw [Outcome.map_eq_ok] at hs
    obtain ⟨s, hmove, rfl⟩ := hs
    exact linked_restart h hidle hn hmove
  | succ m =>
    rw [top_succ] at hparent
    rw [hparent] at hs
    dsimp only at hs
    rw [Outcome.ok.injEq] at hs
    subst hs
    exact linked_toParent h hidle hcell hn hparent r img

/-! ### Every step -/

/-- An event of the machine other than a program's calls of `execute_func` and `halt_func`. -/
theorem linked_event (h : Linked c) {e : Event} (hexec : ∀ command r, e ≠ .execute command r) (hhalt : ∀ status r, e ≠ .halt status r)
    (hs : moveStep img c.machine (.event e) = .ok s) : Linked { c with machine := s } := by
  have hm := (machineInv_moveStep h.machine hs).1
  have htable := tableStep_moveStep h.machine hs
  generalize hmove : Move.event e = m at htable
  cases htable with
  | keep _ next total execs args retval => exact linked_keep h hm execs next retval
  | advance => cases hmove
  | begin command r =>
    rw [Move.event.injEq] at hmove
    exact absurd hmove (hexec command r)
  | pop status r =>
    rw [Move.event.injEq] at hmove
    exact absurd hmove (hhalt status r)
  | restart status r =>
    rw [Move.event.injEq] at hmove
    exact absurd hmove (hhalt status r)
  | again => cases hmove
  | launch _ dest opens unused idle next total execs args retval =>
    have hterm := h.terms dest
    have hzero : enteredProgs c.machine dest = 0 := (enteredProgs_none idle).trans unused
    have hidle : s.execs dest = none := by
      rw [execs]
      exact idle
    have hone : enteredProgs s dest = 1 := by
      rw [enteredProgs_none hidle, next, Function.update_self]
    have hphase : c.phase dest = .user ∨ c.phase dest = .inKernel := by
      by_contra hno
      push Not at hno
      exact absurd (hterm.alive hno.1 hno.2) (by rw [hzero]; exact Nat.lt_irrefl 0)
    refine linked_local (t := dest) h hm ⟨fun _ _ => rfl, fun u _ => by rw [execs], fun u hu => ?_, fun u hu => ?_,
      fun _ _ => rfl, fun _ _ => rfl⟩ ⟨Nat.le_refl _, fun _ _ => rfl, rfl⟩ h.frames
      ⟨fun hx => absurd hidle hx, fun y hy => ?_, fun _ _ => ?_, ?_, fun i hi => ?_, fun hx => absurd hidle hx, fun e he => ?_⟩
    · rw [next, Function.update_of_ne hu]
    · rw [retval, Function.update_of_ne hu]
    · dsimp only at hy
      rw [hidle] at hy
      cases hy
    · dsimp only
      rw [hone]
      exact Nat.one_pos
    · dsimp only
      rw [hidle, retval, Function.update_self]
      rcases hphase with hp | hp
      · rw [hp]
        rfl
      · rw [hp]
        exact fun y hy => by cases hy
    · dsimp only at hi
      rw [hone] at hi
      omega
    · dsimp only at he
      rcases hphase with hp | hp
      · rw [hp] at he
        cases he
      · rw [hp] at he
        cases he

theorem idle_of_mayFault (h : Linked c) (hp : (c.phase t).mayFault = true) : c.machine.execs t = none := by
  refine idle_of_phase h ?_
  cases hphase : c.phase t with
  | user => rfl
  | calling eax ebx =>
    rw [hphase, SysPhase.mayFault, decide_eq_true_eq] at hp
    rw [SysPhase.mayExecute, decide_eq_false_iff_not]
    rintro rfl
    exact absurd hp (by decide)
  | _ =>
    rw [hphase] at hp
    cases hp

/-- An exception: the cell of the terminal holds what `execute_func` is to return. -/
theorem linked_fault (h : Linked c) (hp : (c.phase c.machine.kernel.currTerm).mayFault = true)
    (hrun : c.machine.kernel.currPcbPtr.isSome = true) :
    Linked { c.goto .faulting with
      machine := { c.machine with
        kernel := { c.machine.kernel with
          haltRetval := Function.update c.machine.kernel.haltRetval c.machine.kernel.currTerm exceptionRet } } } := by
  have hidle := idle_of_mayFault h hp
  have hprocs : SameProcs c.machine.kernel { c.machine.kernel with
      haltRetval := Function.update c.machine.kernel.haltRetval c.machine.kernel.currTerm exceptionRet } :=
    ⟨rfl, rfl, rfl, rfl, rfl, rfl, rfl, rfl⟩
  have hm := (machineInv_sameProcs h.machine hprocs rfl).1
  exact linked_goto h hidle (entered_of_running h.machine hidle hrun) hm rfl rfl (fun u hu => Function.update_of_ne hu _ _) rfl
    ⟨rfl, rfl, rfl, rfl, rfl, rfl⟩ (Function.update_self _ _ _) (fun e he => by cases he)

/-- A step of `execute_func`, or none with no call under way. -/
theorem linked_advanced (h : Linked c) (hs : moveStep img c.machine .advance = .ok s) : Linked (c.advanced s) := by
  have hm := (machineInv_moveStep h.machine hs).1
  rw [moveStep] at hs
  split at hs
  · rename_i hx
    rw [Outcome.ok.injEq] at hs
    subst hs
    have hadvanced : c.advanced c.machine = c := by
      unfold SysMachine.advanced
      dsimp only
      rw [hx]
    rw [hadvanced]
    exact h
  · rename_i y hx
    by_cases hp : y.point = .iret
    · exact linked_iret h hx hp hm hs
    · have hadvanced : c.advanced s = { c with machine := s } := by
        unfold SysMachine.advanced
        dsimp only
        rw [hx]
        cases c.machine.kernel.currPcbPtr with
        | none => rfl
        | some a => exact if_neg hp
      rw [hadvanced]
      exact linked_advance h hx hp hm hs

theorem linked_step (h : Linked c) (hs : sysStep img c e = .ok c') : Linked c' := by
  have hend : ∀ (ending : Ending) {r : Residue} {p : SysPhase}, c.phase c.machine.kernel.currTerm = p → p ≠ .user → p ≠ .inKernel →
      p.mayExecute = false → c.machine.kernel.haltRetval c.machine.kernel.currTerm = ending.delivered →
      endProcess img c ending r = .ok c' → Linked c' := by
    intro ending r p hp huser hkernel hmay hcell hends
    have hidle := idle_of_phase h (t := c.machine.kernel.currTerm) (by rw [hp]; exact hmay)
    have halive := entered_of_phase h (t := c.machine.kernel.currTerm) (by rw [hp]; exact huser) (by rw [hp]; exact hkernel)
    exact linked_endProcess h hidle halive hcell hends
  cases sysStep_way hs with
  | none e eq => exact eq ▸ h
  | handler eq => exact eq ▸ linked_handler h
  | int80 eax ebx phase running eq =>
    subst eq
    have hidle := idle_of_phase h (t := c.machine.kernel.currTerm) (by rw [phase]; rfl)
    exact linked_phase h hidle (entered_of_running h.machine hidle running) rfl rfl (sameCalls_goto c _) (cell_of_phase h phase)
      (fun e he => by cases he)
  | ret v eax ebx phase call eq =>
    subst eq
    refine linked_next h phase rfl rfl (sameCalls_goto c _) ?_ nofun nofun id (fun e he => by cases he)
    rw [SysPhase.mayExecute, decide_eq_false_iff_not]
    rintro rfl
    exact absurd call (by decide)
  | execute command r s phase idle move eq =>
    subst eq
    exact linked_execute h idle phase move
  | halt r ebx phase ends => exact hend (.halted ebx.toUInt32.toUInt8) phase nofun nofun rfl (cell_of_phase h phase) ends
  | fault phase running eq =>
    subst eq
    exact linked_fault h phase running
  | haltFaulted r phase ends => exact hend .faulted phase nofun nofun rfl (cell_of_phase h phase) ends
  | advance s move eq =>
    subst eq
    exact linked_advanced h move
  | restart r s move eq =>
    subst eq
    exact linked_again h move
  | event e s notExecute notHalt move eq =>
    subst eq
    exact linked_event h notExecute notHalt move

theorem linked_boot (m : CPtr) (p : Addr → PCB) : Linked (SysMachine.boot m p) := by
  have hidle : ∀ t, (SysMachine.boot m p).machine.execs t = none := fun _ => rfl
  have hzero : ∀ t, enteredProgs (SysMachine.boot m p).machine t = 0 := fun _ => rfl
  refine ⟨machineInv_boot m p, fun t => ⟨fun hx => absurd (hidle t) hx, fun y hy => ?_, fun huser hkernel => ?_, ?_, fun i hi => ?_,
    fun hx => absurd (hidle t) hx, fun e he => ?_⟩, fun _ _ _ => rfl, (fun rt hrt => by cases hrt), List.nodup_nil⟩
  · rw [hidle] at hy
    cases hy
  · rcases boot_phase m p t with hp | hp
    · exact absurd hp hkernel
    · exact absurd hp huser
  · rw [hidle]
    rcases boot_phase m p t with hp | hp
    · rw [hp]
      exact fun y hy => by cases hy
    · rw [hp]
      rfl
  · rw [hzero] at hi
    omega
  · rcases boot_phase m p t with hp | hp
    · rw [hp] at he
      cases he
    · rw [hp] at he
      cases he

end LinkageAux

/-! ## Runs of the small image -/

/-- The machine with its system calls, at boot over empty memory. -/
def sysBoot : SysMachine := SysMachine.boot (fun _ => 0) (fun _ => rootShellPCB)

/-- A call of `execute_func` for the shell of the small image, from its check to its `iret`. -/
def launchSteps : List SysEvent := .execute shellCommand zeroResidue :: List.replicate 17 .advance

end ThreeTermOS
