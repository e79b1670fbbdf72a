import ThreeTermOS.Lemmas.Tables
import ThreeTermOS.Linkage

/-!
# Pending calls of execute_func

Each process of a terminal that another one started is owed a return: the call of `execute_func` that started it, made by the
process below it, is waiting, and the process's `ESP` and `EBP` lead back to that call. `TermLinked` says so of one terminal, with
what its cell of `halt_retval` holds in each phase; like `TermOk` it looks only at that terminal's own part of the state.
-/

namespace ThreeTermOS

open Bytes Chain Runs

/-- What `execute_func` returns after a process that ended so. -/
def Ending.delivered : Ending → Nat
  | .halted _ => 0
  | .faulted => exceptionRet

/-- The process that has ended and whose `execute_func` has not returned yet. -/
def SysPhase.ended : SysPhase → Option Ended
  | .returnHere e => some e
  | .clearing e _ => some e
  | _ => none

/-- The processes of a terminal that have been entered. -/
def enteredProgs (s : Machine) (t : Term) : Nat :=
  match s.execs t with
  | none => s.kernel.nextPId t
  | some x => s.kernel.nextPId t + x.point.uncounted - 1

/-- What a terminal's cell of `halt_retval` holds. A shell that takes the place of one that faulted finds its cell cleared only
when it is entered. -/
def CellOk (p : SysPhase) (x : Option Exec) (cell : Nat) : Prop :=
  match p with
  | .faulting => cell = exceptionRet
  | .returnHere e => cell = e.ending.delivered
  | .clearing e oldRetval => oldRetval = e.ending.delivered
  | .inKernel => ∀ y, x = some y → y.point = .iret → cell = 0
  | _ => cell = 0

/-- A call of `execute_func` that the process at an address has made and that has not returned. -/
structure Owed (c : SysMachine) (n : Nat) (a : Addr) : Prop where
  made : n < c.calls
  caller : c.caller n = some a
  pending : ∀ rt ∈ c.returns, rt.ended.call ≠ n

/-- One terminal. -/
structure TermLinked (c : SysMachine) (t : Term) : Prop where
  under : c.machine.execs t ≠ none → (c.phase t).mayExecute = true
  counted : ∀ y, c.machine.execs t = some y → y.point.uncounted = 0 → 0 < c.machine.kernel.nextPId t
  alive : c.phase t ≠ .user → c.phase t ≠ .inKernel → 0 < enteredProgs c.machine t
  cell : CellOk (c.phase t) (c.machine.execs t) (c.machine.kernel.haltRetval t)
  chain : ∀ i, i + 1 < enteredProgs c.machine t → Owed c (c.startedBy t (i + 1)) (pcbAt t i)
  call : c.machine.execs t ≠ none → ∀ i, enteredProgs c.machine t = i + 1 → Owed c (c.call t) (pcbAt t i)
  ended : ∀ e, (c.phase t).ended = some e →
    e.call = e.startedBy ∧ ∀ i, enteredProgs c.machine t = i + 1 → Owed c e.call (pcbAt t i)

/-- A return: the call that started the process that ended, in the process that made the call, with the value for its end. -/
structure Answered (c : SysMachine) (rt : Return) : Prop where
  made : rt.ended.call < c.calls
  own : rt.ended.call = rt.ended.startedBy
  caller : c.caller rt.ended.call = rt.process
  process : rt.process.isSome = true
  value : rt.value = rt.ended.ending.delivered

/-- What the machine with its system calls keeps between steps. -/
structure Linked (c : SysMachine) : Prop where
  machine : MachineInv c.machine
  terms : ∀ t, TermLinked c t
  frames : ∀ t, ∀ i < maxProgs, c.frame (pcbAt t i) = c.startedBy t i
  answered : ∀ rt ∈ c.returns, Answered c rt
  once : (c.returns.map (fun rt => rt.ended.call)).Nodup

/-- The ways of a step. -/
inductive SysWay (img : Image) (c c' : SysMachine) : SysEvent → Prop where
  | none (e : SysEvent) (eq : c' = c) : SysWay img c c' e
  | int80 (eax ebx : Int32) (phase : c.phase c.machine.kernel.currTerm = .user)
      (running : c.machine.kernel.currPcbPtr.isSome = true) (eq : c' = c.goto (.entered eax ebx)) : SysWay img c c' (.int80 eax ebx)
  | handler (eq : c' = handlerStep c) : SysWay img c c' .handler
  | ret (v eax ebx : Int32) (phase : c.phase c.machine.kernel.currTerm = .calling eax ebx) (call : sysExecute < eax)
      (eq : c' = c.goto (.store v)) : SysWay img c c' (.ret v)
  | execute (command : CPtr) (r : Residue) (s : Machine) (phase : (c.phase c.machine.kernel.currTerm).mayExecute = true)
      (idle : c.machine.execs c.machine.kernel.currTerm = none)
      (move : moveStep img c.machine (.event (.execute command r)) = .ok s) (eq : c' = c.begun s) :
      SysWay img c c' (.execute command r)
  | halt (r : Residue) (ebx : Int32) (phase : c.phase c.machine.kernel.currTerm = .calling sysHalt ebx)
      (ends : endProcess img c (.halted ebx.toUInt32.toUInt8) r = .ok c') : SysWay img c c' (.halt r)
  | fault (phase : (c.phase c.machine.kernel.currTerm).mayFault = true) (running : c.machine.kernel.currPcbPtr.isSome = true)
      (eq : c' = { c.goto .faulting with
        machine := { c.machine with
          kernel := { c.machine.kernel with
            haltRetval := Function.update c.machine.kernel.haltRetval c.machine.kernel.currTerm exceptionRet } } }) :
      SysWay img c c' .fault
  | haltFaulted (r : Residue) (phase : c.phase c.machine.kernel.currTerm = .faulting)
      (ends : endProcess img c .faulted r = .ok c') : SysWay img c c' (.haltFaulted r)
  | advance (s : Machine) (move : moveStep img c.machine .advance = .ok s) (eq : c' = c.advanced s) : SysWay img c c' .advance
  | restart (r : Residue) (s : Machine) (move : moveStep img c.machine (.restart r) = .ok s) (eq : c' = { c with machine := s }) :
      SysWay img c c' (.restart r)
  | event (e : Event) (s : Machine) (notExecute : ∀ command r, e ≠ .execute command r) (notHalt : ∀ status r, e ≠ .halt status r)
      (move : moveStep img c.machine (.event e) = .ok s) (eq : c' = { c with machine := s }) : SysWay img c c' (.event e)

namespace LinkageAux

open ProcessAux PreemptionAux TablesAux

variable {c c' : SysMachine} {img : Image} {e : SysEvent} {p : SysPhase} {r : Residue} {s s' : Machine} {t u : Term} {n : Nat}
  {a : Addr} {y : Exec}

/-! ### A step -/

/-- Every step goes one of the ways named. -/
theorem sysStep_way (hs : sysStep img c e = .ok c') : SysWay img c c' e := by
  have hnone : ∀ {e : SysEvent}, (Outcome.ok c : Outcome Stop SysMachine) = .ok c' → SysWay img c c' e := by
    intro e h
    rw [Outcome.ok.injEq] at h
    exact .none e h.symm
  cases e with
  | handler =>
    rw [sysStep, Outcome.ok.injEq] at hs
    exact .handler hs.symm
  | int80 eax ebx =>
    rw [sysStep] at hs
    split at hs
    · rename_i hp
      rw [Outcome.ok.injEq] at hs
      exact .int80 eax ebx hp.1 hp.2 hs.symm
    · exact hnone hs
  | ret v =>
    rw [sysStep] at hs
    split at hs
    · rename_i eax ebx hp
      split at hs
      · rename_i heax
        rw [Outcome.ok.injEq] at hs
        exact .ret v eax ebx hp heax hs.symm
      · exact hnone hs
    · exact hnone hs
  | execute command r =>
    rw [sysStep] at hs
    split at hs
    · rename_i hp
      rw [Outcome.map_eq_ok] at hs
      obtain ⟨s, hmove, he⟩ := hs
      exact .execute command r s hp.1 hp.2 hmove he.symm
    · exact hnone hs
  | halt r =>
    rw [sysStep] at hs
    split at hs
    · rename_i eax ebx hp
      split at hs
      · rename_i heax
        subst heax
        exact .halt r ebx hp hs
      · exact hnone hs
    · exact hnone hs
  | fault =>
    rw [sysStep] at hs
    split at hs
    · rename_i hp
      rw [Outcome.ok.injEq] at hs
      exact .fault hp.1 hp.2 hs.symm
    · exact hnone hs
  | haltFaulted r =>
    rw [sysStep] at hs
    split at hs
    · rename_i hp
      exact .haltFaulted r hp hs
    · exact hnone hs
  | advance =>
    rw [sysStep, Outcome.map_eq_ok] at hs
    obtain ⟨s, hmove, he⟩ := hs
    exact .advance s hmove he.symm
  | restart r =>
    rw [sysStep, Outcome.map_eq_ok] at hs
    obtain ⟨s, hmove, he⟩ := hs
    exact .restart r s hmove he.symm
  | event e =>
    unfold sysStep at hs
    dsimp only at hs
    split at hs
    · exact hnone hs
    · exact hnone hs
    · rename_i hexec hhalt
      rw [Outcome.map_eq_ok] at hs
      obtain ⟨s, hmove, he⟩ := hs
      exact .event e s hexec hhalt hmove he.symm

/-- At boot the running process is in the kernel, and the others' are in their programs. -/
theorem boot_phase (m : CPtr) (p : Addr → PCB) (t : Term) :
    (SysMachine.boot m p).phase t = .inKernel ∨ (SysMachine.boot m p).phase t = .user := by
  by_cases ht : t = 0
  · exact Or.inl (if_pos ht)
  · exact Or.inr (if_neg ht)

/-! ### One terminal -/

/-- With no call under way every process has been entered. -/
theorem enteredProgs_none (h : s.execs t = none) : enteredProgs s t = s.kernel.nextPId t := by
  unfold enteredProgs
  rw [h]

/-- With an execute under way its child has not. -/
theorem enteredProgs_some (h : s.execs t = some y) : enteredProgs s t = taken s t - 1 := by
  unfold enteredProgs taken
  rw [h]
  rfl

/-- The number depends on the terminal's call and counter alone. -/
theorem enteredProgs_congr (hexec : s'.execs t = s.execs t) (hnext : s'.kernel.nextPId t = s.kernel.nextPId t) :
    enteredProgs s' t = enteredProgs s t := by
  unfold enteredProgs
  rw [hexec, hnext]

/-- A terminal never has more than six processes entered. -/
theorem enteredProgs_le (h : MachineInv s) (t : Term) : enteredProgs s t ≤ maxProgs := by
  have hbound := (h.terms t).bound
  cases hx : s.execs t with
  | none =>
    rw [enteredProgs_none hx]
    omega
  | some y =>
    rw [enteredProgs_some hx]
    unfold taken
    omega

/-- With no call of `execute_func` under way, a terminal whose phase lies outside its program has a process on top. -/
theorem top_of_entered (h : MachineInv s) (hx : s.execs s.kernel.currTerm = none) {n : Nat}
    (hn : enteredProgs s s.kernel.currTerm = n + 1) : s.kernel.currPcbPtr = some (pcbAt s.kernel.currTerm n) := by
  have hterm := h.terms s.kernel.currTerm
  rw [hx, topPtr_self] at hterm
  rw [enteredProgs_none hx] at hn
  rw [termOk_none hterm, hn, top_succ]

/-- The running process is one that has been entered, when no call of `execute_func` is under way. -/
theorem entered_of_running (h : MachineInv s) (hx : s.execs s.kernel.currTerm = none) (hrun : s.kernel.currPcbPtr.isSome = true) :
    0 < enteredProgs s s.kernel.currTerm := by
  have hterm := h.terms s.kernel.currTerm
  rw [hx, topPtr_self] at hterm
  rw [enteredProgs_none hx]
  rw [termOk_none hterm] at hrun
  cases hn : s.kernel.nextPId s.kernel.currTerm with
  | zero =>
    rw [hn] at hrun
    cases hrun
  | succ m => exact Nat.succ_pos m

/-- A terminal that a step does not touch. Its pending calls must stay pending. -/
theorem termLinked_congr (h : TermLinked c t) (hphase : c'.phase t = c.phase t) (hexec : c'.machine.execs t = c.machine.execs t)
    (hnext : c'.machine.kernel.nextPId t = c.machine.kernel.nextPId t)
    (hcell : c'.machine.kernel.haltRetval t = c.machine.kernel.haltRetval t) (hstarted : c'.startedBy t = c.startedBy t)
    (hcall : c'.call t = c.call t)
    (howed : ∀ n, ∀ i < enteredProgs c.machine t, Owed c n (pcbAt t i) → Owed c' n (pcbAt t i)) : TermLinked c' t := by
  have hentered := enteredProgs_congr hexec hnext
  refine ⟨?_, ?_, ?_, ?_, ?_, ?_, ?_⟩
  · rw [hexec, hphase]
    exact h.under
  · rw [hexec, hnext]
    exact h.counted
  · rw [hphase, hentered]
    exact h.alive
  · rw [hphase, hexec, hcell]
    exact h.cell
  · rw [hentered, hstarted]
    exact fun i hi => howed _ i (Nat.lt_of_succ_lt hi) (h.chain i hi)
  · rw [hexec, hentered, hcall]
    exact fun hx i hi => howed _ i (by omega) (h.call hx i hi)
  · rw [hphase, hentered]
    intro e he
    obtain ⟨hown, hpend⟩ := h.ended e he
    exact ⟨hown, fun i hi => howed _ i (by omega) (hpend i hi)⟩

/-- The running terminal's process goes on to another phase. -/
theorem termLinked_goto (h : TermLinked c t) (hidle : c.machine.execs t = none) (halive : 0 < enteredProgs c.machine t)
    (hexec : c'.machine.execs t = c.machine.execs t) (hnext : c'.machine.kernel.nextPId t = c.machine.kernel.nextPId t)
    (hstarted : c'.startedBy t = c.startedBy t) (hcell : CellOk (c'.phase t) none (c'.machine.kernel.haltRetval t))
    (hended : ∀ e, (c'.phase t).ended = some e →
      e.call = e.startedBy ∧ ∀ i, enteredProgs c.machine t = i + 1 → Owed c' e.call (pcbAt t i))
    (howed : ∀ n i, i + 1 < enteredProgs c.machine t → Owed c n (pcbAt t i) → Owed c' n (pcbAt t i)) : TermLinked c' t := by
  have hentered := enteredProgs_congr hexec hnext
  rw [hidle] at hexec
  refine ⟨fun hx => absurd hexec hx, fun y hy => ?_, fun _ _ => ?_, ?_, fun i hi => ?_, fun hx => absurd hexec hx, fun e he => ?_⟩
  · rw [hexec] at hy
    cases hy
  · rw [hentered]
    exact halive
  · rw [hexec]
    exact hcell
  · rw [hentered] at hi
    rw [hstarted]
    exact howed _ i hi (h.chain i hi)
  · rw [hentered]
    exact hended e he

/-! ### The calls made so far -/

/-- No call is lost, none changes hands and none returns. -/
structure KeepsCalls (c c' : SysMachine) : Prop where
  calls : c.calls ≤ c'.calls
  caller : ∀ n < c.calls, c'.caller n = c.caller n
  returns : c'.returns = c.returns

/-- A call owed stays owed. -/
theorem owed_keep (h : Owed c n a) (hk : KeepsCalls c c') : Owed c' n a := by
  refine ⟨Nat.lt_of_lt_of_le h.made hk.calls, ?_, ?_⟩
  · rw [hk.caller n h.made]
    exact h.caller
  · rw [hk.returns]
    exact h.pending

/-- A call answered stays answered. -/
theorem answered_keep {rt : Return} (h : Answered c rt) (hcalls : c.calls ≤ c'.calls)
    (hcaller : ∀ n < c.calls, c'.caller n = c.caller n) : Answered c' rt := by
  refine ⟨Nat.lt_of_lt_of_le h.made hcalls, h.own, ?_, h.process, h.value⟩
  rw [hcaller _ h.made]
  exact h.caller

/-- What a step of the running terminal leaves to the others. -/
structure Apart (c c' : SysMachine) (t : Term) : Prop where
  phase : ∀ u, u ≠ t → c'.phase u = c.phase u
  exec : ∀ u, u ≠ t → c'.machine.execs u = c.machine.execs u
  next : ∀ u, u ≠ t → c'.machine.kernel.nextPId u = c.machine.kernel.nextPId u
  cell : ∀ u, u ≠ t → c'.machine.kernel.haltRetval u = c.machine.kernel.haltRetval u
  startedBy : ∀ u, u ≠ t → c'.startedBy u = c.startedBy u
  call : ∀ u, u ≠ t → c'.call u = c.call u

/-- A step of one terminal from which no call returns. -/
theorem linked_local (h : Linked c) (hm : MachineInv c'.machine) (hap : Apart c c' t) (hk : KeepsCalls c c')
    (hframes : ∀ t, ∀ i < maxProgs, c'.frame (pcbAt t i) = c'.startedBy t i) (hown : TermLinked c' t) : Linked c' := by
  refine ⟨hm, fun u => ?_, hframes, fun rt hrt => ?_, ?_⟩
  · by_cases hu : u = t
    · rw [hu]
      exact hown
    · exact termLinked_congr (h.terms u) (hap.phase u hu) (hap.exec u hu) (hap.next u hu) (hap.cell u hu) (hap.startedBy u hu)
        (hap.call u hu) (fun n i _ ho => owed_keep ho hk)
  · rw [hk.returns] at hrt
    exact answered_keep (h.answered rt hrt) hk.calls hk.caller
  · rw [hk.returns]
    exact h.once

/-- The part of the state that only `execute_func` and the end of a process change. -/
structure SameCalls (c c' : SysMachine) : Prop where
  frame : c'.frame = c.frame
  calls : c'.calls = c.calls
  call : c'.call = c.call
  caller : c'.caller = c.caller
  startedBy : c'.startedBy = c.startedBy
  returns : c'.returns = c.returns

/-- Calls that stay are kept. -/
theorem SameCalls.keep (h : SameCalls c c') : KeepsCalls c c' :=
  ⟨Nat.le_of_eq h.calls.symm, fun n _ => by rw [h.caller], h.returns⟩

/-- A step of the running terminal's process outside `execute_func`. -/
theorem linked_goto (h : Linked c) (hidle : c.machine.execs c.machine.kernel.currTerm = none)
    (halive : 0 < enteredProgs c.machine c.machine.kernel.currTerm) (hm : MachineInv c'.machine)
    (hexecs : c'.machine.execs = c.machine.execs) (hnext : c'.machine.kernel.nextPId = c.machine.kernel.nextPId)
    (hcells : ∀ u, u ≠ c.machine.kernel.currTerm → c'.machine.kernel.haltRetval u = c.machine.kernel.haltRetval u)
    (hphase : c'.phase = (c.goto p).phase) (hsame : SameCalls c c')
    (hcell : CellOk p none (c'.machine.kernel.haltRetval c.machine.kernel.currTerm))
    (hended : ∀ e, p.ended = some e → (c.phase c.machine.kernel.currTerm).ended = some e) : Linked c' := by
  have hself : c'.phase c.machine.kernel.currTerm = p := by
    rw [hphase]
    exact Function.update_self _ _ _
  have hother : ∀ u, u ≠ c.machine.kernel.currTerm → c'.phase u = c.phase u := by
    intro u hu
    rw [hphase]
    exact Function.update_of_ne hu _ _
  have hk := hsame.keep
  refine linked_local h hm ⟨hother, fun u _ => by rw [hexecs], fun u _ => by rw [hnext], hcells, fun u _ => by rw [hsame.startedBy],
    fun u _ => by rw [hsame.call]⟩ hk (fun t i hi => ?_) ?_
  · rw [hsame.frame, hsame.startedBy]
    exact h.frames t i hi
  · refine termLinked_goto (h.terms _) hidle halive (by rw [hexecs]) (by rw [hnext]) (by rw [hsame.startedBy]) ?_ ?_
      (fun n i _ ho => owed_keep ho hk)
    · rw [hself]
      exact hcell
    · rw [hself]
      intro e he
      obtain ⟨hown, hpend⟩ := (h.terms _).ended e (hended e he)
      exact ⟨hown, fun i hi => owed_keep (hpend i hi) hk⟩

/-- The next phase of a handler leaves the calls. -/
theorem sameCalls_goto (c : SysMachine) (p : SysPhase) : SameCalls c (c.goto p) := ⟨rfl, rfl, rfl, rfl, rfl, rfl⟩

/-- A step of the handler that only moves on. -/
theorem linked_phase (h : Linked c) (hidle : c.machine.execs c.machine.kernel.currTerm = none)
    (halive : 0 < enteredProgs c.machine c.machine.kernel.currTerm) (hm : c'.machine = c.machine)
    (hphase : c'.phase = (c.goto p).phase) (hsame : SameCalls c c')
    (hcell : CellOk p none (c.machine.kernel.haltRetval c.machine.kernel.currTerm))
    (hended : ∀ e, p.ended = some e → (c.phase c.machine.kernel.currTerm).ended = some e) : Linked c' := by
  refine linked_goto h hidle halive (by rw [hm]; exact h.machine) (by rw [hm]) (by rw [hm]) (fun u _ => by rw [hm]) hphase hsame ?_
    hended
  rw [hm]
  exact hcell

/-- Outside `execute_func` no call of it is under way. -/
theorem idle_of_phase (h : Linked c) (hp : (c.phase t).mayExecute = false) : c.machine.execs t = none := by
  by_contra hx
  have hmay := (h.terms t).under hx
  rw [hp] at hmay
  cases hmay

/-- In a system call, or after a process that has ended, the terminal has a process. -/
theorem entered_of_phase (h : Linked c) (huser : c.phase t ≠ .user) (hkernel : c.phase t ≠ .inKernel) :
    0 < enteredProgs c.machine t := (h.terms t).alive huser hkernel

/-- The cell of a terminal whose phase the step knows. -/
theorem cell_of_phase (h : Linked c) (hp : c.phase t = p) :
    CellOk p (c.machine.execs t) (c.machine.kernel.haltRetval t) := by
  rw [← hp]
  exact (h.terms t).cell

/-- Clearing the return value leaves the process tables. -/
theorem sameProcs_clearRetval (k : Kernel) : SameProcs k (clearRetval k) := ⟨rfl, rfl, rfl, rfl, rfl, rfl, rfl, rfl⟩

/-- `execute_func` returns: the call that is answered is pending no more, and no other call has the same caller. -/
theorem linked_clearing (h : Linked c) {e : Ended} {oldRetval : Nat}
    (hp : c.phase c.machine.kernel.currTerm = .clearing e oldRetval) : Linked (handlerStep c) := by
  have hidle := idle_of_phase h (by rw [hp]; rfl)
  have halive := entered_of_phase h (by rw [hp]; nofun) (by rw [hp]; nofun)
  obtain ⟨n, hn⟩ := Nat.exists_eq_succ_of_ne_zero (Nat.ne_of_gt halive)
  obtain ⟨hown, hpend⟩ := (h.terms c.machine.kernel.currTerm).ended e (by rw [hp]; rfl)
  have howed := hpend n hn
  have hle := enteredProgs_le h.machine c.machine.kernel.currTerm
  have htop := top_of_entered h.machine hidle hn
  have hval : oldRetval = e.ending.delivered := cell_of_phase h hp
  have hm := (machineInv_sameProcs h.machine (sameProcs_clearRetval _) rfl).1
  -- the pending calls of other processes have other callers
  have hother : ∀ {u m i}, i < maxProgs → pcbAt u i ≠ pcbAt c.machine.kernel.currTerm n → Owed c m (pcbAt u i) →
      Owed (handlerStep c) m (pcbAt u i) := by
    intro u m i hi hne ho
    unfold handlerStep
    dsimp only
    rw [hp]
    refine ⟨ho.made, ho.caller, fun rt hrt => ?_⟩
    rcases List.mem_cons.mp hrt with rfl | hrt
    · intro heq
      dsimp only at heq
      have hcaller := ho.caller
      rw [← heq, howed.caller, Option.some.injEq] at hcaller
      exact hne hcaller.symm
    · exact ho.pending rt hrt
  have hstep : handlerStep c =
      { c.goto (.store (Int32.ofNat oldRetval)) with
        machine := { c.machine with kernel := clearRetval c.machine.kernel }
        returns := { ended := e, value := oldRetval, process := c.machine.kernel.currPcbPtr } :: c.returns } := by
    unfold handlerStep
    dsimp only
    rw [hp]
  rw [hstep] at hother ⊢
  refine ⟨hm, fun u => ?_, h.frames, fun rt hrt => ?_, ?_⟩
  · by_cases hu : u = c.machine.kernel.currTerm
    · rw [hu]
      have hself : (c.goto (.store (Int32.ofNat oldRetval))).phase c.machine.kernel.currTerm = .store (Int32.ofNat oldRetval) :=
        Function.update_self _ _ _
      refine termLinked_goto (h.terms _) hidle halive rfl rfl rfl ?_ ?_ (fun m i hi => hother (by omega) ?_)
      · dsimp only
        rw [hself]
        exact Function.update_self _ _ _
      · dsimp only
        rw [hself]
        exact fun e' he' => by cases he'
      · exact pcbAt_ne_of_pid (by omega) (by omega) (by omega)
    · have hle' := enteredProgs_le h.machine u
      refine termLinked_congr (h.terms u) (Function.update_of_ne hu _ _) rfl rfl (Function.update_of_ne hu _ _) rfl rfl ?_
      exact fun m i hi => hother (by omega) (pcbAt_ne_of_term (by omega) (by omega) hu)
  · rcases List.mem_cons.mp hrt with rfl | hrt
    · exact ⟨howed.made, hown, howed.caller.trans htop.symm, by rw [htop]; rfl, hval⟩
    · exact answered_keep (h.answered rt hrt) (Nat.le_refl _) (fun _ _ => rfl)
  · refine List.nodup_cons.mpr ⟨fun hmem => ?_, h.once⟩
    obtain ⟨rt, hrt, heq⟩ := List.mem_map.mp hmem
    exact howed.pending rt hrt heq

/-- A step from one phase of a system call to the next. -/
theorem linked_next {q : SysPhase} (h : Linked c) (hq : c.phase c.machine.kernel.currTerm = q) (hm : c'.machine = c.machine)
    (hphase : c'.phase = (c.goto p).phase) (hsame : SameCalls c c') (hmay : q.mayExecute = false) (huser : q ≠ .user)
    (hkernel : q ≠ .inKernel) (hcell : CellOk q none (c.machine.kernel.haltRetval c.machine.kernel.currTerm) →
      CellOk p none (c.machine.kernel.haltRetval c.machine.kernel.currTerm))
    (hended : ∀ e, p.ended = some e → q.ended = some e) : Linked c' := by
  have hidle := idle_of_phase h (by rw [hq]; exact hmay)
  have halive := entered_of_phase h (by rw [hq]; exact huser) (by rw [hq]; exact hkernel)
  have hbefore := cell_of_phase h hq
  rw [hidle] at hbefore
  refine linked_phase h hidle halive hm hphase hsame (hcell hbefore) (fun e he => ?_)
  rw [hq]
  exact hended e he

/-- A step of a handler keeps calls and returns linked. -/
theorem linked_handler (h : Linked c) : Linked (handlerStep c) := by
  cases hp : c.phase c.machine.kernel.currTerm with
  | clearing e oldRetval => exact linked_clearing h hp
  | entered eax ebx =>
    unfold handlerStep
    dsimp only
    rw [hp]
    dsimp only
    split
    · exact linked_next h hp rfl rfl (sameCalls_goto c _) rfl nofun nofun id (fun e he => by cases he)
    · exact linked_next h hp rfl rfl (sameCalls_goto c _) rfl nofun nofun id (fun e he => by cases he)
  | store own =>
    unfold handlerStep
    dsimp only
    rw [hp]
    dsimp only
    exact linked_next h hp rfl rfl ⟨rfl, rfl, rfl, rfl, rfl, rfl⟩ rfl nofun nofun id (fun e he => by cases he)
  | popping own =>
    unfold handlerStep
    dsimp only
    rw [hp]
    dsimp only
    exact linked_next h hp rfl rfl (sameCalls_goto c _) rfl nofun nofun id (fun e he => by cases he)
  | reload own =>
    unfold handlerStep
    dsimp only
    rw [hp]
    dsimp only
    exact linked_next h hp rfl rfl (sameCalls_goto c _) rfl nofun nofun id (fun e he => by cases he)
  | leaving own eax =>
    unfold handlerStep
    dsimp only
    rw [hp]
    dsimp only
    exact linked_next h hp rfl rfl ⟨rfl, rfl, rfl, rfl, rfl, rfl⟩ rfl nofun nofun id (fun e he => by cases he)
  | returnHere e =>
    unfold handlerStep
    dsimp only
    rw [hp]
    dsimp only
    exact linked_next h hp rfl rfl (sameCalls_goto c _) rfl nofun nofun id (fun _ => id)
  | _ =>
    have hstep : handlerStep c = c := by
      unfold handlerStep
      dsimp only
      rw [hp]
    rw [hstep]
    exact h

end LinkageAux

end ThreeTermOS
