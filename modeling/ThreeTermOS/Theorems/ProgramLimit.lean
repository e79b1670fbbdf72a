import ThreeTermOS.Lemmas.Tables

/-!
# The program limit under preemption

`execute_func` checks `total_progs` first and increments it last, and interrupts are enabled in between. The count is that of the
committed processes at every moment, but calls that overlap all pass the check with the same count, and each adds one to it. The
shell that takes the place of a halted root goes through the same check, after the root has been counted out and with interrupts
enabled in between, so that a program of another terminal may have come into the room the root has left.
-/

namespace ThreeTermOS

open Bytes Chain Runs

/-- 1 from the check of `execute_func` until `total_progs` is incremented. -/
def Point.uncommitted (p : Point) : Nat := p.launching + p.pending

/-- The calls of `execute_func` that have passed the check and have not incremented `total_progs` yet. -/
def Machine.inFlight (s : Machine) : Nat := ∑ t, weight Point.uncommitted (s.execs t)

/-- The processes committed and not yet halted: those on the stacks of the three terminals, but for a process whose `execute_func`
has still to increment `total_progs`. -/
def Machine.committed (s : Machine) : Nat := ∑ t, (s.kernel.nextPId t - weight Point.pending (s.execs t))

/-- The move passes the check of `execute_func` for one program more: a call of the running program, the shell that takes the place
of a process that has halted without a parent, or a shell launched on a terminal that has no program. -/
def PassesCheck (img : Image) (s : Machine) (m : Move) : Prop :=
  (∃ command r d, m = .event (.execute command r) ∧ s.execs s.kernel.currTerm = none ∧
      checkExecute img s.kernel (getArgsFname command r).1 r = .ok d) ∨
    (∃ r x d, m = .restart r ∧ s.execs s.kernel.currTerm = some x ∧ x.point = .restart ∧
      checkExecute img s.kernel (getArgsFname shellCommand r).1 r = .ok d) ∨
    ∃ dest, OpensShell img s.kernel m dest

/-- If the move passes the check, the limit leaves room for the programs still in flight as well. -/
def LaunchFits (img : Image) (s : Machine) (m : Move) : Prop :=
  PassesCheck img s m → s.kernel.totalProgs + s.inFlight < maxProgs

namespace ProgramLimitAux

open ProcessAux PreemptionAux TablesAux

variable {s s' : Machine} {img : Image} {m : Move} {t u : Term}

/-- The processes a terminal has, with the one that has passed the check and has not been counted yet. -/
def reserved (s : Machine) (u : Term) : Nat := s.kernel.nextPId u + weight Point.launching (s.execs u)

/-- What the terminals have reserved is what is counted and what is in flight. -/
theorem sum_reserved (h : MachineInv s) : ∑ u, reserved s u = s.kernel.totalProgs + s.inFlight := by
  have hsplit : s.inFlight = ∑ u, weight Point.launching (s.execs u) + ∑ u, weight Point.pending (s.execs u) := by
    unfold Machine.inFlight
    rw [← Finset.sum_add_distrib]
    refine Finset.sum_congr rfl (fun u _ => ?_)
    cases s.execs u with
    | none => rfl
    | some x => rfl
  have htotal := h.total
  unfold reserved
  rw [Finset.sum_add_distrib]
  omega

theorem committed_eq (h : MachineInv s) : s.committed = s.kernel.totalProgs := by
  have hsum : s.committed + ∑ u, weight Point.pending (s.execs u) = ∑ u, s.kernel.nextPId u := by
    unfold Machine.committed
    rw [← Finset.sum_add_distrib]
    refine Finset.sum_congr rfl (fun u _ => ?_)
    have hpending := (h.terms u).pending
    omega
  have htotal := h.total
  omega

/-- A step of `execute_func` reserves nothing more. -/
theorem reserved_advance {y : Exec} (hx : s.execs s.kernel.currTerm = some y) (hs : advance img s y = .ok s') :
    ∀ u, reserved s' u = reserved s u := by
  intro u
  unfold reserved
  by_cases hu : u = s.kernel.currTerm
  · have hgoto : ∀ k p, (s.goto y k p).execs s.kernel.currTerm = some { y with point := p } := fun k p => execs_goto s y k p
    rw [hu, hx, weight_some]
    rcases advance_cases hs with ⟨k, p, rfl, hnext, -, -, hlaunching, -⟩ | ⟨hp, rfl⟩ | ⟨kb, hp, rfl⟩ | ⟨hp, rfl⟩
    · rw [hgoto, weight_some, hlaunching, ← hnext]
      rfl
    · rw [hgoto, weight_some, hp, Machine.goto, pcbInit_eq]
      rfl
    · rw [hgoto, weight_some, hp, Machine.goto, incrNextPId]
      dsimp only
      rw [Function.update_self]
      rfl
    · dsimp only
      rw [Function.update_self, hp]
      rfl
  · have hsp := advance_spares hs hu
    rw [hsp.exec, hsp.next]

/-- A move that passes the check where there is room keeps what is reserved within the limit, and so does any other move. -/
theorem reserved_step (h : MachineInv s) (hle : ∑ u, reserved s u ≤ maxProgs) (hfits : LaunchFits img s m)
    (hs : moveStep img s m = .ok s') : ∑ u, reserved s' u ≤ maxProgs := by
  have hroom : PassesCheck img s m → ∑ u, reserved s u < maxProgs := by
    intro hpass
    rw [sum_reserved h]
    exact hfits hpass
  -- the sums before and after differ in one terminal
  have hsum : ∀ t, (∀ u, u ≠ t → reserved s' u = reserved s u) →
      ∑ u, reserved s' u + reserved s t = ∑ u, reserved s u + reserved s' t := fun t => sum_of_eq_of_ne
  cases tableStep_moveStep h hs with
  | keep _ next total execs args retval =>
    have heq : reserved s' = reserved s := by
      funext u
      unfold reserved
      rw [next, execs]
    rw [heq]
    exact hle
  | advance y under hadvance =>
    rw [show reserved s' = reserved s from funext (reserved_advance under hadvance)]
    exact hle
  | begin command r d idle check kernel execs =>
    have hlt := hroom (Or.inl ⟨command, r, d, rfl, idle, check⟩)
    have hdiff := hsum s.kernel.currTerm (fun u hu => by
      unfold reserved
      rw [kernel, execs, Function.update_of_ne hu])
    have hbefore : reserved s s.kernel.currTerm = s.kernel.nextPId s.kernel.currTerm := by
      unfold reserved
      rw [idle, weight_none, Nat.add_zero]
    have hafter : reserved s' s.kernel.currTerm = s.kernel.nextPId s.kernel.currTerm + 1 := by
      unfold reserved
      rw [kernel, execs, Function.update_self, weight_some]
      rfl
    omega
  | pop status r n idle top two next total execs args retval =>
    have hdiff := hsum s.kernel.currTerm (fun u hu => by
      unfold reserved
      rw [next, execs, Function.update_of_ne hu])
    have hbefore : reserved s s.kernel.currTerm = n + 2 := by
      unfold reserved
      rw [two, idle, weight_none]
    have hafter : reserved s' s.kernel.currTerm = n + 1 := by
      unfold reserved
      rw [next, Function.update_self, execs, idle, weight_none]
    omega
  | restart status r x idle top one next total execs point args retval =>
    have hdiff := hsum s.kernel.currTerm (fun u hu => by
      unfold reserved
      rw [next, execs, Function.update_of_ne hu, Function.update_of_ne hu])
    have hafter : reserved s' s.kernel.currTerm = 0 := by
      unfold reserved
      rw [next, Function.update_self, execs, Function.update_self, weight_some, point]
      rfl
    omega
  | again r y x d under waits check next total execs point args retval =>
    have hlt := hroom (Or.inr (Or.inl ⟨r, y, d, rfl, under, waits, check⟩))
    have hdiff := hsum s.kernel.currTerm (fun u hu => by
      unfold reserved
      rw [next, execs, Function.update_of_ne hu])
    have hbefore : reserved s s.kernel.currTerm = s.kernel.nextPId s.kernel.currTerm := by
      unfold reserved
      rw [under, weight_some, waits]
      rfl
    have hafter : reserved s' s.kernel.currTerm = s.kernel.nextPId s.kernel.currTerm + 1 := by
      unfold reserved
      rw [next, execs, Function.update_self, weight_some, point]
      rfl
    omega
  | launch _ dest opens unused idle next total execs args retval =>
    have hlt := hroom (Or.inr (Or.inr ⟨dest, opens⟩))
    have hdiff := hsum dest (fun u hu => by
      unfold reserved
      rw [next, execs, Function.update_of_ne hu])
    have hbefore : reserved s dest = 0 := by
      unfold reserved
      rw [unused, idle, weight_none]
    have hafter : reserved s' dest = 1 := by
      unfold reserved
      rw [next, Function.update_self, execs, idle, weight_none]
    omega

/-- What the machine keeps as long as every launch fits. -/
def Limited (s : Machine) : Prop := MachineInv s ∧ ∑ u, reserved s u ≤ maxProgs

theorem limited_boot (m : CPtr) (p : Addr → PCB) : Limited (Machine.boot m p) := by
  refine ⟨machineInv_boot m p, ?_⟩
  have hzero : reserved (Machine.boot m p) = fun _ => 0 := by
    funext u
    rfl
  rw [hzero]
  decide

theorem limited_step (h : Limited s) (hfits : LaunchFits img s m) (hs : moveStep img s m = .ok s') : Limited s' :=
  ⟨(machineInv_moveStep h.1 hs).1, reserved_step h.1 h.2 hfits hs⟩

end ProgramLimitAux

open ProgramLimitAux PreemptionAux in
/-- In every state of every run from boot, `total_progs` is the number of processes committed and not yet halted. It stays within
the limit in every run in which each launch that passes the check of `execute_func` (a call, a shell in the place of a halted one, a
shell on a terminal without a program) finds room for itself beside the programs counted and those in flight. -/
theorem total_within_limit (img : Image) (m : CPtr) (p : Addr → PCB) {moves : List Move} {s : Machine}
    (hr : run (moveStep img) (Machine.boot m p) moves = .ok s) :
    s.kernel.totalProgs = s.committed ∧
      (Meets (moveStep img) (LaunchFits img) (Machine.boot m p) moves → s.kernel.totalProgs ≤ maxProgs) := by
  have hinv := machineInv_reachable ⟨moves, hr⟩
  refine ⟨(committed_eq hinv).symm, fun hm => ?_⟩
  obtain ⟨-, hle⟩ := run_invariant_of_meets (fun _ _ _ => limited_step) (limited_boot m p) hm hr
  rw [sum_reserved hinv] at hle
  omega

/-- Two shells, one after the other. -/
def twoShells : Outcome Stop Machine := run (moveStep shellImage) bootMachine (launchMoves ++ launchMoves)

theorem total_within_limit_twoShells : twoShells.state.kernel.totalProgs = 2 ∧ twoShells.state.committed = 2 := by
  have hok : twoShells.isOk = true := by decide +kernel
  have htotal : twoShells.state.kernel.totalProgs = 2 := by decide +kernel
  have hrun : run (moveStep shellImage) bootMachine (launchMoves ++ launchMoves) = .ok twoShells.state := Outcome.eq_ok_of_isOk hok
  have hroom : Meets (moveStep shellImage) (fun s _ => s.kernel.totalProgs + s.inFlight < maxProgs) bootMachine
      (launchMoves ++ launchMoves) := by decide +kernel
  have hfits : ∀ s m, True → s.kernel.totalProgs + s.inFlight < maxProgs → LaunchFits shellImage s m := fun _ _ _ hlt _ => hlt
  have hm : Meets (moveStep shellImage) (LaunchFits shellImage) bootMachine (launchMoves ++ launchMoves) :=
    Meets.of_invariant (fun _ _ _ _ _ _ => trivial) hfits trivial hroom
  generalize twoShells.state = s at htotal hrun ⊢
  unfold bootMachine at hrun hm
  obtain ⟨hcommitted, hlimit⟩ := total_within_limit shellImage _ _ hrun
  have hle := hlimit hm
  exact ⟨htotal, hcommitted.symm.trans htotal⟩

/-- Five shells: four on terminal 0, one on terminal 1, which is running. -/
def fiveShells : List Move :=
  launchMoves ++ launchMoves ++ launchMoves ++ launchMoves ++ [.event (.switchTerminals 1 zeroResidue)]

/-- With five programs running, terminal 1 and terminal 0 both pass the check before either counts its program. -/
def overlappingLaunches : List Move :=
  fiveShells ++ [.event (.execute shellCommand zeroResidue), .event (.schedule 0 zeroResidue)] ++ launchMoves ++
    .event (.schedule 1 zeroResidue) :: List.replicate 17 .advance

def overlappingRun : Outcome Stop Machine := run (moveStep shellImage) bootMachine overlappingLaunches

/-- Both launches go through, and seven programs run. -/
theorem overlapping_launches_exceed_limit :
    overlappingRun.isOk = true ∧ overlappingRun.state.kernel.totalProgs = 7 ∧
      ¬(∀ moves s, run (moveStep shellImage) bootMachine moves = .ok s → s.kernel.totalProgs ≤ maxProgs) := by
  have hok : overlappingRun.isOk = true := by decide +kernel
  have htotal : overlappingRun.state.kernel.totalProgs = 7 := by decide +kernel
  refine ⟨hok, htotal, fun h => ?_⟩
  have hrun : run (moveStep shellImage) bootMachine overlappingLaunches = .ok overlappingRun.state := Outcome.eq_ok_of_isOk hok
  have hle := h overlappingLaunches overlappingRun.state hrun
  rw [htotal] at hle
  exact absurd hle (by decide)

end ThreeTermOS
