import Mathlib.Algebra.Order.BigOperators.Group.Finset
import ThreeTermOS.Preemption
import ThreeTermOS.Lemmas.VideoMap

/-!
# The process stacks under preemption

With `execute_func` taken step by step the counters and the stacks of processes disagree for a while: the process control block
comes first, then `curr_pcb_ptr`, `next_p_id`, `active_progs` and `total_progs`. `TermOk` says of one terminal how far it has got;
it looks only at that terminal's own part of the state, so that what the other terminals do in between leaves it alone.
-/

namespace ThreeTermOS

open Bytes Chain Runs

/-- 1 until `next_p_id` is incremented. -/
def Point.uncounted : Point → Nat
  | .restart => 1
  | .mapProgPage => 1
  | .load _ _ => 1
  | .pcbInit => 1
  | .setShellFlag _ => 1
  | .setCurrPcb _ _ => 1
  | .incrNextPId _ => 1
  | _ => 0

/-- 1 when `curr_pcb_ptr` is the new process and `next_p_id` does not count it yet. -/
def Point.pushed : Point → Nat
  | .incrNextPId _ => 1
  | _ => 0

/-- 1 when `next_p_id` counts the new process and `total_progs` does not yet. -/
def Point.pending : Point → Nat
  | .setActive _ => 1
  | .incrTotal _ => 1
  | _ => 0

/-- The process control block that is filled in and not the running one yet. -/
def Point.newPCB : Point → Option Addr
  | .setShellFlag a => some a
  | .setCurrPcb a _ => some a
  | _ => none

/-- Two points that weigh the same, the first with no process control block that the second does not have. -/
structure SameWeights (p q : Point) : Prop where
  uncounted : p.uncounted = q.uncounted
  pushed : p.pushed = q.pushed
  pending : p.pending = q.pending
  newPCB : ∀ b, p.newPCB = some b → q.newPCB = some b

/-- A number that depends on the point reached, 0 with no call under way. -/
def weight (f : Point → Nat) : Option Exec → Nat
  | none => 0
  | some x => f x.point

/-- A terminal in no call weighs nothing. -/
@[simp] theorem weight_none (f : Point → Nat) : weight f none = 0 := rfl

/-- A call weighs what its point does. -/
@[simp] theorem weight_some (f : Point → Nat) (x : Exec) : weight f (some x) = f x.point := rfl

/-- Process `i` of a terminal names itself and the one below it. -/
structure LinkOk (pcbs : Addr → PCB) (u : Term) (i : Nat) : Prop where
  pId : (pcbs (pcbAt u i)).pId = i
  parentPId : (pcbs (pcbAt u i)).parentPId = i - 1
  parent : (pcbs (pcbAt u i)).parent = top (pcbAt u) i

/-- One terminal: `x` is the call under way there, `n` its `next_p_id`, `cur` its running process. While the shell that takes the
place of a halted one is loaded, the halted one is still `cur`. -/
structure TermOk (pcbs : Addr → PCB) (x : Option Exec) (n : Nat) (cur : Option Addr) (u : Term) : Prop where
  bound : n + weight Point.uncounted x ≤ maxProgs
  pending : weight Point.pending x ≤ n
  links : ∀ i < n + weight Point.pushed x, LinkOk pcbs u i
  cur : cur = top (pcbAt u) (n + weight Point.pushed x) ∨
    (n = 0 ∧ weight Point.uncounted x = 1 ∧ weight Point.pushed x = 0 ∧ cur = some (pcbAt u 0) ∧ (pcbs (pcbAt u 0)).pId = 0)
  fresh : ∀ y a, x = some y → y.point.newPCB = some a → a = pcbAt u n ∧ LinkOk pcbs u n

/-- The running process of a terminal, running now or to be resumed. -/
def topPtr (k : Kernel) (u : Term) : Option Addr := if u = k.currTerm then k.currPcbPtr else k.activeProgs u

/-- The three terminals and the count of programs. -/
structure StacksInv (s : Machine) : Prop where
  terms : ∀ u, TermOk s.kernel.pcbs (s.execs u) (s.kernel.nextPId u) (topPtr s.kernel u) u
  total : ∑ u, s.kernel.nextPId u = s.kernel.totalProgs + ∑ u, weight Point.pending (s.execs u)
  away : ∀ u, u ≠ s.kernel.currTerm → s.kernel.activeProgs u = none → s.execs u = none

/-- What the machine keeps between steps. -/
structure MachineInv (s : Machine) : Prop extends StacksInv s where
  idle : s.kernel.activeProgs s.kernel.currTerm = none →
    s.kernel.dispTerm = s.kernel.currTerm ∧ ∀ u, s.kernel.activeProgs u = none

/-- A step that leaves the call under way on terminal `t` where it is, and does not switch to `t`. -/
structure Spares (s s' : Machine) (t : Term) : Prop where
  exec : s'.execs t = s.execs t
  next : s'.kernel.nextPId t = s.kernel.nextPId t
  page : s'.kernel.currTerm = t → s.kernel.currTerm = t ∧ s'.kernel.pdProg = s.kernel.pdProg

/-- A step that switches to terminal `t`, where a call is under way: it goes on at the same point, with the page mapped of the process
that is its terminal's top. -/
structure Resumed (s s' : Machine) (t : Term) : Prop where
  exec : s'.execs t = s.execs t
  next : s'.kernel.nextPId t = s.kernel.nextPId t
  curr : s'.kernel.currTerm = t
  page : s'.kernel.pdProg = progEntry (s.kernel.nextPId t + weight Point.pushed (s.execs t) - 1) t

/-- A terminal spared by two moves in a row. -/
theorem Spares.trans {s s₁ s₂ : Machine} {t : Term} (h : Spares s s₁ t) (h' : Spares s₁ s₂ t) : Spares s s₂ t := by
  refine ⟨h'.exec.trans h.exec, h'.next.trans h.next, fun hcurr => ?_⟩
  obtain ⟨hcurr₁, hpage⟩ := h'.page hcurr
  obtain ⟨hcurr₀, hpage₀⟩ := h.page hcurr₁
  exact ⟨hcurr₀, hpage.trans hpage₀⟩

/-- A tick that switches to terminal `t`. -/
def Resumes (k : Kernel) (m : Move) (t : Term) : Prop :=
  ∃ r, m = .event (.schedule t r) ∧ k.switchLock = false ∧ k.activeProgs t ≠ none

/-- The terminal's own `execute_func` takes a step. -/
def Advances (k : Kernel) (m : Move) (t : Term) : Prop := m = .advance ∧ k.currTerm = t

/-- The loop of the terminal's own `halt_func` takes a turn. -/
def Turns (k : Kernel) (m : Move) (t : Term) : Prop := (∃ r, m = .restart r) ∧ k.currTerm = t

/-- A step of `execute_func` other than its last: the point it is taken at, the kernel it leaves, and the point it goes on to. -/
inductive Goes (img : Image) (k : Kernel) (x : Exec) : Point → Kernel → Point → Prop where
  | restart : Goes img k x .restart k .restart
  | mapProgPage : Goes img k x .mapProgPage (mapProgPage k) (.load loadAddr (loadBytes img x.fileEntry))
  | loadEnd (v : Nat) : Goes img k x (.load v []) k .pcbInit
  | load (v : Nat) (b : UInt8) (bytes : List UInt8) (a : Nat) (ha : k.translate v = some a) :
      Goes img k x (.load v (b :: bytes)) { k with mem := set k.mem a b } (.load (v + 1) bytes)
  | pcbInit : Goes img k x .pcbInit (pcbInit img k (pcbAt k.currTerm (k.nextPId k.currTerm)) x.args x.fileEntry)
      (.setShellFlag (pcbAt k.currTerm (k.nextPId k.currTerm)))
  | setShellFlag (a : Addr) : Goes img k x (.setShellFlag a) (setShellFlag k a x.fileName)
      (.setCurrPcb a (pidToKstackBottom (k.nextPId k.currTerm) k.currTerm))
  | setCurrPcb (a : Addr) (kb : Nat) : Goes img k x (.setCurrPcb a kb) (setCurrPcb k a) (.incrNextPId kb)
  | incrNextPId (kb : Nat) : Goes img k x (.incrNextPId kb) (incrNextPId k) (.setActive kb)
  | setActive (kb : Nat) : Goes img k x (.setActive kb) (setActive k) (.incrTotal kb)
  | incrTotal (kb : Nat) : Goes img k x (.incrTotal kb) (incrTotal k) (.setESP0 kb)
  | setESP0 (kb : Nat) : Goes img k x (.setESP0 kb) (setESP0 k kb) (.setTss kb)
  | setTss (kb : Nat) : Goes img k x (.setTss kb) (setTss k kb) .clearRetval
  | clearRetval : Goes img k x .clearRetval (clearRetval k) .iret

namespace PreemptionAux

open ProcessAux VideoMapAux

variable {s s' : Machine} {k k' : Kernel} {img : Image} {r : Residue} {t u : Term} {pcbs pcbs' : Addr → PCB} {x : Option Exec}
  {y : Exec} {n : Nat} {cur : Option Addr} {a : Addr}

/-! ### A step of execute_func -/

/-- Every step goes on to the next point, or leaves for the program. -/
theorem advance_goes (hs : advance img s y = .ok s') :
    (∃ k p, Goes img s.kernel y y.point k p ∧ s' = s.goto y k p) ∨
      y.point = .iret ∧ s' = { s with execs := Function.update s.execs s.kernel.currTerm none } := by
  unfold advance at hs
  dsimp only at hs
  cases hp : y.point with
  | load v bytes =>
    rw [hp] at hs
    cases bytes with
    | nil =>
      rw [Outcome.ok.injEq] at hs
      exact Or.inl ⟨_, _, .loadEnd v, hs.symm⟩
    | cons b bytes =>
      dsimp only at hs
      split at hs
      · cases hs
      · rename_i a ha
        rw [Outcome.ok.injEq] at hs
        exact Or.inl ⟨_, _, .load v b bytes a ha, hs.symm⟩
  | iret =>
    rw [hp, Outcome.ok.injEq] at hs
    exact Or.inr ⟨rfl, hs.symm⟩
  | _ =>
    rw [hp, Outcome.ok.injEq] at hs
    exact Or.inl ⟨_, _, by constructor, hs.symm⟩

/-- A step goes on to a point of the call. -/
@[simp] theorem execs_goto (s : Machine) (y : Exec) (k : Kernel) (p : Point) :
    (s.goto y k p).execs s.kernel.currTerm = some { y with point := p } := Function.update_self _ _ _

/-- `set_ESP0` changes only the blocks. -/
theorem setESP0_eq (k : Kernel) (kb : Nat) : ∃ pcbs, setESP0 k kb = { k with pcbs := pcbs } := by
  unfold setESP0
  split
  · exact ⟨_, rfl⟩
  · exact ⟨_, rfl⟩

/-- A step stays on its terminal, and leaves the video pages and the counts of the other terminals. -/
theorem goes_frame {q p : Point} (h : Goes img k y q k' p) :
    k'.currTerm = k.currTerm ∧ k'.videoTable = k.videoTable ∧ ∀ u, u ≠ k.currTerm → k'.nextPId u = k.nextPId u := by
  cases h with
  | pcbInit =>
    rw [pcbInit_eq]
    exact ⟨rfl, rfl, fun _ _ => rfl⟩
  | incrNextPId kb => exact ⟨rfl, rfl, fun u hu => Function.update_of_ne hu _ _⟩
  | setESP0 kb =>
    obtain ⟨pcbs, he⟩ := setESP0_eq k kb
    rw [he]
    exact ⟨rfl, rfl, fun _ _ => rfl⟩
  | _ => exact ⟨rfl, rfl, fun _ _ => rfl⟩

/-! ### One terminal -/

/-- A process pushed is one not counted yet. -/
theorem pushed_le (x : Option Exec) : weight Point.pushed x ≤ weight Point.uncounted x := by
  cases x with
  | none => exact Nat.le_refl 0
  | some y =>
    rw [weight_some, weight_some]
    cases y.point <;> simp [Point.uncounted, Point.pushed]

/-- The fields of a process control block that link it. -/
def SameLinks (pcbs pcbs' : Addr → PCB) (a : Addr) : Prop :=
  (pcbs' a).pId = (pcbs a).pId ∧ (pcbs' a).parentPId = (pcbs a).parentPId ∧ (pcbs' a).parent = (pcbs a).parent

/-- The links of a block are what they are. -/
theorem SameLinks.refl (pcbs : Addr → PCB) (a : Addr) : SameLinks pcbs pcbs a := ⟨rfl, rfl, rfl⟩

/-- The links are all the predicate reads. -/
theorem linkOk_congr {i : Nat} (h : LinkOk pcbs u i) (hs : SameLinks pcbs pcbs' (pcbAt u i)) : LinkOk pcbs' u i := by
  obtain ⟨h1, h2, h3⟩ := hs
  exact ⟨h1.trans h.pId, h2.trans h.parentPId, h3.trans h.parent⟩

/-- A terminal is as it was when its own process control blocks link as they did. -/
theorem termOk_congr (h : TermOk pcbs x n cur u) (hs : ∀ i < maxProgs, SameLinks pcbs pcbs' (pcbAt u i)) : TermOk pcbs' x n cur u := by
  have hbound := h.bound
  have hpushed := pushed_le x
  refine ⟨h.bound, h.pending, fun i hi => linkOk_congr (h.links i hi) (hs i (by omega)), ?_, ?_⟩
  · rcases h.cur with hcur | ⟨h1, h2, h3, h4, h5⟩
    · exact Or.inl hcur
    · have hzero := (hs 0 (by unfold maxProgs; omega)).1
      exact Or.inr ⟨h1, h2, h3, h4, hzero.trans h5⟩
  · intro y a hx ha
    obtain ⟨haddr, hlink⟩ := h.fresh y a hx ha
    refine ⟨haddr, linkOk_congr hlink (hs n ?_)⟩
    have hun : weight Point.uncounted x = 1 := by
      rw [hx, weight_some]
      cases hp : y.point <;> rw [hp] at ha <;> first | rfl | cases ha
    omega

/-- With no call under way, the running process is the top of the stack. -/
theorem termOk_none (h : TermOk pcbs none n cur u) : cur = top (pcbAt u) n := by
  rcases h.cur with hcur | ⟨-, hun, -⟩
  · exact hcur
  · cases hun

/-- A terminal without a running process has none at all. -/
theorem termOk_of_none (h : TermOk pcbs x n none u) : n = 0 := by
  rcases h.cur with hcur | ⟨hn, -⟩
  · have hz := Chain.top_eq_none_iff.mp hcur.symm
    omega
  · exact hn

/-- The process a switch back to a terminal runs: the one before the new process until `curr_pcb_ptr` is set, the new one after
that. A shell put in place of a halted one has the number of that one. -/
theorem pId_of_termOk (h : TermOk pcbs x n (some a) u) : (pcbs a).pId = n + weight Point.pushed x - 1 := by
  rcases h.cur with hcur | ⟨h1, -, h3, h4, h5⟩
  · cases hm : n + weight Point.pushed x with
    | zero =>
      rw [hm, top_zero] at hcur
      cases hcur
    | succ m =>
      rw [hm, top_succ, Option.some.injEq] at hcur
      rw [hcur, (h.links m (by omega)).pId, Nat.add_sub_cancel]
  · rw [Option.some.injEq] at h4
    rw [h4, h5, h1, h3]

/-- Two kernels with the same counters, the same running process and the same links of process control blocks. -/
structure SameTables (k k' : Kernel) : Prop where
  currTerm : k'.currTerm = k.currTerm
  dispTerm : k'.dispTerm = k.dispTerm
  currPcbPtr : k'.currPcbPtr = k.currPcbPtr
  activeProgs : k'.activeProgs = k.activeProgs
  nextPId : k'.nextPId = k.nextPId
  totalProgs : k'.totalProgs = k.totalProgs
  links : ∀ a, SameLinks k.pcbs k'.pcbs a

/-- Two points that count alike, with no block made at the second. -/
theorem sameWeights_of_none {p q : Point} (huncounted : p.uncounted = q.uncounted) (hpushed : p.pushed = q.pushed)
    (hpending : p.pending = q.pending) (hnew : p.newPCB = none) : SameWeights p q :=
  ⟨huncounted, hpushed, hpending, fun b hb => by rw [hnew] at hb; cases hb⟩

/-- The call under way goes on to a point that weighs the same. -/
theorem termOk_goto (h : TermOk pcbs (some y) n cur u) {z : Exec} (hw : SameWeights z.point y.point) :
    TermOk pcbs (some z) n cur u := by
  refine ⟨?_, ?_, ?_, ?_, ?_⟩
  · rw [weight_some, hw.uncounted]
    exact h.bound
  · rw [weight_some, hw.pending]
    exact h.pending
  · rw [weight_some, hw.pushed]
    exact h.links
  · rw [weight_some, weight_some, hw.uncounted, hw.pushed]
    exact h.cur
  · intro w b hz hb
    rw [Option.some.injEq] at hz
    subst hz
    exact h.fresh y b rfl (hw.newPCB b hb)

/-- A call whose process is on the stack goes on, or ends: as many processes are on the stack as before. -/
theorem termOk_counted (h : TermOk pcbs (some y) n cur u) (hcounted : y.point.uncounted = 1 → y.point.pushed ≠ 0) {x : Option Exec}
    {n' : Nat} (hbound : n' + weight Point.uncounted x = n + y.point.uncounted) (hpending : weight Point.pending x ≤ n')
    (hlinks : n' + weight Point.pushed x = n + y.point.pushed) (hnew : ∀ z, x = some z → z.point.newPCB = none) :
    TermOk pcbs x n' cur u := by
  refine ⟨hbound ▸ h.bound, hpending, hlinks ▸ h.links, ?_, ?_⟩
  · rw [hlinks]
    rcases h.cur with hcur | ⟨-, huncounted, hpushed, -⟩
    · exact Or.inl hcur
    · exact absurd hpushed (hcounted huncounted)
  · intro z b hz hb
    rw [hnew z hz] at hb
    cases hb

/-! ### The steps of one call -/

/-- A step of the running terminal that leaves the others' part of the state. -/
structure LocalStep (s s' : Machine) : Prop where
  curr : s'.kernel.currTerm = s.kernel.currTerm
  execs : ∀ u, u ≠ s.kernel.currTerm → s'.execs u = s.execs u
  next : ∀ u, u ≠ s.kernel.currTerm → s'.kernel.nextPId u = s.kernel.nextPId u
  active : ∀ u, u ≠ s.kernel.currTerm → s'.kernel.activeProgs u = s.kernel.activeProgs u
  links : ∀ u, u ≠ s.kernel.currTerm → ∀ i < maxProgs, SameLinks s.kernel.pcbs s'.kernel.pcbs (pcbAt u i)

/-- On the running terminal the process on top is the current one. -/
theorem topPtr_self (k : Kernel) : topPtr k k.currTerm = k.currPcbPtr := if_pos rfl

/-- On the others it is the one `active_progs` has. -/
theorem topPtr_of_ne (h : u ≠ k.currTerm) : topPtr k u = k.activeProgs u := if_neg h

/-- Two sums over the terminals that differ in one term. -/
theorem sum_of_eq_of_ne {f g : Term → Nat} {t : Term} (h : ∀ u, u ≠ t → g u = f u) : ∑ u, g u + f t = ∑ u, f u + g t := by
  have hg : g = Function.update f t (g t) := by
    funext u
    by_cases hu : u = t
    · rw [hu, Function.update_self]
    · rw [Function.update_of_ne hu, h u hu]
  have hsum := sum_update f t (g t)
  rwa [← hg] at hsum

/-- A local step keeps the invariant when it keeps the running terminal's part of it and the count. -/
theorem machineInv_local (h : MachineInv s) (hl : LocalStep s s')
    (hown : TermOk s'.kernel.pcbs (s'.execs s.kernel.currTerm) (s'.kernel.nextPId s.kernel.currTerm) s'.kernel.currPcbPtr s.kernel.currTerm)
    (htotal : s'.kernel.nextPId s.kernel.currTerm + s.kernel.totalProgs + weight Point.pending (s.execs s.kernel.currTerm) =
      s.kernel.nextPId s.kernel.currTerm + s'.kernel.totalProgs + weight Point.pending (s'.execs s.kernel.currTerm))
    (hidle : s'.kernel.activeProgs s.kernel.currTerm = none →
      s.kernel.activeProgs s.kernel.currTerm = none ∧ s'.kernel.dispTerm = s.kernel.dispTerm) : MachineInv s' := by
  refine ⟨⟨?_, ?_, ?_⟩, ?_⟩
  · intro u
    by_cases hu : u = s.kernel.currTerm
    · rw [hu, ← hl.curr, topPtr_self, hl.curr]
      exact hown
    · have hterm := h.terms u
      rw [hl.execs u hu, hl.next u hu, topPtr_of_ne (by rw [hl.curr]; exact hu), hl.active u hu]
      rw [topPtr_of_ne hu] at hterm
      exact termOk_congr hterm (hl.links u hu)
  · have hnext := sum_of_eq_of_ne hl.next
    have hpend := sum_of_eq_of_ne (f := fun u => weight Point.pending (s.execs u)) (g := fun u => weight Point.pending (s'.execs u))
      (fun u hu => by rw [hl.execs u hu])
    have hsum := h.total
    omega
  · intro u hu hact
    rw [hl.curr] at hu
    rw [hl.active u hu] at hact
    rw [hl.execs u hu]
    exact h.away u hu hact
  · intro hnone
    rw [hl.curr] at hnone
    obtain ⟨hnone₀, hdisp⟩ := hidle hnone
    obtain ⟨hdisp₀, hall⟩ := h.idle hnone₀
    refine ⟨by rw [hl.curr, hdisp, hdisp₀], fun u => ?_⟩
    by_cases hu : u = s.kernel.currTerm
    · rw [hu, hnone]
    · rw [hl.active u hu]
      exact hall u

/-- The call under way goes on, with what it changes of the kernel left to its own terminal. -/
theorem machineInv_goto (h : MachineInv s) (hcurr : k.currTerm = s.kernel.currTerm) {p : Point}
    (hnext : ∀ u, u ≠ s.kernel.currTerm → k.nextPId u = s.kernel.nextPId u)
    (hactive : ∀ u, u ≠ s.kernel.currTerm → k.activeProgs u = s.kernel.activeProgs u)
    (hlinks : ∀ u, u ≠ s.kernel.currTerm → ∀ i < maxProgs, SameLinks s.kernel.pcbs k.pcbs (pcbAt u i))
    (hown : TermOk k.pcbs (some { y with point := p }) (k.nextPId s.kernel.currTerm) k.currPcbPtr s.kernel.currTerm)
    (hx : s.execs s.kernel.currTerm = some y)
    (htotal : k.nextPId s.kernel.currTerm + s.kernel.totalProgs + y.point.pending =
      s.kernel.nextPId s.kernel.currTerm + k.totalProgs + p.pending)
    (hidle : k.activeProgs s.kernel.currTerm = none →
      s.kernel.activeProgs s.kernel.currTerm = none ∧ k.dispTerm = s.kernel.dispTerm) : MachineInv (s.goto y k p) := by
  have hexec : (s.goto y k p).execs s.kernel.currTerm = some { y with point := p } := Function.update_self _ _ _
  refine machineInv_local h ⟨hcurr, fun u hu => Function.update_of_ne hu _ _, hnext, hactive, hlinks⟩ ?_ ?_ hidle
  · rw [hexec]
    exact hown
  · rw [hexec, hx, weight_some, weight_some]
    exact htotal

/-- Steps that change neither the counters nor the links of the stacks. -/
theorem machineInv_quiet (h : MachineInv s) (hx : s.execs s.kernel.currTerm = some y) {p : Point} (hk : SameTables s.kernel k)
    (hw : SameWeights p y.point) : MachineInv (s.goto y k p) := by
  have hterm := h.terms s.kernel.currTerm
  rw [hx, topPtr_self] at hterm
  refine machineInv_goto h hk.currTerm (fun u _ => by rw [hk.nextPId]) (fun u _ => by rw [hk.activeProgs])
    (fun u _ i _ => hk.links _) ?_ hx ?_ ?_
  · rw [hk.nextPId, hk.currPcbPtr]
    exact termOk_congr (termOk_goto hterm hw) (fun i _ => hk.links _)
  · rw [hk.nextPId, hk.totalProgs, hw.pending]
  · rw [hk.activeProgs, hk.dispTerm]
    exact fun hnone => ⟨hnone, rfl⟩

/-- `PCB_init` of the process to come. -/
theorem machineInv_pcbInit (h : MachineInv s) (hx : s.execs s.kernel.currTerm = some y) (hp : y.point = .pcbInit) :
    MachineInv (s.goto y (pcbInit img s.kernel (pcbAt s.kernel.currTerm (s.kernel.nextPId s.kernel.currTerm)) y.args y.fileEntry)
      (.setShellFlag (pcbAt s.kernel.currTerm (s.kernel.nextPId s.kernel.currTerm)))) := by
  have hterm := h.terms s.kernel.currTerm
  rw [hx, topPtr_self] at hterm
  have hbound := hterm.bound
  have hpcb := pcbInit_eq img s.kernel (pcbAt s.kernel.currTerm (s.kernel.nextPId s.kernel.currTerm)) y.args y.fileEntry
  rw [weight_some, hp, show Point.uncounted .pcbInit = 1 from rfl] at hbound
  -- the process below the new one is the running one
  have hbelow : s.kernel.nextPId s.kernel.currTerm ≠ 0 →
      s.kernel.currPcbPtr = top (pcbAt s.kernel.currTerm) (s.kernel.nextPId s.kernel.currTerm) := by
    intro hz
    rcases hterm.cur with hcur | ⟨hzero, -⟩
    · rw [weight_some, hp] at hcur
      exact hcur
    · exact absurd hzero hz
  have hcur : s.kernel.nextPId s.kernel.currTerm ≠ 0 → ∃ c, s.kernel.currPcbPtr = some c ∧
      c ≠ pcbAt s.kernel.currTerm (s.kernel.nextPId s.kernel.currTerm) := by
    intro hz
    obtain ⟨m, hm⟩ := Nat.exists_eq_succ_of_ne_zero hz
    refine ⟨_, by rw [hbelow hz, hm]; exact top_succ _ m, ?_⟩
    exact pcbAt_ne_of_pid (by omega) (by omega) (by omega)
  obtain ⟨q1, q2, q3, -⟩ := pcbInit_pcbs_self img y.args y.fileEntry hcur
  have hsame : ∀ b, b ≠ pcbAt s.kernel.currTerm (s.kernel.nextPId s.kernel.currTerm) →
      SameLinks s.kernel.pcbs (pcbInit img s.kernel (pcbAt s.kernel.currTerm (s.kernel.nextPId s.kernel.currTerm)) y.args
        y.fileEntry).pcbs b := by
    intro b hb
    rw [SameLinks, pcbInit_pcbs_other hb]
    split
    · exact ⟨rfl, rfl, rfl⟩
    · exact ⟨rfl, rfl, rfl⟩
  generalize pcbInit img s.kernel (pcbAt s.kernel.currTerm (s.kernel.nextPId s.kernel.currTerm)) y.args y.fileEntry = k₁ at *
  have hnew : LinkOk k₁.pcbs s.kernel.currTerm (s.kernel.nextPId s.kernel.currTerm) := by
    refine ⟨q1, q2, q3.trans ?_⟩
    by_cases hz : s.kernel.nextPId s.kernel.currTerm = 0
    · rw [if_pos hz, hz, top_zero]
    · rw [if_neg hz, hbelow hz]
  generalize hpcbs : k₁.pcbs = pcbs₁ at *
  subst hpcb
  refine machineInv_goto (k := { s.kernel with pcbs := pcbs₁ }) h rfl (fun u _ => rfl) (fun u _ => rfl) ?_ ?_ hx ?_
    (fun hnone => ⟨hnone, rfl⟩)
  · intro u hu i hi
    exact hsame _ (pcbAt_ne_of_term hi (by omega) hu)
  · refine ⟨hbound, Nat.zero_le _, ?_, ?_, ?_⟩
    · intro i hi
      have hlt : i < s.kernel.nextPId s.kernel.currTerm := hi
      have hlink := hterm.links i (by omega)
      exact linkOk_congr hlink (hsame _ (pcbAt_ne_of_pid (by omega) (by omega) (by omega)))
    · rcases hterm.cur with hcur | ⟨hzero, -, -, hptr, -⟩
      · rw [weight_some, hp] at hcur
        exact Or.inl hcur
      · refine Or.inr ⟨hzero, rfl, rfl, hptr, ?_⟩
        rw [hzero] at q1
        exact q1
    · intro z b hz hb
      rw [Option.some.injEq] at hz
      subst hz
      rw [Point.newPCB, Option.some.injEq] at hb
      exact ⟨hb.symm, hnew⟩
  · rw [hp]
    rfl

/-- `curr_pcb_ptr = pcb_prog`: the new process is the top of the stack. -/
theorem machineInv_setCurrPcb (h : MachineInv s) (hx : s.execs s.kernel.currTerm = some y) {kb : Nat} (hp : y.point = .setCurrPcb a kb) :
    MachineInv (s.goto y (setCurrPcb s.kernel a) (.incrNextPId kb)) := by
  have hterm := h.terms s.kernel.currTerm
  rw [hx, topPtr_self] at hterm
  have hbound := hterm.bound
  rw [weight_some, hp, show Point.uncounted (.setCurrPcb a kb) = 1 from rfl] at hbound
  obtain ⟨haddr, hlink⟩ := hterm.fresh y a rfl (by rw [hp]; rfl)
  refine machineInv_goto (k := setCurrPcb s.kernel a) h rfl (fun u _ => rfl) (fun u _ => rfl) (fun u _ i _ => SameLinks.refl _ _) ?_ hx ?_
    (fun hnone => ⟨hnone, rfl⟩)
  · refine ⟨hbound, Nat.zero_le _, ?_, ?_, ?_⟩
    · intro i hi
      have hlt : i < s.kernel.nextPId s.kernel.currTerm + 1 := hi
      rcases Nat.lt_succ_iff_lt_or_eq.mp hlt with hi' | rfl
      · exact hterm.links i (by omega)
      · exact hlink
    · exact Or.inl (congrArg some haddr)
    · intro z b hz hb
      rw [Option.some.injEq] at hz
      subst hz
      cases hb
  · rw [hp]
    rfl

/-- `next_p_id[curr_term]++`. -/
theorem machineInv_incrNextPId (h : MachineInv s) (hx : s.execs s.kernel.currTerm = some y) {kb : Nat} (hp : y.point = .incrNextPId kb) :
    MachineInv (s.goto y (incrNextPId s.kernel) (.setActive kb)) := by
  have hterm := h.terms s.kernel.currTerm
  rw [hx, topPtr_self] at hterm
  have hself : (incrNextPId s.kernel).nextPId s.kernel.currTerm = s.kernel.nextPId s.kernel.currTerm + 1 := Function.update_self _ _ _
  refine machineInv_goto (k := incrNextPId s.kernel) h rfl (fun u hu => Function.update_of_ne hu _ _) (fun u _ => rfl)
    (fun u _ i _ => SameLinks.refl _ _) ?_ hx ?_ (fun hnone => ⟨hnone, rfl⟩)
  · rw [hself]
    refine termOk_counted hterm (fun _ => ?_) (by rw [hp]; rfl) (Nat.le_add_left 1 _) (by rw [hp]; rfl) ?_
    · rw [hp]
      exact Nat.one_ne_zero
    · rintro z ⟨rfl⟩
      rfl
  · have hpend : y.point.pending = 0 := by rw [hp]; rfl
    have hpend' : Point.pending (.setActive kb) = 1 := rfl
    have htotal : (incrNextPId s.kernel).totalProgs = s.kernel.totalProgs := rfl
    omega

/-- `active_progs[curr_term] = curr_pcb_ptr`. -/
theorem machineInv_setActive (h : MachineInv s) (hx : s.execs s.kernel.currTerm = some y) {kb : Nat} (hp : y.point = .setActive kb) :
    MachineInv (s.goto y (setActive s.kernel) (.incrTotal kb)) := by
  have hterm := h.terms s.kernel.currTerm
  rw [hx, topPtr_self] at hterm
  have hsame : TermOk s.kernel.pcbs (some { y with point := .incrTotal kb }) (s.kernel.nextPId s.kernel.currTerm) s.kernel.currPcbPtr
      s.kernel.currTerm := termOk_goto hterm (by rw [hp]; exact ⟨rfl, rfl, rfl, fun b hb => by cases hb⟩)
  have hself : (setActive s.kernel).activeProgs s.kernel.currTerm = s.kernel.currPcbPtr := Function.update_self _ _ _
  refine machineInv_goto (k := setActive s.kernel) h rfl (fun u _ => rfl) (fun u hu => Function.update_of_ne hu _ _)
    (fun u _ i _ => SameLinks.refl _ _) hsame hx (by rw [hp]; rfl) ?_
  intro hnone
  rw [hself] at hnone
  rw [hnone] at hterm
  have hzero := termOk_of_none hterm
  have hpend := hterm.pending
  rw [weight_some, hp, hzero] at hpend
  exact absurd hpend (Nat.not_succ_le_zero 0)

/-- `total_progs++`. -/
theorem machineInv_incrTotal (h : MachineInv s) (hx : s.execs s.kernel.currTerm = some y) {kb : Nat} (hp : y.point = .incrTotal kb) :
    MachineInv (s.goto y (incrTotal s.kernel) (.setESP0 kb)) := by
  have hterm := h.terms s.kernel.currTerm
  rw [hx, topPtr_self] at hterm
  refine machineInv_goto (k := incrTotal s.kernel) h rfl (fun u _ => rfl) (fun u _ => rfl)
    (fun u _ i _ => SameLinks.refl _ _) ?_ hx ?_ (fun hnone => ⟨hnone, rfl⟩)
  · refine termOk_counted hterm (fun hun => ?_) (by rw [hp]; rfl) (Nat.zero_le _) (by rw [hp]; rfl) ?_
    · rw [hp] at hun
      cases hun
    · rintro z ⟨rfl⟩
      rfl
  · have hpend : y.point.pending = 1 := by rw [hp]; rfl
    have hpend' : Point.pending (.setESP0 kb) = 0 := rfl
    have htotal : (incrTotal s.kernel).totalProgs = s.kernel.totalProgs + 1 := rfl
    have hnext : (incrTotal s.kernel).nextPId = s.kernel.nextPId := rfl
    rw [hnext]
    omega

/-- The `iret`. -/
theorem machineInv_iret (h : MachineInv s) (hx : s.execs s.kernel.currTerm = some y) (hp : y.point = .iret) :
    MachineInv { s with execs := Function.update s.execs s.kernel.currTerm none } := by
  have hterm := h.terms s.kernel.currTerm
  rw [hx, topPtr_self] at hterm
  have hself : Function.update s.execs s.kernel.currTerm none s.kernel.currTerm = none := Function.update_self _ _ _
  refine machineInv_local h ⟨rfl, fun u hu => Function.update_of_ne hu _ _, fun u _ => rfl, fun u _ => rfl,
    fun u _ i _ => SameLinks.refl _ _⟩ ?_ ?_ (fun hnone => ⟨hnone, rfl⟩)
  · dsimp only
    rw [hself]
    refine termOk_counted hterm (fun hun => ?_) (by rw [hp]; rfl) (Nat.zero_le _) (by rw [hp]; rfl) (fun z hz => by cases hz)
    rw [hp] at hun
    cases hun
  · dsimp only
    rw [hself, hx, weight_none, weight_some, hp]
    rfl

/-- A change of a block that leaves its links. -/
theorem sameLinks_modifyPCB (k : Kernel) (a : Addr) {f : PCB → PCB}
    (hf : ∀ p, (f p).pId = p.pId ∧ (f p).parentPId = p.parentPId ∧ (f p).parent = p.parent) (b : Addr) :
    SameLinks k.pcbs (k.modifyPCB a f).pcbs b := by
  unfold SameLinks Kernel.modifyPCB
  dsimp only
  by_cases hb : b = a
  · rw [hb, Function.update_self]
    exact hf _
  · rw [Function.update_of_ne hb]
    exact ⟨rfl, rfl, rfl⟩

/-- Such a change leaves the tables. -/
theorem sameTables_modifyPCB (k : Kernel) (a : Addr) {f : PCB → PCB}
    (hf : ∀ p, (f p).pId = p.pId ∧ (f p).parentPId = p.parentPId ∧ (f p).parent = p.parent) : SameTables k (k.modifyPCB a f) :=
  ⟨rfl, rfl, rfl, rfl, rfl, rfl, sameLinks_modifyPCB k a hf⟩

/-- `set_ESP0` leaves the tables. -/
theorem sameTables_setESP0 (k : Kernel) (kb : Nat) : SameTables k (setESP0 k kb) := by
  unfold setESP0
  split
  · exact ⟨rfl, rfl, rfl, rfl, rfl, rfl, fun a => SameLinks.refl _ a⟩
  · exact sameTables_modifyPCB _ _ (fun p => ⟨rfl, rfl, rfl⟩)

/-- A step of a call keeps the invariant of the machine. -/
theorem machineInv_advance (h : MachineInv s) (hx : s.execs s.kernel.currTerm = some y) (hs : advance img s y = .ok s') :
    MachineInv s' := by
  rcases advance_goes hs with ⟨k, p, hgoes, rfl⟩ | ⟨hp, rfl⟩
  · generalize hq : y.point = q at hgoes
    -- most steps touch neither the counters nor the links
    have hquiet : SameTables s.kernel k → SameWeights p q → MachineInv (s.goto y k p) :=
      fun hk hw => machineInv_quiet h hx hk (hq ▸ hw)
    cases hgoes with
    | restart =>
      exact hquiet ⟨rfl, rfl, rfl, rfl, rfl, rfl, fun a => SameLinks.refl _ a⟩ (sameWeights_of_none rfl rfl rfl rfl)
    | mapProgPage =>
      exact hquiet ⟨rfl, rfl, rfl, rfl, rfl, rfl, fun a => SameLinks.refl _ a⟩ (sameWeights_of_none rfl rfl rfl rfl)
    | loadEnd v =>
      exact hquiet ⟨rfl, rfl, rfl, rfl, rfl, rfl, fun a => SameLinks.refl _ a⟩ (sameWeights_of_none rfl rfl rfl rfl)
    | load v b bytes a ha =>
      exact hquiet ⟨rfl, rfl, rfl, rfl, rfl, rfl, fun a => SameLinks.refl _ a⟩ (sameWeights_of_none rfl rfl rfl rfl)
    | pcbInit => exact machineInv_pcbInit h hx hq
    | setShellFlag a => exact hquiet (sameTables_modifyPCB _ _ (fun p => ⟨rfl, rfl, rfl⟩)) ⟨rfl, rfl, rfl, fun b hb => hb⟩
    | setCurrPcb a kb => exact machineInv_setCurrPcb h hx hq
    | incrNextPId kb => exact machineInv_incrNextPId h hx hq
    | setActive kb => exact machineInv_setActive h hx hq
    | incrTotal kb => exact machineInv_incrTotal h hx hq
    | setESP0 kb => exact hquiet (sameTables_setESP0 _ kb) (sameWeights_of_none rfl rfl rfl rfl)
    | setTss kb =>
      exact hquiet ⟨rfl, rfl, rfl, rfl, rfl, rfl, fun a => SameLinks.refl _ a⟩ (sameWeights_of_none rfl rfl rfl rfl)
    | clearRetval =>
      exact hquiet ⟨rfl, rfl, rfl, rfl, rfl, rfl, fun a => SameLinks.refl _ a⟩ (sameWeights_of_none rfl rfl rfl rfl)
  · exact machineInv_iret h hx hp

end PreemptionAux

end ThreeTermOS
