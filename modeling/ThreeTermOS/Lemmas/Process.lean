import Mathlib.Algebra.BigOperators.Fin
import ThreeTermOS.Kernel
import ThreeTermOS.Library.Chain
import ThreeTermOS.Lemmas.FileDesc
import ThreeTermOS.Lemmas.FileSys
import ThreeTermOS.Lemmas.Terminal

/-!
# The process tables

Each terminal runs a stack of processes: process `p` of terminal `t` sits in the block `pcbAt t p`, names the one below it as
its parent and the one above as its child, and the terminal's current program is the top. `ProcInv` says so for all three
terminals, ties the counters to the stacks, and the mapped program page and the kernel stack of the task state to the process
that runs. `execute_func` pushes, `halt_func` pops, a switch changes which stack is the current one.
-/

namespace ThreeTermOS

open Bytes Chain Runs

/-- The block of process `p` of terminal `t`. -/
def pcbAt (t : Term) (p : Nat) : Addr := pidToPCBAddr p t

/-- Process `p` of a terminal that runs `n`. -/
structure SlotOk (pcbs : Addr → PCB) (t : Term) (n p : Nat) : Prop where
  pId : (pcbs (pcbAt t p)).pId = p
  parentPId : (pcbs (pcbAt t p)).parentPId = p - 1
  parent : (pcbs (pcbAt t p)).parent = top (pcbAt t) p
  child : (pcbs (pcbAt t p)).child = if p + 1 < n then some (pcbAt t (p + 1)) else none
  termNum : (pcbs (pcbAt t p)).termNum = t
  esp0 : (pcbs (pcbAt t p)).esp0 = pidToKstackBottom p t

/-- The stack of a terminal that runs `n` processes. -/
def Slots (pcbs : Addr → PCB) (t : Term) (n : Nat) : Prop := ∀ p < n, SlotOk pcbs t n p

/-- The counters, the stacks and the copies of the running process agree. -/
structure ProcInv (k : Kernel) : Prop where
  total : k.totalProgs = ∑ t, k.nextPId t
  bound : k.totalProgs ≤ maxProgs
  slots : ∀ t, Slots k.pcbs t (k.nextPId t)
  tops : ∀ t, k.activeProgs t = top (pcbAt t) (k.nextPId t)
  curr : k.currPcbPtr = k.activeProgs k.currTerm
  idle : k.currPcbPtr = none → ∀ t, k.nextPId t = 0
  page : k.currPcbPtr ≠ none → k.pdProg = progEntry (k.nextPId k.currTerm - 1) k.currTerm
  esp0 : k.currPcbPtr ≠ none → k.tssEsp0 = pidToKstackBottom (k.nextPId k.currTerm - 1) k.currTerm

/-- What `execute_func` needs to push a process: the stacks are right, and the current pointer is the top of its terminal's, if
that has one. The launch of a shell inside `halt_func` and `do_switch` comes with no more than this. -/
structure Launchable (k : Kernel) : Prop where
  total : k.totalProgs = ∑ t, k.nextPId t
  slots : ∀ t, Slots k.pcbs t (k.nextPId t)
  tops : ∀ t, t ≠ k.currTerm → k.activeProgs t = top (pcbAt t) (k.nextPId t)
  below : k.nextPId k.currTerm ≠ 0 → k.currPcbPtr = top (pcbAt k.currTerm) (k.nextPId k.currTerm)

/-- A kernel that has started its first shell, from boot. -/
def FirstShell (img : Image) (k : Kernel) : Prop := ∃ m p r, executeFunc img (boot m p) shellCommand r = .started k

/-- Two kernels with the same process tables and the same running process. -/
structure SameProcs (k k' : Kernel) : Prop where
  currTerm : k'.currTerm = k.currTerm
  currPcbPtr : k'.currPcbPtr = k.currPcbPtr
  pcbs : k'.pcbs = k.pcbs
  activeProgs : k'.activeProgs = k.activeProgs
  totalProgs : k'.totalProgs = k.totalProgs
  nextPId : k'.nextPId = k.nextPId
  pdProg : k'.pdProg = k.pdProg
  tssEsp0 : k'.tssEsp0 = k.tssEsp0

namespace ProcessAux

variable {k k' : Kernel} {img : Image} {r : Residue} {t t' : Term} {n p p' : Nat}

/-! ### Blocks -/

/-- Different processes have different blocks. -/
theorem pcbAt_inj (hp : p < maxProgs) (hp' : p' < maxProgs) (h : pcbAt t p = pcbAt t' p') : t = t' ∧ p = p' := by
  have ht := t.isLt
  have ht' := t'.isLt
  have hm : maxProgs = 6 := rfl
  unfold pcbAt pidToPCBAddr at h
  have haddr : 8388608 - 8192 * (p + t.val * 6 + 1) = 8388608 - 8192 * (p' + t'.val * 6 + 1) := h
  have hval : t.val = t'.val := by omega
  exact ⟨Fin.ext hval, by omega⟩

/-- Processes of two terminals have two blocks. -/
theorem pcbAt_ne_of_term (hp : p < maxProgs) (hp' : p' < maxProgs) (h : t ≠ t') : pcbAt t p ≠ pcbAt t' p' :=
  fun he => h (pcbAt_inj hp hp' he).1

/-- Two processes of a terminal have two blocks. -/
theorem pcbAt_ne_of_pid (hp : p < maxProgs) (hp' : p' < maxProgs) (h : p ≠ p') : pcbAt t p ≠ pcbAt t' p' :=
  fun he => h (pcbAt_inj hp hp' he).2

/-! ### Sums over the terminals -/

/-- A sum over the terminals with one summand changed. -/
theorem sum_update (f : Term → Nat) (t : Term) (v : Nat) : ∑ s, Function.update f t v s + f t = ∑ s, f s + v := by
  rw [Finset.sum_update_of_mem (Finset.mem_univ t), ← Finset.add_sum_erase Finset.univ f (Finset.mem_univ t),
    Finset.sdiff_singleton_eq_erase]
  omega

/-- A sum is no less than each summand. -/
theorem le_sum (f : Term → Nat) (t : Term) : f t ≤ ∑ s, f s := by
  have h := sum_update f t 0
  omega

/-! ### Stacks -/

/-- The blocks of a terminal's processes are all the predicate reads. -/
theorem Slots.congr {pcbs pcbs' : Addr → PCB} (h : Slots pcbs t n) (he : ∀ p < n, pcbs' (pcbAt t p) = pcbs (pcbAt t p)) :
    Slots pcbs' t n := by
  intro p hp
  obtain ⟨h1, h2, h3, h4, h5, h6⟩ := h p hp
  rw [← he p hp] at h1 h2 h3 h4 h5 h6
  exact ⟨h1, h2, h3, h4, h5, h6⟩

/-- A new process on top of a stack: the one below gets it as its child. -/
theorem Slots.push {pcbs pcbs' : Addr → PCB} (h : Slots pcbs t n) (hnew : SlotOk pcbs' t (n + 1) n)
    (hbelow : ∀ p < n, pcbs' (pcbAt t p) =
      if p + 1 = n then { pcbs (pcbAt t p) with child := some (pcbAt t n) } else pcbs (pcbAt t p)) :
    Slots pcbs' t (n + 1) := by
  intro p hp
  rcases Nat.lt_succ_iff_lt_or_eq.mp hp with hp | rfl
  · obtain ⟨h1, h2, h3, h4, h5, h6⟩ := h p hp
    have hb := hbelow p hp
    by_cases htop : p + 1 = n
    · rw [if_pos htop] at hb
      refine ⟨?_, ?_, ?_, ?_, ?_, ?_⟩
      · rw [hb, h1]
      · rw [hb, h2]
      · rw [hb, h3]
      · rw [hb, htop, if_pos (Nat.lt_succ_self n)]
      · rw [hb, h5]
      · rw [hb, h6]
    · rw [if_neg htop] at hb
      refine ⟨?_, ?_, ?_, ?_, ?_, ?_⟩
      · rw [hb, h1]
      · rw [hb, h2]
      · rw [hb, h3]
      · rw [hb, h4, if_pos (by omega), if_pos (by omega)]
      · rw [hb, h5]
      · rw [hb, h6]
  · exact hnew

/-- The top process gone: the one below it has no child any more. -/
theorem Slots.pop {pcbs : Addr → PCB} (h : Slots pcbs t (n + 2)) (hn : n + 2 ≤ maxProgs) :
    Slots (Function.update pcbs (pcbAt t n) { pcbs (pcbAt t n) with child := none }) t (n + 1) := by
  intro p hp
  obtain ⟨h1, h2, h3, h4, h5, h6⟩ := h p (by omega)
  by_cases htop : p = n
  · subst htop
    refine ⟨?_, ?_, ?_, ?_, ?_, ?_⟩
    · rw [Function.update_self, h1]
    · rw [Function.update_self, h2]
    · rw [Function.update_self, h3]
    · rw [Function.update_self, if_neg (by omega)]
    · rw [Function.update_self, h5]
    · rw [Function.update_self, h6]
  · have hne : pcbAt t p ≠ pcbAt t n := pcbAt_ne_of_pid (by omega) (by omega) htop
    refine ⟨?_, ?_, ?_, ?_, ?_, ?_⟩
    · rw [Function.update_of_ne hne, h1]
    · rw [Function.update_of_ne hne, h2]
    · rw [Function.update_of_ne hne, h3]
    · rw [Function.update_of_ne hne, h4, if_pos (by omega), if_pos (by omega)]
    · rw [Function.update_of_ne hne, h5]
    · rw [Function.update_of_ne hne, h6]

/-! ### Steps that leave the tables alone -/

/-- The process tables are what they are. -/
theorem SameProcs.refl (k : Kernel) : SameProcs k k := ⟨rfl, rfl, rfl, rfl, rfl, rfl, rfl, rfl⟩

/-- They stay over two changes in a row. -/
theorem SameProcs.trans {k'' : Kernel} (h : SameProcs k k') (h' : SameProcs k' k'') : SameProcs k k'' :=
  ⟨h'.currTerm.trans h.currTerm, h'.currPcbPtr.trans h.currPcbPtr, h'.pcbs.trans h.pcbs, h'.activeProgs.trans h.activeProgs,
    h'.totalProgs.trans h.totalProgs, h'.nextPId.trans h.nextPId, h'.pdProg.trans h.pdProg, h'.tssEsp0.trans h.tssEsp0⟩

/-- The invariant speaks of the process tables alone. -/
theorem procInv_congr (h : ProcInv k) (hs : SameProcs k k') : ProcInv k' := by
  obtain ⟨h1, h2, h3, h4, h5, h6, h7, h8⟩ := h
  obtain ⟨s1, s2, s3, s4, s5, s6, s7, s8⟩ := hs
  rw [← s5, ← s6] at h1
  rw [← s5] at h2
  rw [← s3, ← s6] at h3
  rw [← s4, ← s6] at h4
  rw [← s2, ← s4, ← s1] at h5
  rw [← s2, ← s6] at h6
  rw [← s2, ← s7, ← s6, ← s1] at h7
  rw [← s2, ← s8, ← s6, ← s1] at h8
  exact ⟨h1, h2, h3, h4, h5, h6, h7, h8⟩

/-- So does the state a launch starts from. -/
theorem launchable_congr (h : Launchable k) (hs : SameProcs k k') : Launchable k' := by
  obtain ⟨h1, h2, h3, h4⟩ := h
  obtain ⟨s1, s2, s3, s4, s5, s6, -, -⟩ := hs
  rw [← s5, ← s6] at h1
  rw [← s3, ← s6] at h2
  rw [← s4, ← s6, ← s1] at h3
  rw [← s2, ← s6, ← s1] at h4
  exact ⟨h1, h2, h3, h4⟩

/-- A change of the console alone leaves the process tables. -/
theorem sameProcs_console {c : Console} (h : k.toConsole.SameTerms c) : SameProcs k { k with toConsole := c } :=
  ⟨h.curr, rfl, rfl, rfl, rfl, rfl, rfl, rfl⟩

/-- A message leaves them. -/
theorem sameProcs_print (k : Kernel) (s : String) : SameProcs k (k.print s) :=
  sameProcs_console (TerminalAux.terminalPrintf_sameTerms k.toConsole _ _)

/-- Stores to memory change the memory and nothing else. -/
theorem storeBytes_state (bs : List UInt8) : ∀ (k : Kernel) (v : Nat), ∃ m, (storeBytes k v bs).state = { k with mem := m } := by
  induction bs with
  | nil => exact fun k _ => ⟨k.mem, rfl⟩
  | cons b bs ih =>
    intro k v
    rw [storeBytes]
    split
    · exact ⟨k.mem, rfl⟩
    · rename_i a _
      obtain ⟨m, hm⟩ := ih { k with mem := set k.mem a b } (v + 1)
      exact ⟨m, hm⟩

/-- A physical address that no store goes to keeps its byte. -/
theorem storeBytes_frame (bs : List UInt8) : ∀ (k k' : Kernel) (v : Nat), storeBytes k v bs = .ok k' →
    ∀ a, (∀ i < bs.length, k.translate (v + i) ≠ some a) → k'.mem a = k.mem a := by
  induction bs with
  | nil =>
    intro k k' v hs a _
    rw [storeBytes, Outcome.ok.injEq] at hs
    rw [hs]
  | cons b bs ih =>
    intro k k' v hs a ha
    rw [storeBytes] at hs
    cases hx : k.translate v with
    | none =>
      rw [hx] at hs
      cases hs
    | some x =>
      simp only [hx] at hs
      rw [ih { k with mem := set k.mem x b } k' (v + 1) hs a ?_]
      · refine set_other _ _ ?_
        rintro rfl
        exact ha 0 (Nat.zero_lt_succ _) hx
      · intro i hi
        have hne := ha (i + 1) (Nat.succ_lt_succ hi)
        rwa [← Nat.add_assoc, Nat.add_right_comm] at hne

/-- A store faults or goes through. -/
theorem storeBytes_ne_nullDeref (bs : List UInt8) : ∀ (k : Kernel) (v : Nat) (k₁ : Kernel), storeBytes k v bs ≠ .stop .nullDeref k₁ := by
  induction bs with
  | nil => exact fun _ _ _ => nofun
  | cons b bs ih =>
    intro k v k₁
    rw [storeBytes]
    split
    · exact nofun
    · exact ih _ _ _

/-! ### execute_func -/

/-- The process control block `PCB_init` fills in: a root, or a process that names the current one as its parent. -/
theorem pcbInit_pcbs_self (img : Image) {a : Addr} (args : List UInt8) (d : Dentry)
    (hcur : k.nextPId k.currTerm ≠ 0 → ∃ cur, k.currPcbPtr = some cur ∧ cur ≠ a) :
    let q := (pcbInit img k a args d).pcbs a
    q.pId = k.nextPId k.currTerm ∧ q.parentPId = k.nextPId k.currTerm - 1 ∧
      q.parent = (if k.nextPId k.currTerm = 0 then none else k.currPcbPtr) ∧ q.child = none ∧ q.termNum = k.currTerm := by
  unfold pcbInit Kernel.modifyPCB
  by_cases hz : k.nextPId k.currTerm = 0
  · cases k.currPcbPtr with
    | none => simp [PCB.init, hz]
    | some cur => simp [PCB.init, hz]
  · obtain ⟨cur, hc, hne⟩ := hcur hz
    simp [PCB.init, hz, hc, Ne.symm hne]

/-- The others: the current process gets the new one as its child. -/
theorem pcbInit_pcbs_other {a b : Addr} {args : List UInt8} {d : Dentry} (hb : b ≠ a) :
    (pcbInit img k a args d).pcbs b =
      if k.nextPId k.currTerm ≠ 0 ∧ k.currPcbPtr = some b then { k.pcbs b with child := some a } else k.pcbs b := by
  unfold pcbInit Kernel.modifyPCB
  cases hc : k.currPcbPtr with
  | none => simp [hb]
  | some cur =>
    by_cases hz : k.nextPId k.currTerm = 0
    · simp [hz, hb]
    · by_cases hcb : cur = b
      · subst hcb
        simp [hz, hb]
      · simp [hz, hb, hcb, Ne.symm hcb]

/-- `PCB_init` writes process control blocks only. -/
theorem pcbInit_eq (img : Image) (k : Kernel) (a : Addr) (args : List UInt8) (d : Dentry) :
    pcbInit img k a args d = { k with pcbs := (pcbInit img k a args d).pcbs } := by
  unfold pcbInit Kernel.modifyPCB
  cases k.currPcbPtr with
  | none => rfl
  | some cur =>
    by_cases hz : k.nextPId k.currTerm = 0
    · simp [hz]
    · simp [hz]

/-- What `execute_func` does after `PCB_init`. -/
theorem commitProgram_eq (k : Kernel) (a : Addr) (fileName : CPtr) :
    commitProgram k a fileName =
      { k with
        pcbs := Function.update k.pcbs a { k.pcbs a with
          shellFlag := shellFlagOf fileName, esp0 := pidToKstackBottom (k.nextPId k.currTerm) k.currTerm }
        currPcbPtr := some a
        nextPId := Function.update k.nextPId k.currTerm (k.nextPId k.currTerm + 1)
        activeProgs := Function.update k.activeProgs k.currTerm (some a)
        totalProgs := k.totalProgs + 1
        tssEsp0 := pidToKstackBottom (k.nextPId k.currTerm) k.currTerm
        haltRetval := Function.update k.haltRetval k.currTerm 0 } := by
  simp [commitProgram, setShellFlag, setCurrPcb, incrNextPId, setActive, incrTotal, setESP0, setTss, clearRetval,
    Kernel.modifyPCB]

/-- The process control blocks `execute_func` leaves, for a new process at `a`. -/
def startedPcbs (img : Image) (k : Kernel) (a : Addr) (fileName : CPtr) (args : List UInt8) (d : Dentry) : Addr → PCB :=
  Function.update (pcbInit img k a args d).pcbs a { (pcbInit img k a args d).pcbs a with
    shellFlag := shellFlagOf fileName, esp0 := pidToKstackBottom (k.nextPId k.currTerm) k.currTerm }

/-- `execute_func` from `PCB_init` on, as one update. -/
theorem startProgram_eq (img : Image) (k : Kernel) (fileName : CPtr) (args : List UInt8) (d : Dentry) :
    startProgram img k fileName args d =
      { k with
        pcbs := startedPcbs img k (pcbAt k.currTerm (k.nextPId k.currTerm)) fileName args d
        currPcbPtr := some (pcbAt k.currTerm (k.nextPId k.currTerm))
        nextPId := Function.update k.nextPId k.currTerm (k.nextPId k.currTerm + 1)
        activeProgs := Function.update k.activeProgs k.currTerm (some (pcbAt k.currTerm (k.nextPId k.currTerm)))
        totalProgs := k.totalProgs + 1
        tssEsp0 := pidToKstackBottom (k.nextPId k.currTerm) k.currTerm
        haltRetval := Function.update k.haltRetval k.currTerm 0 } := by
  change commitProgram (pcbInit img k (pcbAt k.currTerm (k.nextPId k.currTerm)) args d)
    (pcbAt k.currTerm (k.nextPId k.currTerm)) fileName = _
  unfold startedPcbs
  have hinit := pcbInit_eq img k (pcbAt k.currTerm (k.nextPId k.currTerm)) args d
  generalize pcbInit img k (pcbAt k.currTerm (k.nextPId k.currTerm)) args d = k₁ at hinit ⊢
  rw [commitProgram_eq, hinit]

section StartedPcbs

variable {a b : Addr} {fileName : CPtr} {args : List UInt8} {d : Dentry}

/-- The new process on top of a stack. -/
theorem slotOk_startedPcbs (ha : a = pcbAt k.currTerm (k.nextPId k.currTerm))
    (hcur : k.nextPId k.currTerm ≠ 0 → ∃ cur, k.currPcbPtr = some cur ∧ cur ≠ a)
    (hbelow : k.nextPId k.currTerm ≠ 0 → k.currPcbPtr = top (pcbAt k.currTerm) (k.nextPId k.currTerm)) :
    SlotOk (startedPcbs img k a fileName args d) k.currTerm (k.nextPId k.currTerm + 1) (k.nextPId k.currTerm) := by
  obtain ⟨q1, q2, q3, q4, q5⟩ := pcbInit_pcbs_self img args d hcur
  constructor
  · rw [← ha, startedPcbs, Function.update_self, q1]
  · rw [← ha, startedPcbs, Function.update_self, q2]
  · rw [← ha, startedPcbs, Function.update_self, q3]
    by_cases hz : k.nextPId k.currTerm = 0
    · rw [if_pos hz, hz, top_zero]
    · rw [if_neg hz, hbelow hz]
  · rw [← ha, startedPcbs, Function.update_self, q4, if_neg (Nat.lt_irrefl _)]
  · rw [← ha, startedPcbs, Function.update_self, q5]
  · rw [← ha, startedPcbs, Function.update_self]

/-- The other processes: the one that ran gets the new one as its child, if there was one. -/
theorem startedPcbs_other (hb : b ≠ a) : startedPcbs img k a fileName args d b =
    if k.nextPId k.currTerm ≠ 0 ∧ k.currPcbPtr = some b then { k.pcbs b with child := some a } else k.pcbs b := by
  rw [startedPcbs, Function.update_of_ne hb, pcbInit_pcbs_other hb]

end StartedPcbs

/-- In a state that can launch, the new process fits on the stack of the running terminal and the other stacks are as before. -/
theorem slots_startedPcbs (img : Image) (h : Launchable k) (hlt : k.totalProgs < maxProgs) (fileName : CPtr) (args : List UInt8)
    (d : Dentry) (t : Term) :
    Slots (startedPcbs img k (pcbAt k.currTerm (k.nextPId k.currTerm)) fileName args d) t
      (Function.update k.nextPId k.currTerm (k.nextPId k.currTerm + 1) t) := by
  have hcount : ∀ s, k.nextPId s < maxProgs := by
    intro s
    have hle := le_sum k.nextPId s
    have htot := h.total
    omega
  have hcur : k.nextPId k.currTerm ≠ 0 →
      ∃ cur, k.currPcbPtr = some cur ∧ cur ≠ pcbAt k.currTerm (k.nextPId k.currTerm) := by
    intro hz
    obtain ⟨n, hn⟩ := Nat.exists_eq_succ_of_ne_zero hz
    have hn' := hcount k.currTerm
    refine ⟨pcbAt k.currTerm n, ?_, ?_⟩
    · rw [h.below hz, hn, top_succ]
    · exact pcbAt_ne_of_pid (by omega) hn' (by omega)
  by_cases ht : t = k.currTerm
  · subst ht
    rw [Function.update_self]
    refine Slots.push (h.slots k.currTerm) (slotOk_startedPcbs rfl hcur h.below) ?_
    intro p hp
    have hp' : p < maxProgs := Nat.lt_trans hp (hcount k.currTerm)
    have hne : pcbAt k.currTerm p ≠ pcbAt k.currTerm (k.nextPId k.currTerm) :=
      pcbAt_ne_of_pid hp' (hcount k.currTerm) (Nat.ne_of_lt hp)
    obtain ⟨n, hn⟩ := Nat.exists_eq_succ_of_ne_zero (Nat.ne_of_gt (Nat.lt_of_le_of_lt (Nat.zero_le p) hp))
    have hn' : n < maxProgs := by
      have := hcount k.currTerm
      omega
    rw [startedPcbs_other hne, h.below (by omega), hn, top_succ]
    by_cases htop : p = n
    · rw [if_pos ⟨Nat.succ_ne_zero n, by rw [htop]⟩, if_pos (by rw [htop])]
    · rw [if_neg, if_neg (by omega)]
      rintro ⟨-, he⟩
      exact pcbAt_ne_of_pid hn' hp' (Ne.symm htop) (Option.some.inj he)
  · rw [Function.update_of_ne ht]
    refine Slots.congr (h.slots t) ?_
    intro p hp
    have hp' : p < maxProgs := Nat.lt_trans hp (hcount t)
    rw [startedPcbs_other (pcbAt_ne_of_term hp' (hcount k.currTerm) ht), if_neg]
    rintro ⟨hz, hc⟩
    obtain ⟨n, hn⟩ := Nat.exists_eq_succ_of_ne_zero hz
    have hn' : n < maxProgs := by
      have := hcount k.currTerm
      omega
    rw [h.below hz, hn, top_succ] at hc
    exact pcbAt_ne_of_term hn' hp' (Ne.symm ht) (Option.some.inj hc)

/-- The program `execute_func` starts, in a state that can launch and whose program page is mapped. -/
theorem procInv_startProgram (h : Launchable k) (hlt : k.totalProgs < maxProgs)
    (hpage : k.pdProg = progEntry (k.nextPId k.currTerm) k.currTerm) (fileName : CPtr) (args : List UInt8) (d : Dentry) :
    ProcInv (startProgram img k fileName args d) := by
  rw [startProgram_eq]
  refine ⟨?_, hlt, ?_, ?_, ?_, ?_, ?_, ?_⟩
  · have hsum := sum_update k.nextPId k.currTerm (k.nextPId k.currTerm + 1)
    have htot := h.total
    dsimp only
    omega
  · intro t
    exact slots_startedPcbs img h hlt fileName args d t
  · intro t
    dsimp only
    by_cases ht : t = k.currTerm
    · rw [ht, Function.update_self, Function.update_self, top_succ]
    · rw [Function.update_of_ne ht, Function.update_of_ne ht, h.tops t ht]
  · dsimp only
    rw [Function.update_self]
  · intro hnone
    cases hnone
  · intro _
    dsimp only
    rw [Function.update_self, Nat.add_sub_cancel, hpage]
  · intro _
    dsimp only
    rw [Function.update_self, Nat.add_sub_cancel]

/-- The program page mapped and the memory as a load left it. -/
def loaded (k : Kernel) (m : CPtr) : Kernel := { k with mem := m, pdProg := progEntry (k.nextPId k.currTerm) k.currTerm }

/-- A program loaded leaves them. -/
theorem launchable_loaded (h : Launchable k) (m : CPtr) : Launchable (loaded k m) := by
  obtain ⟨h1, h2, h3, h4⟩ := h
  unfold loaded
  exact ⟨h1, h2, h3, h4⟩

/-- How `execute_func` ends: it printed a message, or it passed its checks and the load faulted or the program was started. -/
theorem executeFunc_cases (img : Image) (k : Kernel) (command : CPtr) (r : Residue) :
    (∃ message, checkExecute img k (getArgsFname command r).1 r = .error message ∧
        executeFunc img k command r = .refused (k.print message)) ∨
      ∃ d m, checkFile img (getArgsFname command r).1 r = .ok d ∧ k.totalProgs < maxProgs ∧
        (executeFunc img k command r = .fault (loaded k m) ∨
          executeFunc img k command r =
            .started (startProgram img (loaded k m) (getArgsFname command r).1 (getArgsFname command r).2 d)) := by
  unfold executeFunc
  dsimp only
  cases hc : checkExecute img k (getArgsFname command r).1 r with
  | error message => exact Or.inl ⟨message, rfl, rfl⟩
  | ok d =>
    right
    unfold checkExecute at hc
    split at hc
    · cases hc
    · rename_i hlt
      obtain ⟨m, hm⟩ := storeBytes_state (loadBytes img d) (mapProgPage k) loadAddr
      have hl : ({ mapProgPage k with mem := m } : Kernel) = loaded k m := by
        unfold mapProgPage loaded
        rfl
      rw [hl] at hm
      refine ⟨d, m, hc, Nat.lt_of_not_le hlt, ?_⟩
      cases hs : storeBytes (mapProgPage k) loadAddr (loadBytes img d) with
      | stop reason k₁ =>
        rw [hs, Outcome.state_stop] at hm
        left
        simp only [hs, hm]
      | ok k₁ =>
        rw [hs, Outcome.state_ok] at hm
        right
        simp only [hs, hm]

/-- A program started passed the checks and was loaded. -/
theorem started_eq {command : CPtr} (hs : executeFunc img k command r = .started k') :
    ∃ d m, k.totalProgs < maxProgs ∧
      k' = startProgram img (loaded k m) (getArgsFname command r).1 (getArgsFname command r).2 d := by
  rcases executeFunc_cases img k command r with ⟨message, -, he⟩ | ⟨d, m, -, hlt, he | he⟩
  · rw [he] at hs
    cases hs
  · rw [he] at hs
    cases hs
  · rw [he, ExecOut.started.injEq] at hs
    exact ⟨d, m, hlt, hs.symm⟩

/-- A program refused has a message printed, and nothing else done. -/
theorem refused_eq {command : CPtr} (hs : executeFunc img k command r = .refused k') :
    ∃ message, checkExecute img k (getArgsFname command r).1 r = .error message ∧ k' = k.print message := by
  rcases executeFunc_cases img k command r with ⟨message, hcheck, he⟩ | ⟨d, m, -, -, he | he⟩
  · rw [he, ExecOut.refused.injEq] at hs
    exact ⟨message, hcheck, hs.symm⟩
  · rw [he] at hs
    cases hs
  · rw [he] at hs
    cases hs

/-- A launch gives a running process in its terminal; nothing else about the terminals changes. -/
theorem procInv_of_started (h : Launchable k) {command : CPtr} (hs : executeFunc img k command r = .started k') :
    ProcInv k' ∧ k'.currTerm = k.currTerm ∧ k'.dispTerm = k.dispTerm ∧
      k'.currPcbPtr = some (pcbAt k.currTerm (k.nextPId k.currTerm)) ∧ k.totalProgs < maxProgs := by
  obtain ⟨d, m, hlt, rfl⟩ := started_eq hs
  have hl := launchable_loaded h m
  unfold loaded at hl ⊢
  refine ⟨procInv_startProgram hl hlt rfl _ _ _, ?_, ?_, ?_, hlt⟩
  · rw [startProgram_eq]
  · rw [startProgram_eq]
  · rw [startProgram_eq]

/-- A refused `execute_func` prints and leaves the processes alone. -/
theorem sameProcs_of_refused {command : CPtr} (hs : executeFunc img k command r = .refused k') : SameProcs k k' := by
  obtain ⟨message, -, rfl⟩ := refused_eq hs
  exact sameProcs_print k message

/-- A start of a program may follow any state of the invariant. -/
theorem launchable_of_procInv (h : ProcInv k) : Launchable k := by
  refine ⟨h.total, h.slots, fun t _ => h.tops t, fun _ => ?_⟩
  rw [h.curr, h.tops]

/-- The machine goes on from `execute_func` with a program started or as its caller does from -1. -/
theorem outcome_eq_ok {o : ExecOut} {f : Kernel → Outcome Stop Kernel} (h : o.outcome f = .ok k') :
    o = .started k' ∨ ∃ k₁, o = .refused k₁ ∧ f k₁ = .ok k' := by
  cases o with
  | refused k₁ => exact Or.inr ⟨k₁, rfl, h⟩
  | started k₁ =>
    rw [ExecOut.outcome, Outcome.ok.injEq] at h
    exact Or.inl (by rw [h])
  | fault k₁ => cases h

/-! ### halt_func -/

/-- The running process is the top of its terminal's stack. -/
theorem currPcbPtr_eq (h : ProcInv k) {a : Addr} (ha : k.currPcbPtr = some a) :
    ∃ n, k.nextPId k.currTerm = n + 1 ∧ a = pcbAt k.currTerm n := by
  rw [h.curr, h.tops] at ha
  cases hn : k.nextPId k.currTerm with
  | zero =>
    rw [hn] at ha
    cases ha
  | succ n =>
    rw [hn, top_succ, Option.some.injEq] at ha
    exact ⟨n, rfl, ha.symm⟩

/-- A kernel one process short, as `halt_func` starts with it. -/
def decremented (k : Kernel) : Kernel :=
  { k with totalProgs := k.totalProgs - 1, nextPId := Function.update k.nextPId k.currTerm (k.nextPId k.currTerm - 1) }

/-- With its root gone, a terminal can launch again. -/
theorem launchable_decremented (h : ProcInv k) (hone : k.nextPId k.currTerm = 1) : Launchable (decremented k) := by
  unfold decremented
  refine ⟨?_, ?_, ?_, ?_⟩
  · have hsum := sum_update k.nextPId k.currTerm (k.nextPId k.currTerm - 1)
    have htot := h.total
    dsimp only
    omega
  · intro t
    dsimp only
    by_cases ht : t = k.currTerm
    · rw [ht, Function.update_self, hone]
      intro p hp
      omega
    · rw [Function.update_of_ne ht]
      exact h.slots t
  · intro t ht
    dsimp only at ht ⊢
    rw [Function.update_of_ne ht]
    exact h.tops t
  · intro hne
    dsimp only at hne
    rw [Function.update_self, hone] at hne
    exact absurd rfl hne

/-- `halt_func` of a root prints and launches a shell in its place. -/
theorem haltFunc_root (h : ProcInv k) (hone : k.nextPId k.currTerm = 1) (status : UInt8) :
    haltFunc img k status r =
      (executeFunc img ((decremented k).print "\nRestart the shell.\n") shellCommand r).outcome (.stop .spins) := by
  have hcurr : k.currPcbPtr = some (pcbAt k.currTerm 0) := by rw [h.curr, h.tops, hone, top_succ]
  have hparent := (h.slots k.currTerm 0 (by omega)).parent
  rw [top_zero] at hparent
  unfold haltFunc decremented
  simp only [hcurr, hparent]

/-- The state after `halt_func` of a process above process `n`. -/
def popped (k : Kernel) (n : Nat) : Kernel :=
  { k with
    totalProgs := k.totalProgs - 1
    nextPId := Function.update k.nextPId k.currTerm (n + 1)
    currPcbPtr := some (pcbAt k.currTerm n)
    activeProgs := Function.update k.activeProgs k.currTerm (some (pcbAt k.currTerm n))
    pcbs := Function.update k.pcbs (pcbAt k.currTerm n) { k.pcbs (pcbAt k.currTerm n) with child := none }
    pdProg := progEntry n k.currTerm
    tssEsp0 := pidToKstackBottom n k.currTerm
    rtcFreq := Function.update k.rtcFreq k.currTerm defaultFreq
    rtcCounter := Function.update k.rtcCounter k.currTerm 0
    haltRetval := Function.update k.haltRetval k.currTerm 0 }

/-- `halt_func` of a process with a parent goes back to it. -/
theorem haltFunc_child (h : ProcInv k) {n : Nat} (hn : k.nextPId k.currTerm = n + 2) (status : UInt8) :
    haltFunc img k status r = .ok (popped k n) := by
  have hcurr : k.currPcbPtr = some (pcbAt k.currTerm (n + 1)) := by rw [h.curr, h.tops, hn, top_succ]
  have hslot := h.slots k.currTerm (n + 1) (by omega)
  have hparent := hslot.parent
  have hppid := hslot.parentPId
  have hesp := (h.slots k.currTerm n (by omega)).esp0
  rw [top_succ] at hparent
  rw [Nat.add_sub_cancel] at hppid
  unfold haltFunc popped
  simp only [hcurr, hparent, getParentPCB, swapPages, rtcDefaultRate, Kernel.modifyPCB, setTss, clearRetval, hppid,
    Function.update_self, hesp, hn, Nat.add_succ_sub_one]

/-- The end of a child brings the parent back on top. -/
theorem procInv_popped (h : ProcInv k) {n : Nat} (hn : k.nextPId k.currTerm = n + 2) : ProcInv (popped k n) := by
  have hle := le_sum k.nextPId k.currTerm
  have htot := h.total
  have hbound := h.bound
  unfold popped
  refine ⟨?_, ?_, ?_, ?_, ?_, ?_, ?_, ?_⟩
  · have hsum := sum_update k.nextPId k.currTerm (n + 1)
    dsimp only
    omega
  · dsimp only
    omega
  · intro t
    dsimp only
    by_cases ht : t = k.currTerm
    · rw [ht, Function.update_self]
      have hslots := h.slots k.currTerm
      rw [hn] at hslots
      exact Slots.pop hslots (by omega)
    · rw [Function.update_of_ne ht]
      have hsum := sum_update k.nextPId k.currTerm 0
      have hle' := le_sum (Function.update k.nextPId k.currTerm 0) t
      rw [Function.update_of_ne ht] at hle'
      refine Slots.congr (h.slots t) (fun p hp => ?_)
      rw [Function.update_of_ne (pcbAt_ne_of_term (by omega) (by omega) ht)]
  · intro t
    dsimp only
    by_cases ht : t = k.currTerm
    · rw [ht, Function.update_self, Function.update_self, top_succ]
    · rw [Function.update_of_ne ht, Function.update_of_ne ht, h.tops t]
  · dsimp only
    rw [Function.update_self]
  · intro hnone
    cases hnone
  · intro _
    dsimp only
    rw [Function.update_self, Nat.add_sub_cancel]
  · intro _
    dsimp only
    rw [Function.update_self, Nat.add_sub_cancel]

/-- `halt_func` keeps the tables right, and a process is running afterwards. -/
theorem procInv_halt (h : ProcInv k) (status : UInt8) (hs : haltFunc img k status r = .ok k') :
    ProcInv k' ∧ k'.currPcbPtr ≠ none := by
  cases hc : k.currPcbPtr with
  | none =>
    unfold haltFunc at hs
    simp [hc] at hs
  | some a =>
    obtain ⟨n, hn, -⟩ := currPcbPtr_eq h hc
    cases n with
    | zero =>
      rw [haltFunc_root h hn] at hs
      have hl := launchable_congr (launchable_decremented h hn) (sameProcs_print (decremented k) "\nRestart the shell.\n")
      rcases outcome_eq_ok hs with he | ⟨k₁, -, hstop⟩
      · obtain ⟨hinv, -, -, hcur, -⟩ := procInv_of_started hl he
        exact ⟨hinv, by simp [hcur]⟩
      · cases hstop
    | succ n =>
      rw [haltFunc_child h hn, Outcome.ok.injEq] at hs
      subst hs
      exact ⟨procInv_popped h hn, nofun⟩

/-! ### schedule.c -/

/-- Storing the running process as its terminal's current program stores what is there. -/
theorem update_activeProgs (h : ProcInv k) {a : Addr} (ha : k.currPcbPtr = some a) :
    Function.update k.activeProgs k.currTerm (some a) = k.activeProgs := by
  rw [Function.update_eq_self_iff, ← ha]
  exact h.curr

/-- The state after a switch to a terminal whose top process is `n`. -/
def switchedTo (k : Kernel) (dest : Term) (n : Nat) : Kernel :=
  { k with
    toConsole := terminalUpdateCursor { k.toConsole with currTerm := dest }
    currPcbPtr := some (pcbAt dest n)
    pdProg := progEntry n dest
    tssEsp0 := pidToKstackBottom n dest }

/-- A switch to a terminal with a program: its top process goes on. -/
theorem doSwitch_active (h : ProcInv k) {dest : Term} (hn : k.nextPId dest = n + 1) :
    doSwitch img k dest r = .ok (switchedTo k dest n) := by
  have hslot := h.slots dest n (by omega)
  have hpid := hslot.pId
  have hesp := hslot.esp0
  have hdest : k.activeProgs dest = some (pcbAt dest n) := by rw [h.tops, hn, top_succ]
  cases hc : k.currPcbPtr with
  | none =>
    have hz := h.idle hc dest
    omega
  | some a =>
    have hact := update_activeProgs h hc
    unfold doSwitch switchedTo
    simp only [hc, hact, hdest, resume, swapPages, setTss, hpid, hesp]
    rfl

/-- A kernel about to launch a shell on a terminal without a program. -/
def launching (k : Kernel) (dest : Term) : Kernel := { k with currPcbPtr := none, currTerm := dest, switchLock := false }

/-- A switch to a terminal without a program: a shell is launched. -/
theorem doSwitch_unused (h : ProcInv k) (hrun : k.currPcbPtr ≠ none) {dest : Term} (hn : k.nextPId dest = 0) :
    doSwitch img k dest r = (executeFunc img (launching k dest) shellCommand r).outcome
      (fun k => .stop .nullDeref { k with toConsole := terminalUpdateCursor k.toConsole }) := by
  have hdest : k.activeProgs dest = none := by rw [h.tops, hn, top_zero]
  cases hc : k.currPcbPtr with
  | none => exact absurd hc hrun
  | some a =>
    have hact := update_activeProgs h hc
    unfold doSwitch launching
    simp only [hc, hact, hdest]

/-- The launch on a terminal with no program starts from such a state. -/
theorem launchable_launching (h : ProcInv k) {dest : Term} (hn : k.nextPId dest = 0) : Launchable (launching k dest) := by
  unfold launching
  refine ⟨h.total, h.slots, fun t _ => h.tops t, ?_⟩
  intro hne
  exact absurd hn hne

/-- A switch to a terminal with a program keeps the invariant. -/
theorem procInv_switchedTo (h : ProcInv k) {dest : Term} (hn : k.nextPId dest = n + 1) : ProcInv (switchedTo k dest n) := by
  unfold switchedTo terminalUpdateCursor
  refine ⟨h.total, h.bound, h.slots, h.tops, ?_, ?_, ?_, ?_⟩
  · dsimp only
    rw [h.tops, hn, top_succ]
  · intro hnone
    cases hnone
  · intro _
    dsimp only
    rw [hn, Nat.add_sub_cancel]
  · intro _
    dsimp only
    rw [hn, Nat.add_sub_cancel]

/-- The two ways `do_switch` returns: the terminal's program goes on, or a shell is launched on a terminal without one. -/
theorem doSwitch_ok (h : ProcInv k) {dest : Term} (hs : doSwitch img k dest r = .ok k') :
    (∃ n, k.nextPId dest = n + 1 ∧ k' = switchedTo k dest n) ∨
      (k.nextPId dest = 0 ∧ executeFunc img (launching k dest) shellCommand r = .started k') := by
  by_cases hrun : k.currPcbPtr = none
  · unfold doSwitch at hs
    simp [hrun] at hs
  · cases hn : k.nextPId dest with
    | zero =>
      rw [doSwitch_unused h hrun hn] at hs
      rcases outcome_eq_ok hs with he | ⟨k₁, -, hstop⟩
      · exact Or.inr ⟨rfl, he⟩
      · cases hstop
    | succ n =>
      rw [doSwitch_active h hn, Outcome.ok.injEq] at hs
      exact Or.inl ⟨n, rfl, hs.symm⟩

/-- `do_switch` keeps the tables right, and a process of the terminal runs afterwards. -/
theorem procInv_doSwitch (h : ProcInv k) {dest : Term} (hs : doSwitch img k dest r = .ok k') :
    ProcInv k' ∧ k'.currPcbPtr ≠ none ∧ k'.currTerm = dest := by
  rcases doSwitch_ok h hs with ⟨n, hn, rfl⟩ | ⟨hn, he⟩
  · exact ⟨procInv_switchedTo h hn, nofun, rfl⟩
  · obtain ⟨hinv, hterm, -, hcur, -⟩ := procInv_of_started (launchable_launching h hn) he
    exact ⟨hinv, by simp [hcur], by rw [hterm]; rfl⟩

/-- The lock of the switches is none of the process tables. -/
theorem sameProcs_lock (k : Kernel) (held : Bool) : SameProcs k { k with switchLock := held } :=
  ⟨rfl, rfl, rfl, rfl, rfl, rfl, rfl, rfl⟩

/-- The kernel that `switch_terminals` leaves before it looks whether the terminal has a program. -/
def displaying (k : Kernel) (dest : Term) : Kernel :=
  { switchVidmap (switchVidmem { k with switchLock := true } dest) dest with dispTerm := dest }

/-- The display is none of them. -/
theorem sameProcs_displaying (k : Kernel) (dest : Term) : SameProcs k (displaying k dest) := by
  unfold displaying switchVidmap switchVidmem
  exact ⟨rfl, rfl, rfl, rfl, rfl, rfl, rfl, rfl⟩

/-- `switch_terminals`, with its checks passed. -/
theorem switchTerminals_eq (dest : Term) (hd : k.dispTerm ≠ dest) (hl : k.switchLock = false) :
    switchTerminals img k dest.val r =
      (if k.activeProgs dest = none then doSwitch img (displaying k dest) dest r else .ok (displaying k dest)).andThen
        (fun k => .ok { k with switchLock := false }) := by
  unfold switchTerminals
  rw [if_neg (fun he => hd (Fin.ext he)), dif_pos dest.isLt, if_neg (by simp [hl])]
  rfl

/-- `switch_terminals`, with a check failed. -/
theorem switchTerminals_refused {dest : Nat} (h : k.dispTerm.val = dest ∨ 3 ≤ dest ∨ k.switchLock = true) :
    switchTerminals img k dest r = .ok k := by
  unfold switchTerminals
  by_cases hd : k.dispTerm.val = dest
  · rw [if_pos hd]
  · rw [if_neg hd]
    by_cases h3 : dest < 3
    · rw [dif_pos h3, if_pos]
      rcases h with h | h | h
      · exact absurd h hd
      · omega
      · exact h
    · rw [dif_neg h3]

/-- The two ways through `switch_terminals`. -/
theorem switchTerminals_cases (img : Image) (k : Kernel) (dest : Nat) (r : Residue) :
    switchTerminals img k dest r = .ok k ∨
      ∃ t : Term, t.val = dest ∧ k.dispTerm ≠ t ∧ k.switchLock = false ∧
        switchTerminals img k dest r =
          (if k.activeProgs t = none then doSwitch img (displaying k t) t r else .ok (displaying k t)).andThen
            (fun k => .ok { k with switchLock := false }) := by
  by_cases h : k.dispTerm.val = dest ∨ 3 ≤ dest ∨ k.switchLock = true
  · exact Or.inl (switchTerminals_refused h)
  · right
    push Not at h
    obtain ⟨h1, h2, h3⟩ := h
    refine ⟨⟨dest, h2⟩, rfl, fun he => h1 (congrArg Fin.val he), by simpa using h3, ?_⟩
    exact switchTerminals_eq ⟨dest, h2⟩ (fun he => h1 (congrArg Fin.val he)) (by simpa using h3)

/-- A `switch_terminals` that returns did nothing, or another terminal is displayed, with a shell launched there if it had none. -/
theorem switchTerminals_ok {dest : Nat} (hs : switchTerminals img k dest r = .ok k') :
    k' = k ∨ ∃ (t : Term) (k₁ : Kernel), t.val = dest ∧ k.dispTerm ≠ t ∧ k.switchLock = false ∧
      k' = { k₁ with switchLock := false } ∧
      (k.activeProgs t = none ∧ doSwitch img (displaying k t) t r = .ok k₁ ∨ k.activeProgs t ≠ none ∧ k₁ = displaying k t) := by
  rcases switchTerminals_cases img k dest r with he | ⟨t, ht, hd, hl, he⟩
  · rw [he, Outcome.ok.injEq] at hs
    exact Or.inl hs.symm
  · rw [he, Outcome.andThen_eq_ok] at hs
    obtain ⟨k₁, hk, hs⟩ := hs
    rw [Outcome.ok.injEq] at hs
    refine Or.inr ⟨t, k₁, ht, hd, hl, hs.symm, ?_⟩
    split at hk
    · exact Or.inl ⟨by assumption, hk⟩
    · rw [Outcome.ok.injEq] at hk
      exact Or.inr ⟨by assumption, hk.symm⟩

/-- `switch_terminals` keeps the invariant, and leaves a program running. -/
theorem procInv_switchTerminals (h : ProcInv k) {dest : Nat} (hs : switchTerminals img k dest r = .ok k') :
    ProcInv k' ∧ (k.currPcbPtr ≠ none → k'.currPcbPtr ≠ none) := by
  rcases switchTerminals_ok hs with rfl | ⟨t, k₁, -, -, -, rfl, ⟨-, hk⟩ | ⟨-, rfl⟩⟩
  · exact ⟨h, id⟩
  · obtain ⟨hinv, hcur, -⟩ := procInv_doSwitch (procInv_congr h (sameProcs_displaying k t)) hk
    exact ⟨procInv_congr hinv (sameProcs_lock k₁ false), fun _ => hcur⟩
  · have hd := procInv_congr h (sameProcs_displaying k t)
    refine ⟨procInv_congr hd (sameProcs_lock _ false), fun hne => ?_⟩
    dsimp only
    rw [(sameProcs_displaying k t).currPcbPtr]
    exact hne

/-- The two ways through `schedule`. -/
theorem schedule_cases (img : Image) (k : Kernel) (t : Term) (r : Residue) :
    schedule img k t r = .ok k ∨
      (k.activeProgs t ≠ none ∧ k.switchLock = false ∧
        schedule img k t r =
          (doSwitch img { k with switchLock := true } t r).andThen (fun k => .ok { k with switchLock := false })) := by
  unfold schedule
  split
  · rename_i hact
    split
    · exact Or.inl rfl
    · rename_i hl
      exact Or.inr ⟨hact, by simpa using hl, rfl⟩
  · exact Or.inl rfl

/-- A `schedule` that returns did nothing, or switched to the terminal. -/
theorem schedule_ok {t : Term} (hs : schedule img k t r = .ok k') :
    k' = k ∨ ∃ k₁, k.activeProgs t ≠ none ∧ k.switchLock = false ∧ k' = { k₁ with switchLock := false } ∧
      doSwitch img { k with switchLock := true } t r = .ok k₁ := by
  rcases schedule_cases img k t r with he | ⟨hact, hl, he⟩
  · rw [he, Outcome.ok.injEq] at hs
    exact Or.inl hs.symm
  · rw [he, Outcome.andThen_eq_ok] at hs
    obtain ⟨k₁, hk, hs⟩ := hs
    rw [Outcome.ok.injEq] at hs
    exact Or.inr ⟨k₁, hact, hl, hs.symm, hk⟩

/-- So does a tick. -/
theorem procInv_schedule (h : ProcInv k) {t : Term} (hs : schedule img k t r = .ok k') :
    ProcInv k' ∧ (k.currPcbPtr ≠ none → k'.currPcbPtr ≠ none) := by
  rcases schedule_ok hs with rfl | ⟨k₁, -, -, rfl, hk⟩
  · exact ⟨h, id⟩
  · obtain ⟨hinv, hcur, -⟩ := procInv_doSwitch (procInv_congr h (sameProcs_lock k true)) hk
    exact ⟨procInv_congr hinv (sameProcs_lock k₁ false), fun _ => hcur⟩

/-! ### Every step -/

/-- The kernel after a key, before the switch that may follow. -/
def keyed (k : Kernel) (c : UInt8) : Kernel :=
  { k with keys := k.keys.update c, toConsole := k.toConsole.key (k.keys.update c) c }

/-- What a key does to the console leaves the process tables. -/
theorem sameProcs_keyed (k : Kernel) (c : UInt8) : SameProcs k (keyed k c) :=
  ⟨(TerminalAux.key_sameTerms k.toConsole _ c).curr, rfl, rfl, rfl, rfl, rfl, rfl, rfl⟩

/-- A key acts on the console, and then switches terminals if it is a function key with Alt held. -/
theorem getCKeyboard_eq (img : Image) (k : Kernel) (c : UInt8) (r : Residue) :
    getCKeyboard img k c r =
      if (k.keys.update c).fn ≠ 0 ∧ (k.keys.update c).alt = true then
        switchTerminals img (keyed k c) ((k.keys.update c).fn - 1) r
      else .ok (keyed k c) := rfl

/-- `vidmap_func` changes the memory and the video pages only. -/
theorem vidmapFunc_eq {s : Nat} (hs : (vidmapFunc k s).2 = .ok k') : ∃ m table, k' = { k with mem := m, videoTable := table } := by
  unfold vidmapFunc at hs
  split at hs
  · rw [Outcome.ok.injEq] at hs
    exact ⟨k.mem, k.videoTable, hs.symm⟩
  · dsimp only at hs
    obtain ⟨m, hm⟩ := storeBytes_state (wordBytes (vidmapAddr k.currTerm)) { k with
      videoTable := Function.update k.videoTable k.currTerm.val
        { k.videoTable k.currTerm.val with flags := (k.videoTable k.currTerm.val).flags ||| 4 } } s
    rw [hs, Outcome.state_ok] at hm
    exact ⟨m, _, hm⟩

/-- `vidmap` leaves the process tables. -/
theorem sameProcs_vidmap {s : Nat} (hs : (vidmapFunc k s).2 = .ok k') : SameProcs k k' := by
  obtain ⟨m, table, rfl⟩ := vidmapFunc_eq hs
  exact ⟨rfl, rfl, rfl, rfl, rfl, rfl, rfl, rfl⟩

/-- Every step keeps the tables right, and a process running once goes on running. -/
theorem procInv_step (h : ProcInv k) {e : Event} (hs : step img k e = .ok k') :
    ProcInv k' ∧ (k.currPcbPtr ≠ none → k'.currPcbPtr ≠ none) := by
  cases e with
  | execute command r =>
    rcases outcome_eq_ok hs with he | ⟨k₁, he, hk⟩
    · obtain ⟨hinv, -, -, hcur, -⟩ := procInv_of_started (launchable_of_procInv h) he
      exact ⟨hinv, fun _ => by simp [hcur]⟩
    · rw [Outcome.ok.injEq] at hk
      subst hk
      have hsame := sameProcs_of_refused he
      exact ⟨procInv_congr h hsame, fun hne => by rw [hsame.currPcbPtr]; exact hne⟩
  | halt status r =>
    obtain ⟨hinv, hcur⟩ := procInv_halt h status hs
    exact ⟨hinv, fun _ => hcur⟩
  | schedule newTerm r => exact procInv_schedule h hs
  | switchTerminals dest r => exact procInv_switchTerminals h hs
  | key scancode r =>
    have hsame := sameProcs_keyed k scancode
    rw [step, getCKeyboard_eq] at hs
    split at hs
    · obtain ⟨hinv, hcur⟩ := procInv_switchTerminals (procInv_congr h hsame) hs
      exact ⟨hinv, fun hne => hcur (by rw [hsame.currPcbPtr]; exact hne)⟩
    · rw [Outcome.ok.injEq] at hs
      subst hs
      exact ⟨procInv_congr h hsame, fun hne => by rw [hsame.currPcbPtr]; exact hne⟩
  | write bytes =>
    rw [step, Outcome.ok.injEq] at hs
    subst hs
    exact ⟨procInv_congr h (sameProcs_console (TerminalAux.terminalWrite_sameTerms _ _)), id⟩
  | puts s =>
    rw [step, Outcome.ok.injEq] at hs
    subst hs
    exact ⟨procInv_congr h (sameProcs_console (TerminalAux.terminalPuts_sameTerms _ _)), id⟩
  | printf format args =>
    rw [step, Outcome.ok.injEq] at hs
    subst hs
    exact ⟨procInv_congr h (sameProcs_console (TerminalAux.terminalPrintf_sameTerms _ _ _)), id⟩
  | readBegin =>
    rw [step, Outcome.ok.injEq] at hs
    subst hs
    exact ⟨procInv_congr h ⟨rfl, rfl, rfl, rfl, rfl, rfl, rfl, rfl⟩, id⟩
  | readPoll =>
    rw [step, Outcome.ok.injEq] at hs
    subst hs
    exact ⟨procInv_congr h ⟨rfl, rfl, rfl, rfl, rfl, rfl, rfl, rfl⟩, id⟩
  | readCopy nbytes =>
    rw [step] at hs
    split at hs
    · rw [Outcome.ok.injEq] at hs
      subst hs
      exact ⟨procInv_congr h ⟨rfl, rfl, rfl, rfl, rfl, rfl, rfl, rfl⟩, id⟩
    · rw [Outcome.ok.injEq] at hs
      subst hs
      exact ⟨h, id⟩
  | vidmap screenStart =>
    have hsame := sameProcs_vidmap hs
    exact ⟨procInv_congr h hsame, fun hne => by rw [hsame.currPcbPtr]; exact hne⟩
  | lock held =>
    rw [step, Outcome.ok.injEq] at hs
    subst hs
    exact ⟨procInv_congr h (sameProcs_lock k held), id⟩

/-- The invariant holds at boot. -/
theorem procInv_boot (m : CPtr) (p : Addr → PCB) : ProcInv (boot m p) := by
  unfold boot
  refine ⟨by simp, Nat.zero_le _, ?_, ?_, rfl, ?_, ?_, ?_⟩
  · intro t p hp
    exact absurd hp (Nat.not_lt_zero p)
  · intro t
    rfl
  · intro _ t
    rfl
  · intro hne
    exact absurd rfl hne
  · intro hne
    exact absurd rfl hne

/-- The tables are right in every state the kernel reaches. -/
theorem procInv_reachable {m : CPtr} {p : Addr → PCB} (hr : Reachable (step img) (boot m p) k) : ProcInv k :=
  Reachable.invariant (fun _ _ _ h hs => (procInv_step h hs).1) (procInv_boot m p) hr

/-- The states after the first shell are reached from boot. -/
theorem reachable_boot {k₀ : Kernel} (h₀ : FirstShell img k₀) (hr : Reachable (step img) k₀ k) :
    ∃ m p, Reachable (step img) (boot m p) k := by
  obtain ⟨m, p, r, he⟩ := h₀
  obtain ⟨events, hrun⟩ := hr
  have hs : step img (boot m p) (.execute shellCommand r) = .ok k₀ := by
    rw [step, he]
    rfl
  exact ⟨m, p, ((Reachable.refl (boot m p)).snoc hs).append hrun⟩

/-- From the first shell on, the tables are right and a process runs. -/
theorem procInv_running {k₀ : Kernel} (h₀ : FirstShell img k₀) (hr : Reachable (step img) k₀ k) :
    ProcInv k ∧ k.currPcbPtr ≠ none := by
  obtain ⟨m, p, r, he⟩ := h₀
  obtain ⟨hinv, -, -, hcur, -⟩ := procInv_of_started (launchable_of_procInv (procInv_boot m p)) he
  refine Reachable.invariant (I := fun k => ProcInv k ∧ k.currPcbPtr ≠ none) ?_ ⟨hinv, by simp [hcur]⟩ hr
  rintro k e k' ⟨h, hrun⟩ hs
  obtain ⟨hinv', hrun'⟩ := procInv_step h hs
  exact ⟨hinv', hrun' hrun⟩

end ProcessAux

/-! ## A first shell -/

/-- The kernel an `execute_func` leaves. -/
def ExecOut.kernel : ExecOut → Kernel
  | .refused k => k
  | .started k => k
  | .fault k => k

/-- The program was started. -/
def ExecOut.isStarted : ExecOut → Bool
  | .started _ => true
  | _ => false

/-- An `execute_func` that is known to start a program has a kernel to go on with. -/
theorem ExecOut.eq_started {o : ExecOut} (h : o.isStarted = true) : o = .started o.kernel := by
  cases o with
  | started k => rfl
  | refused k => cases h
  | fault k => cases h

/-- A residue of zeros. -/
def zeroResidue : Residue := { fileName := fun _ => 0, execCheck := fun _ => 0 }

/-- The kernel after `entry` started the shell of the small image. -/
def firstShell : Kernel := (executeFunc shellImage (boot (fun _ => 0) (fun _ => rootShellPCB)) shellCommand zeroResidue).kernel

/-- The shell image starts its first shell. -/
theorem firstShell_firstShell : FirstShell shellImage firstShell := ⟨_, _, _, ExecOut.eq_started (by decide)⟩

end ThreeTermOS
