import ThreeTermOS.Lemmas.Process

/-!
# Process accounting

In every state the kernel reaches from boot, `total_progs` counts the processes of the three terminals, each terminal's parent
chain has as many processes as `next_p_id` says, and no two processes share a block or a program page.
-/

namespace ThreeTermOS

open Chain Runs

/-- The current program of a terminal. -/
def Kernel.currentProg (k : Kernel) (t : Term) : Option Addr := if t = k.currTerm then k.currPcbPtr else k.activeProgs t

/-- The parent chain of a terminal: it ends at the null parent after `next_p_id` processes, with the ids counting down to 0, each
in its own block, and the child pointers lead back up. -/
structure ParentChain (k : Kernel) (t : Term) (l : List Addr) : Prop where
  links : Links (fun a => (k.pcbs a).parent) (k.currentProg t) l
  pIds : l.map (fun a => (k.pcbs a).pId) = (List.range (k.nextPId t)).reverse
  block : ∀ a ∈ l, a = pidToPCBAddr (k.pcbs a).pId t
  root : ∀ a ∈ l, (k.pcbs a).parent = none ↔ (k.pcbs a).pId = 0
  child : ∀ a ∈ l, ∀ b ∈ l, (k.pcbs a).parent = some b ↔ (k.pcbs b).child = some a

/-- The blocks and pages of two processes are apart: each kernel stack lies in the block of its process control block, and the
blocks of 8 KB and the pages of 4 MB do not meet. -/
def Apart (t : Term) (p : Nat) (t' : Term) (p' : Nat) : Prop :=
  (pidToPCBAddr p t + kb8 ≤ pidToPCBAddr p' t' ∨ pidToPCBAddr p' t' + kb8 ≤ pidToPCBAddr p t) ∧
    (pidToPCBAddr p t < pidToKstackBottom p t ∧ pidToKstackBottom p t + stackPtrOff = pidToPCBAddr p t + kb8) ∧
    ((progEntry p t).base + mem4MB ≤ (progEntry p' t').base ∨ (progEntry p' t').base + mem4MB ≤ (progEntry p t).base)

namespace ProcessAccountingAux

open ProcessAux

variable {k : Kernel}

theorem currentProg_eq (h : ProcInv k) (t : Term) : k.currentProg t = top (pcbAt t) (k.nextPId t) := by
  unfold Kernel.currentProg
  split
  · rename_i ht
    rw [h.curr, ht, h.tops]
  · exact h.tops t

theorem nextPId_le (h : ProcInv k) (t : Term) : k.nextPId t ≤ maxProgs := by
  have hle := le_sum k.nextPId t
  have htot := h.total
  have hbound := h.bound
  omega

theorem stack_range (n : Nat) : stack (fun p => p) n = (List.range n).reverse := by
  induction n with
  | zero => rfl
  | succ n ih => rw [stack, ih, List.range_succ, List.reverse_append, List.reverse_singleton, List.singleton_append]

/-- The stack of a terminal is its parent chain. -/
theorem parentChain_stack (h : ProcInv k) (t : Term) : ParentChain k t (stack (pcbAt t) (k.nextPId t)) := by
  have hslots := h.slots t
  have hle := nextPId_le h t
  have hinj : ∀ i < k.nextPId t, ∀ j < k.nextPId t, pcbAt t i = pcbAt t j → i = j :=
    fun i hi j hj he => (pcbAt_inj (by omega) (by omega) he).2
  refine ⟨?_, ?_, ?_, ?_, ?_⟩
  · rw [currentProg_eq h]
    exact links_stack (fun i hi => (hslots i hi).parent)
  · rw [map_stack (g := fun a => (k.pcbs a).pId) (fun i hi => (hslots i hi).pId), stack_range]
  · intro a ha
    obtain ⟨i, hi, rfl⟩ := mem_stack.mp ha
    rw [(hslots i hi).pId]
    rfl
  · intro a ha
    obtain ⟨i, hi, rfl⟩ := mem_stack.mp ha
    rw [(hslots i hi).parent, (hslots i hi).pId]
    exact top_eq_none_iff
  · intro a ha b hb
    exact @next_eq_some_iff _ (fun a => (k.pcbs a).parent) (fun a => (k.pcbs a).child) _ _ hinj
      (fun i hi => (hslots i hi).parent) (fun i hi => (hslots i hi).child) _ _ ha hb

/-- Different processes are apart. -/
theorem apart_of_ne {t t' : Term} {p p' : Nat} (hp : p < maxProgs) (hp' : p' < maxProgs) (hne : (t, p) ≠ (t', p')) :
    Apart t p t' p' := by
  have ht := t.isLt
  have ht' := t'.isLt
  have hm : maxProgs = 6 := rfl
  have hidx : p + t.val * 6 ≠ p' + t'.val * 6 := by
    intro he
    have hval : t.val = t'.val := by omega
    exact hne (by rw [Fin.ext hval, show p = p' by omega])
  unfold Apart pidToPCBAddr pidToKstackBottom progEntry mb8 kb8 hex4KB mem4MB stackPtrOff
  rw [hm] at hp hp' ⊢
  dsimp only
  refine ⟨?_, ?_, ?_⟩
  · omega
  · omega
  · omega

end ProcessAccountingAux

open ProcessAux ProcessAccountingAux in
/-- In every state the kernel reaches from boot: `total_progs` is the sum of `next_p_id` over the terminals and at most
`MAX_PROGS`; the chain of parents from the current program of a terminal has `next_p_id` processes, with the ids counting down
to 0; and no two processes share a block or a program page. -/
theorem step_keeps_process_accounting (img : Image) (m : CPtr) (p : Addr → PCB) {k : Kernel}
    (hr : Reachable (step img) (boot m p) k) :
    k.totalProgs = ∑ t, k.nextPId t ∧ k.totalProgs ≤ maxProgs ∧
      (∀ t, ∃ l, ParentChain k t l ∧ l.length = k.nextPId t) ∧
      ∀ t i t' i', i < k.nextPId t → i' < k.nextPId t' → (t, i) ≠ (t', i') → Apart t i t' i' := by
  have h := procInv_reachable hr
  refine ⟨h.total, h.bound, ?_, ?_⟩
  · intro t
    exact ⟨_, parentChain_stack h t, stack_length _ _⟩
  · intro t i t' i' hi hi' hne
    exact apart_of_ne (Nat.lt_of_lt_of_le hi (nextPId_le h t)) (Nat.lt_of_lt_of_le hi' (nextPId_le h t')) hne

/-- The first shell starts a second, and the user switches to terminal 1, where another is launched. -/
def threeShells : Outcome Stop Kernel :=
  run (step shellImage) (boot (fun _ => 0) (fun _ => rootShellPCB))
    [.execute shellCommand zeroResidue, .execute shellCommand zeroResidue, .switchTerminals 1 zeroResidue]

/-- Three shells, two of them on terminal 0, where the second has the first for its parent, and one on terminal 1. -/
theorem step_keeps_process_accounting_threeShells :
    threeShells.state.totalProgs = 3 ∧ threeShells.state.totalProgs = ∑ t, threeShells.state.nextPId t ∧
      (∃ l, ParentChain threeShells.state 0 l ∧ l.length = 2) ∧ Apart 0 0 0 1 ∧ Apart 0 1 1 0 := by
  have hok : threeShells.isOk = true := by decide +kernel
  have hthree : threeShells.state.totalProgs = 3 := by decide +kernel
  have hnext : threeShells.state.nextPId 0 = 2 ∧ threeShells.state.nextPId 1 = 1 := by decide +kernel
  have hr : Reachable (step shellImage) (boot (fun _ => 0) (fun _ => rootShellPCB)) threeShells.state := by
    unfold threeShells at hok ⊢
    exact Reachable.of_isOk _ hok
  generalize threeShells.state = k at hthree hnext hr ⊢
  obtain ⟨htotal, -, hchain, hapart⟩ := step_keeps_process_accounting shellImage _ _ hr
  obtain ⟨l, hl, hlength⟩ := hchain 0
  refine ⟨hthree, htotal, ⟨l, hl, hlength.trans hnext.1⟩, hapart 0 0 0 1 ?_ ?_ (by decide), hapart 0 1 1 0 ?_ ?_ (by decide)⟩
  · rw [hnext.1]
    decide
  · rw [hnext.1]
    decide
  · rw [hnext.1]
    decide
  · rw [hnext.2]
    decide

end ThreeTermOS
