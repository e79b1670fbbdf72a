import ThreeTermOS.Lemmas.Process

/-!
# Context coherence

`curr_pcb_ptr`, `active_progs`, the mapped program page and the kernel stack of the task state are four copies of who is running.
They agree in every state the kernel reaches once its first shell is started.
-/

namespace ThreeTermOS

open Runs

/-- The four copies of the running process agree: the process control block at the current pointer is its terminal's current
program and names that terminal, its program page is mapped, and the task state holds the bottom of its kernel stack. -/
structure Coherent (k : Kernel) (a : Addr) : Prop where
  current : k.currPcbPtr = some a
  active : k.activeProgs k.currTerm = some a
  termNum : (k.pcbs a).termNum = k.currTerm
  page : k.pdProg = { base := mem4MB * (2 + (k.pcbs a).pId + maxProgs * k.currTerm.val), flags := 0x87 }
  esp0 : k.tssEsp0 = pidToKstackBottom (k.pcbs a).pId k.currTerm

open ProcessAux in
/-- In every state the kernel reaches after its first shell is started, some process is current and the four copies agree on
it. -/
theorem step_keeps_context_coherent {img : Image} {k₀ k : Kernel} (h₀ : FirstShell img k₀) (hr : Reachable (step img) k₀ k) :
    ∃ a, Coherent k a := by
  obtain ⟨h, hrun⟩ := procInv_running h₀ hr
  obtain ⟨a, ha⟩ := Option.ne_none_iff_exists'.mp hrun
  obtain ⟨n, hn, rfl⟩ := currPcbPtr_eq h ha
  obtain hslot := h.slots k.currTerm n (by omega)
  have hpage := h.page hrun
  have hesp := h.esp0 hrun
  rw [hn, Nat.add_sub_cancel] at hpage hesp
  refine ⟨pcbAt k.currTerm n, ha, ?_, hslot.termNum, ?_, ?_⟩
  · rw [← h.curr, ha]
  · rw [hpage, hslot.pId]
    unfold progEntry pagesize4MBProg
    congr 2
    rw [Nat.mul_comm maxProgs, Nat.add_comm (n + _), Nat.add_assoc]
  · rw [hesp, hslot.pId]

/-- A tick for the only terminal in use, after the first shell. -/
def tickRun : Outcome Stop Kernel := run (step shellImage) firstShell [.schedule 0 zeroResidue]

/-- The tick leaves a coherent kernel. -/
theorem step_keeps_context_coherent_tickRun : ∃ a, Coherent tickRun.state a := by
  have hok : tickRun.isOk = true := by decide +kernel
  have hr : Reachable (step shellImage) firstShell tickRun.state := by
    unfold tickRun at hok ⊢
    exact Reachable.of_isOk _ hok
  exact step_keeps_context_coherent firstShell_firstShell hr

end ThreeTermOS
