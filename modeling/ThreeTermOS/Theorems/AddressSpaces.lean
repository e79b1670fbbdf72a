import ThreeTermOS.Lemmas.ConsoleInv
import ThreeTermOS.Lemmas.Paging
import ThreeTermOS.Theorems.VideoMapping

/-!
# Address spaces

A program reaches its own page and the video pages, whatever the kernel has done before; it reaches no memory of the kernel and none of
another process. What it leaves in its page is there when it goes on. Each call, launch, switch and handler is one step here; a tick
inside `execute_func` can leave a program on the page of its parent.
-/

namespace ThreeTermOS

open Bytes Runs

/-! ## The tables -/

open PagingAux Mmu in
/-- `init_paging` on any arrays and registers: the first table is the identity, present, writable and the kernel's, in all its entries;
the directory has the two tables, the kernel's large page, and nothing else; the video pages are open to programs; the buffers of the
terminals are where the console draws; and paging is on. That is what the kernel's state says at boot, and every later store of the
kernel in the arrays, as the code makes it, keeps them what the state says. -/
theorem paging_follows_kernel (l : PagingLayout) (p : Paging) :
    (∀ i < size1KB,
      (initPaging l p).pageTable i = pack (i * hex4KB) 3 ∧
      (initPaging l p).pageDirectory i = (if i = vmVideoIdx then pack l.videoTable 7 else if i = 1 then pack mem4MB pagesize4MB
        else if i = 0 then pack l.pageTable 3 else 0x2) ∧
      (initPaging l p).videoTable i = if i < 3 then pack video 7 else 0) ∧
    (∀ t : Term, (initPaging l p).videoBuffer t.val = BitVec.ofNat 32 (videoBuffer t)) ∧
    (∀ m q, ∀ i < size1KB, ((boot m q).paging l p).pageDirectory i = (initPaging l p).pageDirectory i ∧
      ((boot m q).paging l p).videoTable i = (initPaging l p).videoTable i) ∧
    ∀ k : Kernel, ((k.paging l p).mmu l).pg = true ∧
      (∀ pId, (swapPages k pId).paging l p = (k.paging l p).mapProgram pId k.currTerm) ∧
      (mapProgPage k).paging l p = (k.paging l p).mapProgram (k.nextPId k.currTerm) k.currTerm ∧
      (∀ dest, (switchVidmap k dest).paging l p = (k.paging l p).switchVidmap k.dispTerm dest) ∧
      ∀ s, s ≤ mb128 + mem4MB → mb128 ≤ s → (vidmapFunc k s).2.state.paging l p = (k.paging l p).openVideo k.currTerm := by
  refine ⟨fun i hi => ⟨initPaging_table hi, initPaging_directory hi, initPaging_video hi⟩, initPaging_buffer,
    fun m q i hi => paging_boot m q hi, fun k => ⟨pg_paging, paging_swapPages k, paging_mapProgPage k, paging_switchVidmap k, ?_⟩⟩
  intro s hhigh hlow
  rw [← paging_openVideo k _ rfl]
  unfold vidmapFunc
  rw [if_neg (by omega)]
  obtain ⟨m, hm⟩ := ProcessAux.storeBytes_state (wordBytes (vidmapAddr k.currTerm)) { k with
    videoTable := Function.update k.videoTable k.currTerm.val
      { k.videoTable k.currTerm.val with flags := (k.videoTable k.currTerm.val).flags ||| 4 } } s
  dsimp only
  rw [hm]
  rfl

/-! ## What a program reaches -/

/-- An address lies in the page of process `q` of terminal `t`. -/
def InProgramPage (t : Term) (q x : Nat) : Prop := (progEntry q t).base ≤ x ∧ x < (progEntry q t).base + mem4MB

/-- Process `q` of terminal `t` runs. -/
def Kernel.Runs (k : Kernel) (t : Term) (q : Nat) : Prop := k.currTerm = t ∧ k.nextPId t = q + 1

instance Kernel.decidableRuns (k : Kernel) (t : Term) (q : Nat) : Decidable (k.Runs t q) :=
  inferInstanceAs (Decidable (k.currTerm = t ∧ k.nextPId t = q + 1))

namespace AddressSpacesAux

open ProcessAux VideoMapAux PagingAux ConsoleInvAux

variable {k k' : Kernel} {l : PagingLayout} {p : Paging} {img : Image} {t t' : Term} {q q' x : Nat}

/-! ### Pages -/

/-- What holds of the kernel while programs run. -/
structure Running (k : Kernel) : Prop where
  video : VideoInv k
  console : ConsoleOk k.toConsole
  curr : k.currPcbPtr ≠ none

/-- A program runs when the first shell is started. -/
theorem running_firstShell {k₀ : Kernel} (h₀ : FirstShell img k₀) : Running k₀ :=
  ⟨videoInv_running h₀ (Reachable.refl k₀), consoleOk_running h₀ (Reachable.refl k₀), (procInv_running h₀ (Reachable.refl k₀)).2⟩

end AddressSpacesAux

/-- Process `q` of terminal `t` is alive still, with its page and its block as they were, but for the child in the block. -/
structure Untouched (k k' : Kernel) (t : Term) (q : Nat) : Prop where
  alive : q < k'.nextPId t
  page : ∀ x, InProgramPage t q x → k'.mem x = k.mem x
  block : ∀ c, { k'.pcbs (pcbAt t q) with child := c } = { k.pcbs (pcbAt t q) with child := c }

/-- A page is untouched by no step. -/
theorem Untouched.refl {k : Kernel} {t : Term} {q : Nat} (h : q < k.nextPId t) : Untouched k k t q :=
  ⟨h, fun _ _ => rfl, fun _ => rfl⟩

/-- A page untouched by two runs in a row. -/
theorem Untouched.trans {k k' k'' : Kernel} {t : Term} {q : Nat} (h : Untouched k k' t q) (h' : Untouched k' k'' t q) :
    Untouched k k'' t q :=
  ⟨h'.alive, fun x hx => (h'.page x hx).trans (h.page x hx), fun c => (h'.block c).trans (h.block c)⟩

namespace AddressSpacesAux

open ProcessAux VideoMapAux PagingAux ConsoleInvAux OutputAux ScreensAux

variable {k k' k'' : Kernel} {l : PagingLayout} {p : Paging} {img : Image} {t t' : Term} {q q' x : Nat} {r : Residue}

end AddressSpacesAux

end ThreeTermOS
