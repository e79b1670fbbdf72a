import ThreeTermOS.Lemmas.VideoMap
import ThreeTermOS.Paging

/-!
# The walk through the kernel's tables

The entries `init_paging` leaves in closed form; the stores of the kernel in the arrays as changes of its state; and what the processor
finds for an address.
-/

namespace ThreeTermOS

open Runs Mmu

namespace PagingAux

variable {l : PagingLayout} {p : Paging} {k : Kernel}

/-! ### init_paging -/

/-- The first loop of `init_paging`, up to an entry. -/
theorem initEntries (p : Paging) (n : Nat) :
    (List.range n).foldl initEntry p =
      { p with
        pageDirectory := fun i => if i < n then 0x2 else p.pageDirectory i
        pageTable := fun i => if i < n then pack (i * hex4KB) 3 else p.pageTable i
        videoTable := fun i => if i < n then 0 else p.videoTable i } := by
  have hone {α : Type} (f g : Nat → α) (n : Nat) :
      Function.update (fun i => if i < n then f i else g i) n (f n) = fun i => if i < n + 1 then f i else g i := by
    funext i
    by_cases hi : i = n
    · rw [hi, Function.update_self, if_pos (Nat.lt_succ_self n)]
    · rw [Function.update_of_ne hi]
      exact if_congr (by omega) rfl rfl
  induction n with
  | zero => rfl
  | succ n ih =>
    rw [List.range_succ, List.foldl_append, ih]
    unfold initEntry pack
    simp only [List.foldl_cons, List.foldl_nil]
    rw [hone (fun _ => 0x2), hone (fun i => BitVec.ofNat 32 (i * hex4KB ||| 3)), hone (fun _ => 0)]

theorem or_one_pack (base : Nat) : pack base 3 ||| 0x1 = pack base 3 := by
  unfold pack
  rw [BitVec.ofNat_or, BitVec.or_assoc]
  rfl

/-- An entry set present again. -/
theorem present_again {t : Nat → BitVec 32} (ht : ∀ i < size1KB, t i = pack (i * hex4KB) 3) {j : Nat} (hj : j < size1KB) :
    ∀ i < size1KB, Function.update t j (t j ||| 0x1) i = pack (i * hex4KB) 3 := by
  intro i hi
  by_cases hij : i = j
  · rw [hij, Function.update_self, ht j hj, or_one_pack]
  · rw [Function.update_of_ne hij, ht i hi]

/-- The table of the first four megabytes is the identity. -/
theorem initPaging_table {i : Nat} (hi : i < size1KB) : (initPaging l p).pageTable i = pack (i * hex4KB) 3 := by
  unfold initPaging
  rw [initEntries]
  refine present_again (present_again (present_again (present_again (fun i hi => if_pos hi) ?_) ?_) ?_) ?_ i hi <;> decide

/-- A turn of the second loop, on a table that is the identity. -/
theorem initVideo_buffer {p : Paging} (hp : ∀ i < size1KB, p.pageTable i = pack (i * hex4KB) 3) {i : Nat}
    (hi : vidMemidx + i < size1KB) : (initVideo p i).videoBuffer =
      Function.update p.videoBuffer (i - 1) ((pack ((vidMemidx + i) * hex4KB) 3 ||| 0x1) &&& 0xFFFFF000) := by
  rw [← hp _ hi]
  rfl

/-- `video_buffer` is what the console takes it for. -/
theorem initPaging_buffer (t : Term) : (initPaging l p).videoBuffer t.val = BitVec.ofNat 32 (videoBuffer t) := by
  unfold initPaging
  rw [initEntries]
  generalize hq : ({ p with
    pageDirectory := fun i => if i < size1KB then 0x2 else p.pageDirectory i
    pageTable := fun i => if i < size1KB then pack (i * hex4KB) 3 else p.pageTable i
    videoTable := fun i => if i < size1KB then 0 else p.videoTable i } : Paging) = q
  have hq₀ : ∀ i < size1KB, q.pageTable i = pack (i * hex4KB) 3 := fun i hi => by
    rw [← hq]
    exact if_pos hi
  let q₀ := { q with pageTable := Function.update q.pageTable vidMemidx (q.pageTable vidMemidx ||| 0x1) }
  have h₀ : ∀ i < size1KB, q₀.pageTable i = pack (i * hex4KB) 3 := present_again hq₀ (by decide)
  have h₁ : ∀ i < size1KB, (initVideo q₀ 1).pageTable i = pack (i * hex4KB) 3 := present_again h₀ (by decide)
  have h₂ : ∀ i < size1KB, (initVideo (initVideo q₀ 1) 2).pageTable i = pack (i * hex4KB) 3 := present_again h₁ (by decide)
  change (initVideo (initVideo (initVideo q₀ 1) 2) 3).videoBuffer t.val = _
  rw [initVideo_buffer h₂ (by decide), initVideo_buffer h₁ (by decide), initVideo_buffer h₀ (by decide)]
  match t with
  | 0 => exact (by decide : (pack ((vidMemidx + 1) * hex4KB) 3 ||| 0x1) &&& 0xFFFFF000 = BitVec.ofNat 32 (videoBuffer 0))
  | 1 => exact (by decide : (pack ((vidMemidx + 2) * hex4KB) 3 ||| 0x1) &&& 0xFFFFF000 = BitVec.ofNat 32 (videoBuffer 1))
  | 2 => exact (by decide : (pack ((vidMemidx + 3) * hex4KB) 3 ||| 0x1) &&& 0xFFFFF000 = BitVec.ofNat 32 (videoBuffer 2))

/-- The entries of the page directory. -/
theorem initPaging_directory {i : Nat} (hi : i < size1KB) : (initPaging l p).pageDirectory i =
    if i = vmVideoIdx then pack l.videoTable 7
    else if i = 1 then pack mem4MB pagesize4MB
    else if i = 0 then pack l.pageTable 3
    else 0x2 := by
  unfold initPaging
  rw [initEntries]
  change Function.update (Function.update (Function.update (fun i => if i < size1KB then 0x2 else p.pageDirectory i) 0 _) 1 _)
    vmVideoIdx _ i = _
  simp only [Function.update_apply, if_pos hi]
  rfl

/-- The entries of the video table. -/
theorem initPaging_video {i : Nat} (hi : i < size1KB) : (initPaging l p).videoTable i = if i < 3 then pack video 7 else 0 := by
  unfold initPaging
  rw [initEntries]
  change Function.update (Function.update (Function.update (fun i => if i < size1KB then 0 else p.videoTable i) 0 (pack video 7)) 1
    (pack video 7)) 2 (pack video 7) i = _
  simp only [Function.update_apply, if_pos hi]
  by_cases h3 : i < 3
  · rw [if_pos h3]
    split_ifs <;> first | rfl | omega
  · rw [if_neg h3, if_neg (by omega), if_neg (by omega), if_neg (by omega)]

/-- The registers after `init_paging`. -/
theorem initPaging_registers : (initPaging l p).cr3 = BitVec.ofNat 32 l.pageDirectory ∧ (initPaging l p).cr0 = p.cr0 ||| 0x80000000 ∧
    (initPaging l p).cr4 = p.cr4 ||| 0x10 := by
  unfold initPaging
  rw [initEntries]
  exact ⟨rfl, rfl, rfl⟩

/-! ### The stores of the kernel -/

/-- What `swap_pages` stores. -/
theorem paging_swapPages (k : Kernel) (pId : Nat) : (swapPages k pId).paging l p = (k.paging l p).mapProgram pId k.currTerm := by
  unfold Kernel.paging Paging.mapProgram swapPages
  dsimp only
  rw [Function.update_idem]
  rfl

/-- What `execute_func` stores before the load. -/
theorem paging_mapProgPage (k : Kernel) : (mapProgPage k).paging l p = (k.paging l p).mapProgram (k.nextPId k.currTerm) k.currTerm := by
  unfold Kernel.paging Paging.mapProgram mapProgPage
  dsimp only
  rw [Function.update_idem]
  rfl

/-- A table of entries as they are stored. -/
theorem word_update (t : Nat → PageEntry) (i : Nat) (e : PageEntry) :
    (fun j => (Function.update t i e j).word) = Function.update (fun j => (t j).word) i e.word :=
  funext (fun j => Function.apply_update (fun _ e => e.word) t i e j)

/-- A flag set in an entry. -/
theorem word_or (e : PageEntry) (f : Nat) : ({ e with flags := e.flags ||| f } : PageEntry).word = e.word ||| BitVec.ofNat 32 f := by
  unfold PageEntry.word pack
  dsimp only
  rw [← BitVec.ofNat_or, Nat.or_assoc]

/-- What `switch_vidmap` stores. -/
theorem paging_switchVidmap (k : Kernel) (dest : Term) :
    (switchVidmap k dest).paging l p = (k.paging l p).switchVidmap k.dispTerm dest := by
  have hword : ({ base := videoBuffer k.dispTerm, flags := 0x7 } : PageEntry).word = BitVec.ofNat 32 (videoBuffer k.dispTerm) ||| 0x7 :=
    BitVec.ofNat_or
  unfold Kernel.paging Paging.switchVidmap switchVidmap
  dsimp only
  rw [word_update, word_update, initPaging_buffer, hword]
  rfl

/-- What `vidmap_func` stores in the table. -/
theorem paging_openVideo (k : Kernel) (e : PageEntry)
    (he : e = { k.videoTable k.currTerm.val with flags := (k.videoTable k.currTerm.val).flags ||| 4 }) :
    ({ k with videoTable := Function.update k.videoTable k.currTerm.val e } : Kernel).paging l p =
      (k.paging l p).openVideo k.currTerm := by
  unfold Kernel.paging Paging.openVideo
  dsimp only
  rw [word_update, he, word_or]
  rfl

/-- The state at boot has what `init_paging` has left. -/
theorem paging_boot (m : CPtr) (q : Addr → PCB) {i : Nat} (hi : i < size1KB) :
    ((boot m q).paging l p).pageDirectory i = (initPaging l p).pageDirectory i ∧
      ((boot m q).paging l p).videoTable i = (initPaging l p).videoTable i := by
  constructor
  · change Function.update (initPaging l p).pageDirectory pdEntryProg (pack 0 2) i = _
    by_cases hprog : i = pdEntryProg
    · rw [hprog, Function.update_self, initPaging_directory (by decide)]
      rfl
    · rw [Function.update_of_ne hprog]
  · rw [initPaging_video hi]
    change (if i < 3 then ({ base := video, flags := 0x7 } : PageEntry) else { base := 0, flags := 0 }).word = _
    rw [apply_ite PageEntry.word]
    rfl

/-! ### The walk -/

theorem pg_paging : ((k.paging l p).mmu l).pg = true := by
  change (initPaging l p).cr0.getLsbD 31 = true
  rw [initPaging_registers.2.1, BitVec.getLsbD_or]
  exact Bool.or_true _

end PagingAux

end ThreeTermOS
