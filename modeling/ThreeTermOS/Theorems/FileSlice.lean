import ThreeTermOS.Lemmas.FileSys

/-!
# read_data and the file

On sound inodes `read_data` is a slice of the file: the concatenation of its data blocks, in slot order. Without them it still
stores the right bytes as long as the slots of the range are good, but the value it returns depends on one slot more.
-/

namespace ThreeTermOS

open Bytes

/-- A data block. -/
def Image.dataBlock (img : Image) (b : Nat) : List UInt8 := slice img.byte (img.dataStart + b * bytesPerBlock) bytesPerBlock

/-- The data blocks of a file in the order of its 1023 slots. -/
def Image.dataBlocks (img : Image) (n : Nat) : List UInt8 := (List.range 1023).flatMap (fun j => img.dataBlock (img.val n (j + 1)))

/-- The caller's buffer after a read. -/
def ReadOut.store (out : ReadOut) (buf : CPtr) : CPtr := fun i => if i < out.bytes.length then out.bytes.getD i 0 else buf i

/-- `read_data`, with a bound on the turns of its loop. -/
def readDataTurns (img : Image) (turns inodeNum offset length : Nat) : ReadOut :=
  if inodeNum ≥ img.fsStats 1 then { ret := -1, bytes := [] }
  else
    let fileSize := img.val inodeNum 0
    if offset ≥ fileSize then { ret := 0, bytes := [] }
    else
      let length := if (length + offset) % 2 ^ 32 > fileSize then fileSize - offset else length
      let dataIndex := offset / bytesPerBlock + 1
      if img.val inodeNum dataIndex > img.fsStats 2 then { ret := -1, bytes := [] }
      else
        let dataPtr := img.dataStart + img.val inodeNum dataIndex * bytesPerBlock + offset % bytesPerBlock
        let dataToCopy :=
          if length + offset % bytesPerBlock > bytesPerBlock then bytesPerBlock - offset % bytesPerBlock else length
        img.readDataLoop inodeNum length turns 0 (dataIndex + 1) dataPtr dataToCopy

namespace FileSliceAux

variable {img img' : Image} {n offset length : Nat}

/-! ### The loop ends -/

/-- A turn copies a byte at least: turns enough for the bytes left are as good as any more. -/
theorem readDataLoop_turns (img : Image) (n length : Nat) :
    ∀ fuel fuel' count dataIndex dataPtr dataToCopy, length - count ≤ fuel → length - count ≤ fuel' →
      (count < length → 0 < dataToCopy) →
      img.readDataLoop n length fuel count dataIndex dataPtr dataToCopy =
        img.readDataLoop n length fuel' count dataIndex dataPtr dataToCopy := by
  have hdone : ∀ fuel count dataIndex dataPtr dataToCopy, ¬count < length →
      img.readDataLoop n length fuel count dataIndex dataPtr dataToCopy = { ret := length, bytes := [] } := by
    intro fuel count dataIndex dataPtr dataToCopy hlt
    cases fuel with
    | zero => rfl
    | succ fuel => rw [Image.readDataLoop, if_neg hlt]
  intro fuel
  induction fuel with
  | zero =>
    intro fuel' count dataIndex dataPtr dataToCopy hf hf' hpos
    rw [hdone _ _ _ _ _ (by omega), hdone _ _ _ _ _ (by omega)]
  | succ fuel ih =>
    intro fuel' count dataIndex dataPtr dataToCopy hf hf' hpos
    by_cases hlt : count < length
    · have hcopy := hpos hlt
      cases fuel' with
      | zero => omega
      | succ fuel' =>
        have hrest := ih fuel' (count + dataToCopy) (dataIndex + 1)
          (img.dataStart + img.val n dataIndex * bytesPerBlock)
          (if length - (count + dataToCopy) > bytesPerBlock then bytesPerBlock else length - (count + dataToCopy))
          (by omega) (by omega) (by rw [ite_gt_eq_min]; simp only [bytesPerBlock]; omega)
        rw [Image.readDataLoop, if_pos hlt, Image.readDataLoop, if_pos hlt]
        simp only [hrest]
    · rw [hdone _ _ _ _ _ hlt, hdone _ _ _ _ _ hlt]

/-- The loop of `read_data` ends within as many turns as bytes are asked for. -/
theorem readDataTurns_eq (img : Image) (n : Nat) {offset length turns : Nat} (ho : offset < 2 ^ 31) (hl : length < 2 ^ 31)
    (ht : length ≤ turns) : readDataTurns img turns n offset length = readData img n offset length := by
  unfold readDataTurns readData
  dsimp only
  split
  · rfl
  · split
    · rfl
    · split
      · rfl
      · have hle : (if (length + offset) % 2 ^ 32 > img.val n 0 then img.val n 0 - offset else length) ≤ length := by
          split <;> omega
        refine readDataLoop_turns img n _ _ _ _ _ _ _ (by omega) (by omega) (fun hlt => ?_)
        have hmod := Nat.mod_lt offset (show 0 < bytesPerBlock by decide)
        generalize (if (length + offset) % 2 ^ 32 > img.val n 0 then img.val n 0 - offset else length) = r at *
        split <;> omega

/-! ### The file -/

/-- Blocks of one size that follow one another are one slice. -/
theorem flatMap_slice (f : Nat → UInt8) (k m : Nat) :
    (List.range m).flatMap (fun j => slice f (j * k) k) = slice f 0 (m * k) := by
  induction m with
  | zero =>
    rw [Nat.zero_mul]
    rfl
  | succ m ih =>
    rw [List.range_succ, List.flatMap_append, ih, Nat.succ_mul, slice_add]
    simp

theorem dataBlocks_eq (img : Image) (n : Nat) : img.dataBlocks n = slice (img.fileByte n) 0 (1023 * bytesPerBlock) := by
  rw [← flatMap_slice, Image.dataBlocks]
  refine congrArg (fun f => (List.range 1023).flatMap f) (funext fun j => ?_)
  apply slice_congr
  intro i hi
  have hdiv : (j * bytesPerBlock + i) / bytesPerBlock = j := by
    simp only [bytesPerBlock] at hi ⊢
    omega
  have hmod : (j * bytesPerBlock + i) % bytesPerBlock = i := by
    simp only [bytesPerBlock] at hi ⊢
    omega
  rw [Image.fileByte, hdiv, hmod]

/-- The bytes of a file, found in its blocks. -/
theorem getD_dataBlocks {i : Nat} (hi : i < 1023 * bytesPerBlock) : (img.dataBlocks n).getD i 0 = img.fileByte n i := by
  rw [dataBlocks_eq, List.getD_eq_getElem?_getD, slice_getElem?, if_pos hi, Nat.zero_add]
  rfl

theorem store_slice_of_lt (f : Nat → UInt8) (ret : Int) (buf : CPtr) {a r i : Nat} (hi : i < r) :
    ({ ret := ret, bytes := slice f a r } : ReadOut).store buf i = f (a + i) := by
  unfold ReadOut.store
  dsimp only
  rw [slice_length, if_pos hi, List.getD_eq_getElem?_getD, slice_getElem?, if_pos hi]
  rfl

theorem store_of_le {out : ReadOut} (buf : CPtr) {i : Nat} (hi : out.bytes.length ≤ i) : out.store buf i = buf i :=
  if_neg (Nat.not_lt.mpr hi)

/-! ### Two images -/

/-- The slot of the block that holds a byte of a file. -/
def slotOf (i : Nat) : Nat := i / bytesPerBlock + 1

end FileSliceAux

open FileSliceAux

/-- `read_data` is the file slice: on an image whose inodes are sound it refuses an inode number that is too large and leaves the
buffer alone; otherwise it stores the bytes of the file from the offset on, as many as there are and were asked for, and nothing
else, and returns their number. Its loop ends. -/
theorem readData_stores_slice {img : Image} (hs : ∀ n < img.fsStats 1, img.SoundInode n) (n : Nat) {offset length : Nat}
    (ho : offset < 2 ^ 31) (hl : length < 2 ^ 31) (buf : CPtr) :
    (∀ turns, length ≤ turns → readDataTurns img turns n offset length = readData img n offset length) ∧
      (img.fsStats 1 ≤ n → (readData img n offset length).ret = -1 ∧ (readData img n offset length).store buf = buf) ∧
      (n < img.fsStats 1 →
        (readData img n offset length).ret = (min length (img.val n 0 - offset) : Nat) ∧
        (∀ i < min length (img.val n 0 - offset),
          (readData img n offset length).store buf i = (img.dataBlocks n).getD (offset + i) 0) ∧
        ∀ i, min length (img.val n 0 - offset) ≤ i → (readData img n offset length).store buf i = buf i) := by
  refine ⟨fun turns ht => readDataTurns_eq img n ho hl ht, fun hn => ?_, fun hn => ?_⟩
  · rw [readData_of_le offset length hn]
    exact ⟨rfl, funext fun i => store_of_le buf (Nat.zero_le i)⟩
  · have hsize := (hs n hn).size
    rw [readData_eq hn (hs n hn) ho hl]
    refine ⟨rfl, fun i hi => ?_, fun i hi => store_of_le buf (by rw [slice_length]; exact hi)⟩
    rw [store_slice_of_lt _ _ _ hi, getD_dataBlocks]
    omega

/-- The shell of the small image: four bytes from offset 2 on are asked for, three are there. -/
theorem readData_stores_slice_shellImage :
    (readData shellImage 0 2 4).ret = 3 ∧ (readData shellImage 0 2 4).store (fun _ => 9) 1 = (shellImage.dataBlocks 0).getD 3 0 ∧
      (readData shellImage 0 2 4).store (fun _ => 9) 3 = 9 := by
  have hstats : shellImage.fsStats 1 = 1 := by decide
  have hsize : shellImage.val 0 0 = 5 := by decide
  have hsound : ∀ n < shellImage.fsStats 1, shellImage.SoundInode n := by
    intro n hn
    obtain rfl : n = 0 := by omega
    exact soundInode_shellImage
  obtain ⟨-, -, hread⟩ := readData_stores_slice hsound 0 (show 2 < 2 ^ 31 by decide) (show 4 < 2 ^ 31 by decide) (fun _ => 9)
  obtain ⟨hret, hbytes, hrest⟩ := hread (by omega)
  rw [hsize] at hret hbytes hrest
  exact ⟨hret, hbytes 1 (by decide), hrest 3 (by decide)⟩

/-! ## Two images -/

/-- Two images that agree on what a read has to look at: the counts, the size of the inode, the slots of the blocks that hold the
bytes asked for, and these blocks. -/
structure Image.AgreeOn (img img' : Image) (n offset length : Nat) : Prop where
  inodes : img'.fsStats 1 = img.fsStats 1
  blocks : img'.fsStats 2 = img.fsStats 2
  size : img'.val n 0 = img.val n 0
  small : img.val n 0 ≤ 1023 * bytesPerBlock
  slots : ∀ i, offset ≤ i → i < min (offset + length) (img.val n 0) →
    img.val n (slotOf i) < img.fsStats 2 ∧ img'.val n (slotOf i) = img.val n (slotOf i)
  data : ∀ i, offset ≤ i → i < min (offset + length) (img.val n 0) →
    img'.dataBlock (img.val n (slotOf i)) = img.dataBlock (img.val n (slotOf i))

/-- The slot that `read_data` checks although no byte asked for is in its block: the one after the slot of the last byte, or that
of the offset when no byte is asked for. -/
def checkedSlot (offset r : Nat) : Nat := if r = 0 then slotOf offset else lastSlot offset r + 1

namespace FileSliceAux

variable {img img' : Image} {n offset length : Nat}

/-- One formula for a read whose range is covered. -/
theorem readData_checked (hn : n < img.fsStats 1) (ho : offset < 2 ^ 31) (hl : length < 2 ^ 31) (hoff : offset < img.val n 0)
    (hc : ∀ i, offset ≤ i → i < min (offset + length) (img.val n 0) → img.val n (slotOf i) < img.fsStats 2) :
    readData img n offset length =
      { ret := if img.val n (checkedSlot offset (min length (img.val n 0 - offset))) > img.fsStats 2 then -1
          else (min length (img.val n 0 - offset) : Nat)
        bytes := slice (img.fileByte n) offset (min length (img.val n 0 - offset)) } := by
  by_cases hz : min length (img.val n 0 - offset) = 0
  · have hlen : length = 0 := by omega
    subst hlen
    rw [hz, readData, if_neg (by omega), if_neg (by omega)]
    have hcut : (if (0 + offset) % 2 ^ 32 > img.val n 0 then img.val n 0 - offset else 0) = 0 := by
      split <;> omega
    simp only [hcut]
    unfold checkedSlot slotOf
    rw [if_pos rfl]
    split
    · rfl
    · rfl
  · have hr : 0 < min length (img.val n 0 - offset) := Nat.pos_of_ne_zero hz
    unfold checkedSlot
    rw [if_neg hz]
    refine readData_covered hn ho hl hr (fun j h1 h2 => ?_)
    -- a byte of the range in the block of slot `j`
    have hj : j = slotOf (max offset ((j - 1) * bytesPerBlock)) := by
      unfold slotOf
      unfold lastSlot at h2
      simp only [bytesPerBlock] at h1 h2 ⊢
      omega
    rw [hj]
    refine hc _ (Nat.le_max_left _ _) ?_
    unfold lastSlot at h2
    simp only [bytesPerBlock] at h1 h2 ⊢
    omega

/-- Images that agree on a range have the same bytes there. -/
theorem fileByte_congr (h : img.AgreeOn img' n offset length) {i : Nat} (h1 : offset ≤ i)
    (h2 : i < min (offset + length) (img.val n 0)) : img'.fileByte n i = img.fileByte n i := by
  have hslot := (h.slots i h1 h2).2
  have hblock := congrArg (fun l => l[i % bytesPerBlock]?) (h.data i h1 h2)
  have hmod := Nat.mod_lt i (show 0 < bytesPerBlock by decide)
  dsimp only [Image.dataBlock] at hblock
  rw [slice_getElem?, slice_getElem?, if_pos hmod, if_pos hmod, Option.some.injEq] at hblock
  unfold slotOf at hslot hblock
  rw [Image.fileByte, Image.fileByte, hslot]
  exact hblock

end FileSliceAux

open FileSliceAux

/-- What `read_data` depends on beside what it reads: on images that agree on the range asked for it stores the same bytes, and it
returns the same exactly when the slot it checks beyond the range is too large in both or in neither. A read of a file fails exactly
when that slot is too large. -/
theorem readData_agrees_iff {img img' : Image} {n offset length : Nat} (h : img.AgreeOn img' n offset length)
    (ho : offset < 2 ^ 31) (hl : length < 2 ^ 31) :
    (readData img n offset length).bytes = (readData img' n offset length).bytes ∧
      (readData img n offset length = readData img' n offset length ↔
        img.fsStats 1 ≤ n ∨ img.val n 0 ≤ offset ∨
          (img.fsStats 2 < img.val n (checkedSlot offset (min length (img.val n 0 - offset))) ↔
            img'.fsStats 2 < img'.val n (checkedSlot offset (min length (img'.val n 0 - offset))))) ∧
      (n < img.fsStats 1 → offset < img.val n 0 → ((readData img n offset length).ret = -1 ↔
        img.fsStats 2 < img.val n (checkedSlot offset (min length (img.val n 0 - offset))))) := by
  by_cases hn : img.fsStats 1 ≤ n
  · rw [readData_of_le offset length hn, readData_of_le offset length (h.inodes ▸ hn)]
    exact ⟨rfl, iff_of_true rfl (Or.inl hn), fun hlt => absurd hlt (Nat.not_lt.mpr hn)⟩
  have hn' : n < img.fsStats 1 := Nat.lt_of_not_le hn
  by_cases hoff : img.val n 0 ≤ offset
  · have hpast : ∀ im : Image, im.fsStats 1 = img.fsStats 1 → im.val n 0 = img.val n 0 →
        readData im n offset length = { ret := 0, bytes := [] } := by
      intro im h1 h2
      rw [readData, if_neg (by omega), if_pos (by omega)]
    rw [hpast img rfl rfl, hpast img' h.inodes h.size]
    exact ⟨rfl, iff_of_true rfl (Or.inr (Or.inl hoff)), fun _ hlt => absurd hlt (Nat.not_lt.mpr hoff)⟩
  have hoff' : offset < img.val n 0 := Nat.lt_of_not_le hoff
  have hread := readData_checked hn' ho hl hoff' (fun i h1 h2 => (h.slots i h1 h2).1)
  have hread' := readData_checked (h.inodes ▸ hn') ho hl (h.size ▸ hoff') (fun i h1 h2 => by
    rw [h.size] at h2
    rw [h.blocks, (h.slots i h1 h2).2]
    exact (h.slots i h1 h2).1)
  have hbytes : slice (img'.fileByte n) offset (min length (img'.val n 0 - offset)) =
      slice (img.fileByte n) offset (min length (img.val n 0 - offset)) := by
    rw [h.size]
    exact slice_congr (fun i hi => fileByte_congr h (Nat.le_add_right _ _) (by omega))
  rw [hbytes] at hread'
  rw [hread, hread', h.size]
  have hneg : ((min length (img.val n 0 - offset) : Nat) : Int) ≠ -1 := by omega
  refine ⟨rfl, ?_, fun _ _ => ?_⟩
  · rw [ReadOut.mk.injEq]
    constructor
    · rintro ⟨hret, -⟩
      refine Or.inr (Or.inr ?_)
      by_cases hbad : img.val n (checkedSlot offset (min length (img.val n 0 - offset))) > img.fsStats 2
      · by_cases hbad' : img'.val n (checkedSlot offset (min length (img.val n 0 - offset))) > img'.fsStats 2
        · exact iff_of_true hbad hbad'
        · rw [if_pos hbad, if_neg hbad'] at hret
          exact absurd hret.symm hneg
      · by_cases hbad' : img'.val n (checkedSlot offset (min length (img.val n 0 - offset))) > img'.fsStats 2
        · rw [if_neg hbad, if_pos hbad'] at hret
          exact absurd hret hneg
        · exact iff_of_false hbad hbad'
    · rintro (hle | hle | hiff)
      · exact absurd hle hn
      · exact absurd hle hoff
      · refine ⟨?_, rfl⟩
        by_cases hbad : img.val n (checkedSlot offset (min length (img.val n 0 - offset))) > img.fsStats 2
        · rw [if_pos hbad, if_pos (hiff.mp hbad)]
        · rw [if_neg hbad, if_neg (fun hbad' => hbad (hiff.mpr hbad'))]
  · constructor
    · intro hret
      by_contra hbad
      dsimp only at hret
      rw [if_neg hbad] at hret
      exact hneg hret
    · exact fun hbad => if_pos hbad

/-- The small image with a number that is no block's in the second slot of its inode, which no byte of the file needs. -/
def staleSlotImage : Image := Image.ofParts (shellImageParts ++ [(4104, [5])])

/-- Away from the added part the image is the same. -/
theorem staleSlotImage_byte {a : Nat} (ha : 4105 ≤ a) : staleSlotImage.byte a = shellImage.byte a := by
  have hlast : [((4104 : Nat), ([5] : List UInt8))].find? (fun q => decide (q.1 ≤ a ∧ a < q.1 + q.2.length)) = none := by
    simp
    omega
  unfold staleSlotImage shellImage Image.ofParts
  dsimp only
  rw [List.find?_append, hlast, Option.or_none]

theorem staleSlotImage_agrees : shellImage.AgreeOn staleSlotImage 0 0 5 := by
  have hsize : shellImage.val 0 0 = 5 := by decide
  have hslot : ∀ i < 5, shellImage.val 0 (slotOf i) = 0 ∧ staleSlotImage.val 0 (slotOf i) = 0 := by decide
  have hstart : shellImage.dataStart = 8192 ∧ staleSlotImage.dataStart = 8192 := by decide
  have hpart : shellImage.dataBlock 0 = staleSlotImage.dataBlock 0 := by
    rw [Image.dataBlock, Image.dataBlock, hstart.1, hstart.2]
    exact slice_congr (fun i _ => (staleSlotImage_byte (by omega)).symm)
  refine ⟨by decide, by decide, by decide, by rw [hsize]; decide, fun i _ h2 => ?_, fun i _ h2 => ?_⟩
  · obtain ⟨h3, h4⟩ := hslot i (by omega)
    rw [h3, h4]
    exact ⟨by decide, rfl⟩
  · rw [(hslot i (by omega)).1]
    exact hpart.symm

/-- The whole file is stored from both images, and one of the reads fails. -/
theorem readData_agrees_iff_staleSlot :
    (readData shellImage 0 0 5).bytes = (readData staleSlotImage 0 0 5).bytes ∧ (readData shellImage 0 0 5).ret ≠ -1 := by
  obtain ⟨hbytes, -, hfail⟩ := readData_agrees_iff staleSlotImage_agrees (show 0 < 2 ^ 31 by decide) (show 5 < 2 ^ 31 by decide)
  refine ⟨hbytes, fun hret => ?_⟩
  have hbad := (hfail (by decide) (by decide)).mp hret
  revert hbad
  decide

/-- The slot after the file turns a complete read into a failure. -/
theorem staleSlotImage_fails :
    shellImage.AgreeOn staleSlotImage 0 0 5 ∧ (readData shellImage 0 0 5).ret = 5 ∧ (readData staleSlotImage 0 0 5).ret = -1 :=
  ⟨staleSlotImage_agrees, by decide, by decide⟩

end ThreeTermOS
