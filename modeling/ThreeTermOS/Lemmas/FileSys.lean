import ThreeTermOS.FileSys

/-!
# What `read_data` reads

A file is its data blocks in slot order, cut to the size of its inode. On a sound inode `read_data` returns the slice of the
file that was asked for, as far as the file goes.
-/

namespace ThreeTermOS

open Bytes

/-- The byte of a file at an offset: the block its slot names, at the offset within the block. -/
def Image.fileByte (img : Image) (n i : Nat) : UInt8 :=
  img.byte (img.dataStart + img.val n (i / bytesPerBlock + 1) * bytesPerBlock + i % bytesPerBlock)

/-- A file: the bytes of its blocks, in slot order, up to its size. -/
def Image.fileBytes (img : Image) (n : Nat) : List UInt8 := slice (img.fileByte n) 0 (img.val n 0)

/-- An inode of at most 1022 blocks whose 1023 slots all hold the number of a data block. -/
structure Image.SoundInode (img : Image) (n : Nat) : Prop where
  size : img.val n 0 ≤ 1022 * bytesPerBlock
  slots : ∀ j, 1 ≤ j → j ≤ 1023 → img.val n j < img.fsStats 2

@[simp] theorem Image.fileBytes_length (img : Image) (n : Nat) : (img.fileBytes n).length = img.val n 0 := slice_length _ _ _

/-- Cutting a length at a bound. -/
theorem ite_gt_eq_min (a b : Nat) [Decidable (a > b)] : (if a > b then b else a) = min a b := by
  split <;> omega

/-- The slot of the block that holds the last of `r` bytes from an offset on. -/
def lastSlot (offset r : Nat) : Nat := (offset + r - 1) / bytesPerBlock + 1

/-- The slots of the blocks that hold a range of a file all hold the number of a data block. -/
def Image.Covered (img : Image) (n offset r : Nat) : Prop :=
  ∀ j, offset / bytesPerBlock + 1 ≤ j → j ≤ lastSlot offset r → img.val n j < img.fsStats 2

theorem Image.SoundInode.covered {img : Image} {n offset r : Nat} (hs : img.SoundInode n) (hr : 0 < r)
    (hle : offset + r ≤ img.val n 0) : img.Covered n offset r := by
  have hsize := hs.size
  intro j h1 h2
  unfold lastSlot at h2
  simp only [bytesPerBlock] at hsize h1 h2
  exact hs.slots j (by omega) (by omega)

/-- From any point within a covered range, the loop of `read_data` delivers the rest of it: the pointer, the number of bytes to
copy and the slot to look at next are those of the block that holds the offset reached. The slot looked at last is one beyond the
range. -/
theorem Image.readDataLoop_eq {img : Image} {n offset length : Nat} (hc : img.Covered n offset length) :
    ∀ fuel count, length - count ≤ fuel → count < length →
      img.readDataLoop n length fuel count ((offset + count) / bytesPerBlock + 2)
        (img.dataStart + img.val n ((offset + count) / bytesPerBlock + 1) * bytesPerBlock + (offset + count) % bytesPerBlock)
        (min (length - count) (bytesPerBlock - (offset + count) % bytesPerBlock)) =
      { ret := if img.val n (lastSlot offset length + 1) > img.fsStats 2 then -1 else length
        bytes := slice (img.fileByte n) (offset + count) (length - count) } := by
  have hlastSlot : lastSlot offset length = (offset + length - 1) / 4096 + 1 := rfl
  unfold Image.Covered at hc
  generalize lastSlot offset length = last at hc hlastSlot
  intro fuel
  induction fuel with
  | zero =>
    intro count hf hlt
    omega
  | succ fuel ih =>
    intro count hf hlt
    rw [readDataLoop, if_pos hlt]
    simp only [ite_gt_eq_min]
    -- the bytes this turn copies are those of the file
    have hcopy : slice img.byte
        (img.dataStart + img.val n ((offset + count) / bytesPerBlock + 1) * bytesPerBlock + (offset + count) % bytesPerBlock)
        (min (length - count) (bytesPerBlock - (offset + count) % bytesPerBlock)) =
        slice (img.fileByte n) (offset + count) (min (length - count) (bytesPerBlock - (offset + count) % bytesPerBlock)) := by
      simp only [bytesPerBlock]
      apply slice_congr
      intro i hi
      have h1 : (offset + count + i) / 4096 = (offset + count) / 4096 := by omega
      have h2 : (offset + count + i) % 4096 = (offset + count) % 4096 + i := by omega
      simp only [fileByte, bytesPerBlock, h1, h2]
      rw [Nat.add_assoc]
    rw [hcopy]
    by_cases hlast : length - count ≤ bytesPerBlock - (offset + count) % bytesPerBlock
    · -- the last block: the slot checked is the one beyond the range
      have hmin : min (length - count) (bytesPerBlock - (offset + count) % bytesPerBlock) = length - count := by omega
      have hahead : (offset + count) / bytesPerBlock + 2 = last + 1 := by
        simp only [bytesPerBlock] at hlast ⊢
        omega
      have hdone : ∀ di dp dc, img.readDataLoop n length fuel (count + (length - count)) di dp dc =
          { ret := length, bytes := [] } := by
        intro di dp dc
        cases fuel with
        | zero => rfl
        | succ fuel => rw [readDataLoop, if_neg (by omega)]
      rw [hmin, hahead, hdone]
      by_cases hbad : img.val n (last + 1) > img.fsStats 2
      · rw [if_pos hbad, if_pos hbad]
      · rw [if_neg hbad, if_neg hbad, List.append_nil]
    · simp only [bytesPerBlock] at hc hlast
      have hslot : img.val n ((offset + count) / bytesPerBlock + 2) < img.fsStats 2 := by
        simp only [bytesPerBlock]
        exact hc _ (by omega) (by omega)
      rw [if_neg (by omega)]
      simp only [bytesPerBlock] at ih ⊢
      have hmin : min (length - count) (4096 - (offset + count) % 4096) = 4096 - (offset + count) % 4096 := by omega
      rw [hmin]
      generalize hk : 4096 - (offset + count) % 4096 = k at *
      have hdiv : (offset + (count + k)) / 4096 = (offset + count) / 4096 + 1 := by omega
      have hmod : (offset + (count + k)) % 4096 = 0 := by omega
      have hrest := ih (count + k) (by omega) (by omega)
      rw [hdiv, hmod] at hrest
      simp only [Nat.add_zero, Nat.sub_zero] at hrest
      rw [hrest]
      simp only [ReadOut.mk.injEq, true_and]
      rw [show length - count = k + (length - (count + k)) by omega, slice_add, Nat.add_assoc]

/-- Where the bytes asked for are covered, `read_data` stores exactly these; it fails all the same when the slot beyond them holds
too large a number. The bounds on the arguments keep the sum `length + offset` within 32 bits. -/
theorem readData_covered {img : Image} {n offset length : Nat} (hn : n < img.fsStats 1) (ho : offset < 2 ^ 31) (hl : length < 2 ^ 31)
    (hr : 0 < min length (img.val n 0 - offset)) (hc : img.Covered n offset (min length (img.val n 0 - offset))) :
    readData img n offset length =
      { ret := if img.val n (lastSlot offset (min length (img.val n 0 - offset)) + 1) > img.fsStats 2 then -1
          else (min length (img.val n 0 - offset) : Nat)
        bytes := slice (img.fileByte n) offset (min length (img.val n 0 - offset)) } := by
  rw [readData, if_neg (by omega), if_neg (by omega)]
  have hlen : (if (length + offset) % 2 ^ 32 > img.val n 0 then img.val n 0 - offset else length) =
      min length (img.val n 0 - offset) := by
    split <;> omega
  simp only [hlen]
  generalize min length (img.val n 0 - offset) = r at *
  have hslot : img.val n (offset / bytesPerBlock + 1) < img.fsStats 2 := by
    refine hc _ (Nat.le_refl _) ?_
    unfold lastSlot
    exact Nat.add_le_add_right (Nat.div_le_div_right (by omega)) 1
  rw [if_neg (by omega)]
  have hdc : (if r + offset % bytesPerBlock > bytesPerBlock then bytesPerBlock - offset % bytesPerBlock else r) =
      min r (bytesPerBlock - offset % bytesPerBlock) := by
    have hb : bytesPerBlock = 4096 := rfl
    rw [hb]
    split <;> omega
  rw [hdc]
  have h := img.readDataLoop_eq hc r 0 (by omega) hr
  simpa only [Nat.add_zero, Nat.sub_zero] using h

/-- On a sound inode of the image, `read_data` returns the number of bytes of the file in the range asked for and stores
exactly these. -/
theorem readData_eq {img : Image} {n offset length : Nat} (hn : n < img.fsStats 1) (hs : img.SoundInode n)
    (ho : offset < 2 ^ 31) (hl : length < 2 ^ 31) :
    readData img n offset length =
      { ret := (min length (img.val n 0 - offset) : Nat),
        bytes := slice (img.fileByte n) offset (min length (img.val n 0 - offset)) } := by
  have hsize := hs.size
  simp only [bytesPerBlock] at hsize
  by_cases hz : min length (img.val n 0 - offset) = 0
  · rw [readData, if_neg (by omega), hz]
    by_cases hoff : offset ≥ img.val n 0
    · rw [if_pos hoff]
      rfl
    · have hlen : (if (length + offset) % 2 ^ 32 > img.val n 0 then img.val n 0 - offset else length) = 0 := by
        split <;> omega
      have hslot : img.val n (offset / bytesPerBlock + 1) < img.fsStats 2 :=
        hs.slots _ (by simp only [bytesPerBlock]; omega) (by simp only [bytesPerBlock]; omega)
      rw [if_neg hoff]
      simp only [hlen]
      rw [if_neg (by omega)]
      rfl
  · have hr : 0 < min length (img.val n 0 - offset) := Nat.pos_of_ne_zero hz
    rw [readData_covered hn ho hl hr (hs.covered hr (by omega)), if_neg]
    have hslot : img.val n (lastSlot offset (min length (img.val n 0 - offset)) + 1) < img.fsStats 2 := by
      refine hs.slots _ (by omega) ?_
      unfold lastSlot
      simp only [bytesPerBlock]
      omega
    omega

/-- An inode number past the last inode is refused before anything is read. -/
theorem readData_of_le {img : Image} {n : Nat} (offset length : Nat) (hn : img.fsStats 1 ≤ n) :
    readData img n offset length = { ret := -1, bytes := [] } := by
  rw [readData, if_pos hn]

/-- The loop of `read_data` stores no more than it was asked for, on any image: what a turn copies is within what is left, and the
next is cut to what is left after it. -/
theorem Image.readDataLoop_le (img : Image) (n length : Nat) :
    ∀ fuel count dataIndex dataPtr dataToCopy, count + dataToCopy ≤ length →
      (img.readDataLoop n length fuel count dataIndex dataPtr dataToCopy).bytes.length ≤ length - count ∧
      (img.readDataLoop n length fuel count dataIndex dataPtr dataToCopy).ret ≤ length := by
  have hneg : (-1 : Int) ≤ length := by omega
  intro fuel
  induction fuel with
  | zero =>
    intro count di dp dc hle
    exact ⟨Nat.zero_le _, Int.le_refl _⟩
  | succ fuel ih =>
    intro count di dp dc hle
    rw [readDataLoop]
    by_cases hlt : count < length
    · rw [if_pos hlt]
      by_cases hbad : img.val n di > img.fsStats 2
      · rw [if_pos hbad, slice_length]
        exact ⟨by omega, hneg⟩
      · rw [if_neg hbad]
        simp only [ite_gt_eq_min]
        have hrest := ih (count + dc) (di + 1) (img.dataStart + img.val n di * bytesPerBlock)
          (min (length - (count + dc)) bytesPerBlock) (by omega)
        rw [List.length_append, slice_length]
        exact ⟨by omega, hrest.2⟩
    · rw [if_neg hlt]
      exact ⟨Nat.zero_le _, Int.le_refl _⟩

/-- Whatever the image holds, `read_data` stores and returns no more than it was asked for, also where `length + offset` wraps. -/
theorem readData_le (img : Image) (n offset length : Nat) :
    (readData img n offset length).bytes.length ≤ length ∧ (readData img n offset length).ret ≤ length := by
  have hneg : (-1 : Int) ≤ length := by omega
  rw [readData]
  by_cases hn : n ≥ img.fsStats 1
  · rw [if_pos hn]
    exact ⟨Nat.zero_le _, hneg⟩
  · rw [if_neg hn]
    by_cases ho : offset ≥ img.val n 0
    · rw [if_pos ho]
      exact ⟨Nat.zero_le _, Int.natCast_nonneg _⟩
    · rw [if_neg ho]
      dsimp only
      have hcut : (if (length + offset) % 2 ^ 32 > img.val n 0 then img.val n 0 - offset else length) ≤ length := by
        have hmod := Nat.mod_le (length + offset) (2 ^ 32)
        split <;> omega
      generalize (if (length + offset) % 2 ^ 32 > img.val n 0 then img.val n 0 - offset else length) = cut at *
      by_cases hslot : img.val n (offset / bytesPerBlock + 1) > img.fsStats 2
      · rw [if_pos hslot]
        exact ⟨Nat.zero_le _, hneg⟩
      · rw [if_neg hslot]
        have hloop := img.readDataLoop_le n cut cut 0 (offset / bytesPerBlock + 1 + 1)
          (img.dataStart + img.val n (offset / bytesPerBlock + 1) * bytesPerBlock + offset % bytesPerBlock)
          (if cut + offset % bytesPerBlock > bytesPerBlock then bytesPerBlock - offset % bytesPerBlock else cut)
          (by split <;> omega)
        exact ⟨by omega, by omega⟩

/-! ## A small image -/

/-- The parts of a small image at their offsets: the counts (one entry, one inode, one block), the entry of the regular file
`shell`, its inode of five bytes in block 0, and the block. -/
def shellImageParts : List (Nat × List UInt8) :=
  [(0, [1, 0, 0, 0, 1, 0, 0, 0, 1]), (64, ascii "shell"), (96, [2]), (4096, [5]), (8192, [0x7F, 0x45, 0x4C, 0x46, 7])]

/-- An image given by the parts of it that are not zero. -/
def Image.ofParts (parts : List (Nat × List UInt8)) : Image :=
  { byte := fun a => ((parts.find? (fun q => decide (q.1 ≤ a ∧ a < q.1 + q.2.length))).map
      (fun q => q.2.getD (a - q.1) 0)).getD 0 }

def shellImage : Image := Image.ofParts shellImageParts

/-- Between its parts an image is 0. -/
theorem Image.ofParts_byte_eq_zero {parts : List (Nat × List UInt8)} {a : Nat}
    (h : ∀ q ∈ parts, ¬(q.1 ≤ a ∧ a < q.1 + q.2.length)) : (Image.ofParts parts).byte a = 0 := by
  have hnone : parts.find? (fun q => decide (q.1 ≤ a ∧ a < q.1 + q.2.length)) = none := by
    rw [List.find?_eq_none]
    intro q hq hin
    exact h q hq (of_decide_eq_true hin)
  unfold Image.ofParts
  dsimp only
  rw [hnone]
  rfl

theorem soundInode_shellImage : shellImage.SoundInode 0 := by
  refine ⟨by decide, fun j h1 h2 => ?_⟩
  have hzero : ∀ i < 4, shellImage.byte (calculateInodeStart + bytesPerBlock * 0 + 4 * j + i) = 0 := by
    intro i hi
    have hlo : 4100 ≤ calculateInodeStart + bytesPerBlock * 0 + 4 * j + i := by
      unfold calculateInodeStart bytesPerBlock
      omega
    have hhi : calculateInodeStart + bytesPerBlock * 0 + 4 * j + i < 8192 := by
      unfold calculateInodeStart bytesPerBlock
      omega
    generalize calculateInodeStart + bytesPerBlock * 0 + 4 * j + i = a at hlo hhi ⊢
    refine Image.ofParts_byte_eq_zero (fun q hq => ?_)
    have hends : q.1 + q.2.length ≤ 4100 ∨ 8192 ≤ q.1 := by
      revert q
      decide
    omega
  have hfirst := hzero 0 (by omega)
  rw [Nat.add_zero] at hfirst
  have hval : shellImage.val 0 j = 0 := by
    unfold Image.val le32
    rw [hfirst, hzero 1 (by omega), hzero 2 (by omega), hzero 3 (by omega)]
    rfl
  rw [hval]
  decide

end ThreeTermOS
