import Mathlib.Tactic.Push
import ThreeTermOS.Theorems.FileSlice

/-!
# What read_data touches

Two checks keep `read_data` within the image, one before the first block and one in the loop. Both let the number of data blocks
itself pass, which is one more than the last block, and the loop looks at the slot after the one it needs.
-/

namespace ThreeTermOS

open Bytes FileSliceAux

/-- An address lies in the data block of a number. -/
def Image.InBlock (img : Image) (b x : Nat) : Prop :=
  img.dataStart + b * bytesPerBlock ≤ x ∧ x < img.dataStart + (b + 1) * bytesPerBlock

/-- The read copies the byte at an address. -/
def Copies (img : Image) (inodeNum offset length x : Nat) : Prop :=
  ∃ p len, .copy p len ∈ readDataTrace img inodeNum offset length ∧ p ≤ x ∧ x < p + len

/-- The read stays inside the image: it looks at slots of the inode and copies from data blocks, and it fails rather than copy from a
block whose number is too large. -/
structure ReadsInside (img : Image) (n offset length : Nat) : Prop where
  slots : ∀ j, .slot j ∈ readDataTrace img n offset length → j ≤ 1023
  blocks : ∀ x, Copies img n offset length x → ∃ b < img.fsStats 2, img.InBlock b x
  refused : ∀ i, n < img.fsStats 1 → offset ≤ i → i < min (offset + length) (img.val n 0) → img.fsStats 2 ≤ img.val n (slotOf i) →
    (readData img n offset length).ret = -1 ∧ ∀ x, Copies img n offset length x → ¬img.InBlock (img.val n (slotOf i)) x

/-- Before a needed slot that holds exactly the number of data blocks, and not after the last slot of the inode, comes a needed slot
that holds a larger number. -/
def Image.StopsInTime (img : Image) (n offset length : Nat) : Prop :=
  ∀ i, offset ≤ i → i < min (offset + length) (img.val n 0) → img.val n (slotOf i) = img.fsStats 2 ∨ slotOf i = 1023 →
    ∃ i', offset ≤ i' ∧ i' ≤ i ∧ img.fsStats 2 < img.val n (slotOf i')

/-- The bytes an access stores in the buffer. -/
def Access.bytes (img : Image) : Access → List UInt8
  | .slot _ => []
  | .copy p len => slice img.byte p len

namespace ImageBoundsAux

variable {img : Image} {n o offset length rest : Nat}

/-! ### The trace is that of the read -/

theorem loopTrace_bytes (img : Image) (n length : Nat) : ∀ fuel count dataIndex dataPtr dataToCopy,
    (img.readDataLoopTrace n length fuel count dataIndex dataPtr dataToCopy).flatMap (Access.bytes img) =
      (img.readDataLoop n length fuel count dataIndex dataPtr dataToCopy).bytes := by
  intro fuel
  induction fuel with
  | zero => exact fun _ _ _ _ => rfl
  | succ fuel ih =>
    intro count di dp dc
    rw [Image.readDataLoopTrace, Image.readDataLoop]
    split
    · dsimp only
      rw [List.flatMap_cons, List.flatMap_cons]
      split
      · exact List.append_nil _
      · rw [ih]
        rfl
    · rfl

/-- The copies of the trace are what `read_data` stores. -/
theorem trace_bytes (img : Image) (n offset length : Nat) :
    (readDataTrace img n offset length).flatMap (Access.bytes img) = (readData img n offset length).bytes := by
  rw [readDataTrace, readData]
  split
  · rfl
  · dsimp only
    rw [List.flatMap_cons]
    split
    · rfl
    · rw [List.flatMap_cons]
      split
      · rfl
      · exact loopTrace_bytes img n _ _ _ _ _ _

/-! ### The bytes reached -/

/-- A byte of a range is reached when no slot up to its own is refused. -/
def Reached (img : Image) (n o rest i : Nat) : Prop :=
  o ≤ i ∧ i < o + rest ∧ ∀ i', o ≤ i' → i' ≤ i → img.val n (slotOf i') ≤ img.fsStats 2

/-- The address of a byte of a file. -/
def addrOf (img : Image) (n i : Nat) : Nat := img.dataStart + img.val n (slotOf i) * bytesPerBlock + i % bytesPerBlock

/-- The number of bytes of a range up to the end of the block it begins in. -/
def piece (o rest : Nat) : Nat := min rest (bytesPerBlock - o % bytesPerBlock)

theorem piece_pos (hr : 0 < rest) : 0 < piece o rest := by
  unfold piece bytesPerBlock
  omega

theorem piece_le (o rest : Nat) : piece o rest ≤ rest := Nat.min_le_left _ _

/-- The bytes of a piece are in one block. -/
theorem slotOf_piece {i : Nat} (h1 : o ≤ i) (h2 : i < o + piece o rest) : slotOf i = slotOf o := by
  unfold piece bytesPerBlock at h2
  unfold slotOf bytesPerBlock
  omega

theorem mod_piece {i : Nat} (h1 : o ≤ i) (h2 : i < o + piece o rest) : i % bytesPerBlock = o % bytesPerBlock + (i - o) := by
  unfold piece bytesPerBlock at h2
  unfold bytesPerBlock
  omega

/-- What follows a piece that does not end the range begins the next block. -/
theorem after_piece (hlt : piece o rest < rest) :
    slotOf (o + piece o rest) = slotOf o + 1 ∧ (o + piece o rest) % bytesPerBlock = 0 := by
  unfold piece bytesPerBlock at *
  unfold slotOf bytesPerBlock
  omega

theorem reached_split (h : img.val n (slotOf o) ≤ img.fsStats 2) (i : Nat) :
    Reached img n o rest i ↔ (o ≤ i ∧ i < o + piece o rest) ∨
      (img.val n (slotOf o + 1) ≤ img.fsStats 2 ∧ Reached img n (o + piece o rest) (rest - piece o rest) i) := by
  have hle := piece_le o rest
  constructor
  · rintro ⟨h1, h2, h3⟩
    by_cases hi : i < o + piece o rest
    · exact Or.inl ⟨h1, hi⟩
    · have hnext := after_piece (show piece o rest < rest by omega)
      refine Or.inr ⟨?_, by omega, by omega, fun i' h4 h5 => h3 i' (by omega) h5⟩
      rw [← hnext.1]
      exact h3 _ (Nat.le_add_right _ _) (by omega)
  · rintro (⟨h1, h2⟩ | ⟨-, h1, h2, h3⟩)
    · refine ⟨h1, by omega, fun i' h3 h4 => ?_⟩
      rw [slotOf_piece h3 (Nat.lt_of_le_of_lt h4 h2)]
      exact h
    · refine ⟨by omega, by omega, fun i' h4 h5 => ?_⟩
      by_cases hi : i' < o + piece o rest
      · rw [slotOf_piece h4 hi]
        exact h
      · exact h3 i' (by omega) h5

/-- What a list of accesses touches is what is reached of a range. -/
structure Touches (img : Image) (n o rest : Nat) (trace : List Access) : Prop where
  copied : ∀ x, (∃ p len, .copy p len ∈ trace ∧ p ≤ x ∧ x < p + len) ↔ ∃ i, Reached img n o rest i ∧ x = addrOf img n i
  looked : ∀ j, .slot j ∈ trace ↔ ∃ i, Reached img n o rest i ∧ j = slotOf i + 1

theorem touches_nil (h : ∀ i, ¬Reached img n o rest i) : Touches img n o rest [] := by
  refine ⟨fun x => ⟨?_, ?_⟩, fun j => ⟨?_, ?_⟩⟩
  · rintro ⟨p, len, hmem, -⟩
    cases hmem
  · rintro ⟨i, hi, -⟩
    exact absurd hi (h i)
  · intro hmem
    cases hmem
  · rintro ⟨i, hi, -⟩
    exact absurd hi (h i)

/-- The bytes of a piece are the bytes at an address and after it. -/
theorem mem_piece (x : Nat) :
    (addrOf img n o ≤ x ∧ x < addrOf img n o + piece o rest) ↔ ∃ i, (o ≤ i ∧ i < o + piece o rest) ∧ x = addrOf img n i := by
  have haddr : ∀ i, o ≤ i → i < o + piece o rest → addrOf img n i = addrOf img n o + (i - o) := by
    intro i h1 h2
    unfold addrOf
    rw [slotOf_piece h1 h2, mod_piece h1 h2, ← Nat.add_assoc]
  constructor
  · rintro ⟨h1, h2⟩
    refine ⟨o + (x - addrOf img n o), ⟨by omega, by omega⟩, ?_⟩
    rw [haddr _ (by omega) (by omega)]
    omega
  · rintro ⟨i, ⟨h1, h2⟩, rfl⟩
    rw [haddr i h1 h2]
    omega

/-- One turn of the loop touches a piece, and what the rest of the loop touches. -/
theorem touches_cons (h : img.val n (slotOf o) ≤ img.fsStats 2) (hr : 0 < rest) {trace : List Access}
    (hstop : ¬img.val n (slotOf o + 1) ≤ img.fsStats 2 → trace = [])
    (hgoes : img.val n (slotOf o + 1) ≤ img.fsStats 2 → Touches img n (o + piece o rest) (rest - piece o rest) trace) :
    Touches img n o rest (.copy (addrOf img n o) (piece o rest) :: .slot (slotOf o + 1) :: trace) := by
  have hpos := piece_pos (o := o) hr
  refine ⟨fun x => ?_, fun j => ?_⟩
  · constructor
    · rintro ⟨p, len, hmem, hx⟩
      rw [List.mem_cons, List.mem_cons, Access.copy.injEq] at hmem
      rcases hmem with ⟨rfl, rfl⟩ | hmem | hmem
      · obtain ⟨i, hi, he⟩ := (mem_piece x).mp hx
        exact ⟨i, (reached_split h i).mpr (Or.inl hi), he⟩
      · cases hmem
      · by_cases hnext : img.val n (slotOf o + 1) ≤ img.fsStats 2
        · obtain ⟨i, hi, he⟩ := ((hgoes hnext).copied x).mp ⟨p, len, hmem, hx⟩
          exact ⟨i, (reached_split h i).mpr (Or.inr ⟨hnext, hi⟩), he⟩
        · rw [hstop hnext] at hmem
          cases hmem
    · rintro ⟨i, hi, he⟩
      rcases (reached_split h i).mp hi with hi | ⟨hnext, hi⟩
      · exact ⟨_, _, List.mem_cons_self, (mem_piece x).mpr ⟨i, hi, he⟩⟩
      · obtain ⟨p, len, hmem, hx⟩ := ((hgoes hnext).copied x).mpr ⟨i, hi, he⟩
        exact ⟨p, len, List.mem_cons_of_mem _ (List.mem_cons_of_mem _ hmem), hx⟩
  · rw [List.mem_cons, List.mem_cons, Access.slot.injEq]
    constructor
    · rintro (hmem | rfl | hmem)
      · cases hmem
      · exact ⟨o, (reached_split h o).mpr (Or.inl ⟨Nat.le_refl o, by omega⟩), rfl⟩
      · by_cases hnext : img.val n (slotOf o + 1) ≤ img.fsStats 2
        · obtain ⟨i, hi, he⟩ := ((hgoes hnext).looked j).mp hmem
          exact ⟨i, (reached_split h i).mpr (Or.inr ⟨hnext, hi⟩), he⟩
        · rw [hstop hnext] at hmem
          cases hmem
    · rintro ⟨i, hi, rfl⟩
      rcases (reached_split h i).mp hi with ⟨h1, h2⟩ | ⟨hnext, hi⟩
      · exact Or.inr (Or.inl (by rw [slotOf_piece h1 h2]))
      · exact Or.inr (Or.inr (((hgoes hnext).looked _).mpr ⟨i, hi, rfl⟩))

/-- From any point of a range the loop touches what is reached of the rest of it, and it fails when a slot of the rest is refused. -/
theorem loop_touches (img : Image) (n length : Nat) : ∀ fuel count o, length - count ≤ fuel → count < length →
    img.val n (slotOf o) ≤ img.fsStats 2 →
    Touches img n o (length - count) (img.readDataLoopTrace n length fuel count (slotOf o + 1) (addrOf img n o)
      (piece o (length - count))) ∧
    ∀ i, o ≤ i → i < o + (length - count) → img.fsStats 2 < img.val n (slotOf i) →
      (img.readDataLoop n length fuel count (slotOf o + 1) (addrOf img n o) (piece o (length - count))).ret = -1 := by
  intro fuel
  induction fuel with
  | zero =>
    intro count o hf hlt
    omega
  | succ fuel ih =>
    intro count o hf hlt h
    have hpos := piece_pos (o := o) (show 0 < length - count by omega)
    have hle := piece_le o (length - count)
    have hrest : length - (count + piece o (length - count)) = length - count - piece o (length - count) := by omega
    rw [Image.readDataLoopTrace, Image.readDataLoop, if_pos hlt, if_pos hlt]
    dsimp only
    rw [ite_gt_eq_min, hrest]
    -- the next turn begins where the next block does
    have hnext : piece o (length - count) < length - count →
        slotOf (o + piece o (length - count)) = slotOf o + 1 ∧
        addrOf img n (o + piece o (length - count)) = img.dataStart + img.val n (slotOf o + 1) * bytesPerBlock ∧
        piece (o + piece o (length - count)) (length - count - piece o (length - count)) =
          min (length - count - piece o (length - count)) bytesPerBlock := by
      intro hmore
      obtain ⟨h1, h2⟩ := after_piece hmore
      refine ⟨h1, ?_, ?_⟩
      · unfold addrOf
        rw [h1, h2, Nat.add_zero]
      · rw [piece, h2, Nat.sub_zero]
    have hdone : ¬piece o (length - count) < length - count → ∀ di dp dc,
        img.readDataLoopTrace n length fuel (count + piece o (length - count)) di dp dc = [] := by
      intro hall di dp dc
      cases fuel with
      | zero => rfl
      | succ fuel => rw [Image.readDataLoopTrace, if_neg (by omega)]
    have hih := ih (count + piece o (length - count)) (o + piece o (length - count)) (by omega)
    rw [hrest] at hih
    refine ⟨touches_cons h (by omega) (fun hbad => if_pos (Nat.lt_of_not_le hbad)) (fun hgood => ?_), ?_⟩
    · rw [if_neg (by omega)]
      by_cases hmore : piece o (length - count) < length - count
      · obtain ⟨h1, h2, h3⟩ := hnext hmore
        rw [h1, h2, h3] at hih
        exact (hih (by omega) hgood).1
      · rw [hdone hmore]
        exact touches_nil (fun i hi => by
          obtain ⟨h1, h2, -⟩ := hi
          omega)
    · intro i h1 h2 hbad
      by_cases hslot : img.val n (slotOf o + 1) > img.fsStats 2
      · rw [if_pos hslot]
      · rw [if_neg hslot]
        have hi : o + piece o (length - count) ≤ i := by
          by_contra hlo
          rw [slotOf_piece h1 (show i < o + piece o (length - count) by omega)] at hbad
          omega
        obtain ⟨h3, h4, h5⟩ := hnext (by omega)
        rw [h3, h4, h5] at hih
        exact (hih (by omega) (by omega)).2 i hi (by omega) hbad

/-- A read of a valid inode, from an offset in the file on: the check of the first slot, and the loop. -/
theorem readData_start (hn : n < img.fsStats 1) (ho : offset < 2 ^ 31) (hl : length < 2 ^ 31) (hoff : offset < img.val n 0) {r : Nat}
    (hr : r = min length (img.val n 0 - offset)) :
    (readDataTrace img n offset length = .slot 0 :: .slot (slotOf offset) ::
      if img.val n (slotOf offset) > img.fsStats 2 then []
      else img.readDataLoopTrace n r r 0 (slotOf offset + 1) (addrOf img n offset) (piece offset r)) ∧
    readData img n offset length =
      if img.val n (slotOf offset) > img.fsStats 2 then { ret := -1, bytes := [] }
      else img.readDataLoop n r r 0 (slotOf offset + 1) (addrOf img n offset) (piece offset r) := by
  have hlen : (if (length + offset) % 2 ^ 32 > img.val n 0 then img.val n 0 - offset else length) = r := by
    rw [hr]
    split <;> omega
  have hdc : (if r + offset % bytesPerBlock > bytesPerBlock then bytesPerBlock - offset % bytesPerBlock else r) = piece offset r := by
    unfold piece bytesPerBlock
    split <;> omega
  rw [readDataTrace, readData, if_neg (Nat.not_le.mpr hn), if_neg (Nat.not_le.mpr hn)]
  dsimp only
  rw [if_neg (Nat.not_le.mpr hoff), if_neg (Nat.not_le.mpr hoff), hlen, hdc]
  exact ⟨rfl, rfl⟩

/-- What a read of a valid inode touches, and when it fails. -/
theorem readData_touches (hn : n < img.fsStats 1) (ho : offset < 2 ^ 31) (hl : length < 2 ^ 31) (hoff : offset < img.val n 0) {r : Nat}
    (hr : r = min length (img.val n 0 - offset)) :
    (∃ trace, readDataTrace img n offset length = .slot 0 :: .slot (slotOf offset) :: trace ∧ Touches img n offset r trace) ∧
      ∀ i, offset ≤ i → i < offset + r → img.fsStats 2 < img.val n (slotOf i) → (readData img n offset length).ret = -1 := by
  obtain ⟨htrace, hread⟩ := readData_start hn ho hl hoff hr
  rw [htrace, hread]
  by_cases hfirst : img.val n (slotOf offset) > img.fsStats 2
  · rw [if_pos hfirst, if_pos hfirst]
    refine ⟨⟨[], rfl, touches_nil (fun i hi => ?_)⟩, fun _ _ _ _ => rfl⟩
    have hle := hi.2.2 offset (Nat.le_refl _) hi.1
    omega
  · rw [if_neg hfirst, if_neg hfirst]
    cases r with
    | zero =>
      refine ⟨⟨[], rfl, touches_nil (fun i hi => ?_)⟩, fun i h1 h2 => absurd h2 (by omega)⟩
      have hlt := hi.2.1
      have hge := hi.1
      omega
    | succ r =>
      have hloop := loop_touches img n (r + 1) (r + 1) 0 offset (Nat.le_refl _) (Nat.succ_pos r) (Nat.le_of_not_lt hfirst)
      rw [Nat.sub_zero] at hloop
      exact ⟨⟨_, rfl, hloop.1⟩, hloop.2⟩

theorem copies_iff {trace : List Access} {r x : Nat}
    (htrace : readDataTrace img n offset length = .slot 0 :: .slot (slotOf offset) :: trace) (ht : Touches img n offset r trace) :
    Copies img n offset length x ↔ ∃ i, Reached img n offset r i ∧ x = addrOf img n i := by
  rw [← ht.copied x]
  unfold Copies
  rw [htrace]
  constructor
  · rintro ⟨p, len, hmem, hx⟩
    rw [List.mem_cons, List.mem_cons] at hmem
    rcases hmem with hmem | hmem | hmem
    · cases hmem
    · cases hmem
    · exact ⟨p, len, hmem, hx⟩
  · rintro ⟨p, len, hmem, hx⟩
    exact ⟨p, len, List.mem_cons_of_mem _ (List.mem_cons_of_mem _ hmem), hx⟩

/-- A byte of a file lies in the block its slot names, and in no other. -/
theorem inBlock_addrOf_iff {b i : Nat} : img.InBlock b (addrOf img n i) ↔ b = img.val n (slotOf i) := by
  have hmod := Nat.mod_lt i (show 0 < bytesPerBlock by decide)
  unfold Image.InBlock addrOf
  unfold bytesPerBlock at *
  omega

/-- Refused inode numbers and offsets past the end touch nothing but the size. -/
theorem readsInside_of_le (h : img.fsStats 1 ≤ n ∨ img.val n 0 ≤ offset) : ReadsInside img n offset length := by
  have hmem : ∀ a ∈ readDataTrace img n offset length, a = .slot 0 := by
    intro a ha
    rw [readDataTrace] at ha
    split at ha
    · cases ha
    · rename_i hn
      dsimp only at ha
      rw [if_pos (h.resolve_left hn)] at ha
      exact List.mem_singleton.mp ha
  have hcopies : ∀ x, ¬Copies img n offset length x := by
    rintro x ⟨p, len, hp, -⟩
    cases hmem _ hp
  refine ⟨fun j hj => ?_, fun x hx => absurd hx (hcopies x), fun i hn h1 h2 => ?_⟩
  · have he := hmem _ hj
    rw [Access.slot.injEq] at he
    omega
  · omega

end ImageBoundsAux

open ImageBoundsAux

/-- `read_data` stays inside the image, whatever the slots of the inode hold, exactly when it comes to a slot with too large a number
before it needs one that holds the number of data blocks itself, and before it has needed the last slot of the inode. -/
theorem readsInside_iff {img : Image} {n offset length : Nat} (hsize : ∀ m < img.fsStats 1, img.val m 0 ≤ 1023 * bytesPerBlock)
    (ho : offset < 2 ^ 31) (hl : length < 2 ^ 31) :
    ReadsInside img n offset length ↔ img.fsStats 1 ≤ n ∨ img.StopsInTime n offset length := by
  by_cases hn : img.fsStats 1 ≤ n
  · exact iff_of_true (readsInside_of_le (Or.inl hn)) (Or.inl hn)
  have hn' : n < img.fsStats 1 := Nat.lt_of_not_le hn
  by_cases hoff : img.val n 0 ≤ offset
  · refine iff_of_true (readsInside_of_le (Or.inr hoff)) (Or.inr (fun i h1 h2 => ?_))
    omega
  have hoff' : offset < img.val n 0 := Nat.lt_of_not_le hoff
  obtain ⟨⟨trace, htrace, ht⟩, hfail⟩ := readData_touches hn' ho hl hoff' rfl
  have hrange : ∀ i, i < min (offset + length) (img.val n 0) ↔ i < offset + min length (img.val n 0 - offset) := by
    intro i
    omega
  have hslot : ∀ i < img.val n 0, slotOf i ≤ 1023 := by
    intro i hi
    have hle := hsize n hn'
    unfold slotOf
    unfold bytesPerBlock at *
    omega
  constructor
  · intro h
    refine Or.inr (fun i h1 h2 hlimit => ?_)
    by_contra hnone
    push Not at hnone
    have hreached : Reached img n offset (min length (img.val n 0 - offset)) i := by
      refine ⟨h1, (hrange i).mp h2, fun i' h3 h4 => ?_⟩
      have hle := hnone i' h3 h4
      omega
    rcases hlimit with hlast | hlast
    · obtain ⟨b, hb, hin⟩ := h.blocks _ ((copies_iff htrace ht).mpr ⟨i, hreached, rfl⟩)
      rw [inBlock_addrOf_iff] at hin
      omega
    · have hlooked := h.slots (slotOf i + 1) (by
        rw [htrace]
        exact List.mem_cons_of_mem _ (List.mem_cons_of_mem _ ((ht.looked _).mpr ⟨i, hreached, rfl⟩)))
      omega
  · intro hor
    have hstops := hor.resolve_left hn
    -- a byte reached is in a data block, and in no block after the last slot but one
    have hreached : ∀ i, Reached img n offset (min length (img.val n 0 - offset)) i →
        img.val n (slotOf i) < img.fsStats 2 ∧ slotOf i < 1023 := by
      intro i hi
      have hle := hi.2.2 i hi.1 (Nat.le_refl i)
      have h2 := (hrange i).mpr hi.2.1
      have hnot : ¬(img.val n (slotOf i) = img.fsStats 2 ∨ slotOf i = 1023) := by
        intro hlimit
        obtain ⟨i', h3, h4, hbad⟩ := hstops i hi.1 h2 hlimit
        have hgood := hi.2.2 i' h3 h4
        omega
      have hlt := hslot i (by omega)
      omega
    have hcopied : ∀ x, Copies img n offset length x → ∃ b < img.fsStats 2, img.InBlock b x := by
      intro x hx
      obtain ⟨i, hi, rfl⟩ := (copies_iff htrace ht).mp hx
      exact ⟨_, (hreached i hi).1, inBlock_addrOf_iff.mpr rfl⟩
    refine ⟨fun j hj => ?_, hcopied, fun i _ h1 h2 hbad => ⟨?_, fun x hx hin => ?_⟩⟩
    · rw [htrace, List.mem_cons, List.mem_cons, Access.slot.injEq, Access.slot.injEq] at hj
      rcases hj with rfl | rfl | hj
      · exact Nat.zero_le _
      · exact hslot offset hoff'
      · obtain ⟨i, hi, rfl⟩ := (ht.looked j).mp hj
        exact (hreached i hi).2
    · by_cases hlimit : img.val n (slotOf i) = img.fsStats 2
      · obtain ⟨i', h3, h4, hlarge⟩ := hstops i h1 h2 (Or.inl hlimit)
        exact hfail i' h3 (Nat.lt_of_le_of_lt h4 ((hrange i).mp h2)) hlarge
      · exact hfail i h1 ((hrange i).mp h2) (by omega)
    · obtain ⟨i', hi', rfl⟩ := (copies_iff htrace ht).mp hx
      have hgood := (hreached i' hi').1
      rw [inBlock_addrOf_iff] at hin
      omega

/-- The small image with the number of its data blocks, which no block has, in the first slot of its inode. -/
def limitSlotImage : Image := Image.ofParts (shellImageParts ++ [(4100, [1])])

/-- The first two bytes of the small image's file. -/
theorem readsInside_iff_shellImage : ReadsInside shellImage 0 0 2 := by
  refine (readsInside_iff (fun m hm => ?_) (by decide) (by decide)).mpr (Or.inr (fun i _ h2 hlimit => ?_))
  · obtain rfl : m = 0 := by
      have hstats : shellImage.fsStats 1 = 1 := by decide
      omega
    decide
  · have hlow : ∀ i < 2, shellImage.val 0 (slotOf i) ≠ shellImage.fsStats 2 ∧ slotOf i ≠ 1023 := by decide
    obtain ⟨h3, h4⟩ := hlow i (by omega)
    rcases hlimit with h | h
    · exact absurd h h3
    · exact absurd h h4

/-- Five bytes are copied from behind the last data block. -/
theorem limitSlotImage_copies_outside :
    limitSlotImage.val 0 0 ≤ 1023 * bytesPerBlock ∧ (readData limitSlotImage 0 0 5).ret = 5 ∧ ¬ReadsInside limitSlotImage 0 0 5 := by
  refine ⟨by decide, by decide, fun h => ?_⟩
  have hcopies : Copies limitSlotImage 0 0 5 12288 := ⟨12288, 5, by decide, by decide, by decide⟩
  obtain ⟨b, hb, h1, h2⟩ := h.blocks _ hcopies
  have hstats : limitSlotImage.fsStats 2 = 1 := by decide
  have hstart : limitSlotImage.dataStart = 8192 := by decide
  rw [hstart] at h1 h2
  unfold bytesPerBlock at h1 h2
  omega

end ThreeTermOS
