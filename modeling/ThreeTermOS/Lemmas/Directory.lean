import ThreeTermOS.FileSys
import ThreeTermOS.Lemmas.Lib

/-!
# The entries of a directory

An entry is known to the string functions by the string at its start, which runs on into the type word when the name fills its
field. `read_dentry_by_name` finds the first entry whose string is the one given.
-/

namespace ThreeTermOS

open Bytes

/-- The name of an entry: the string at its start, cut to the field. -/
def Dentry.name (d : Dentry) : List UInt8 := (strcpyBytes d.filename).take fileNameCharmax

/-- The first entry of the table with a name. -/
def Image.FirstNamed (img : Image) (name : List UInt8) (i : Nat) : Prop :=
  i < img.fsStats 0 ∧ (img.dentry i).name = name ∧ ∀ j < i, (img.dentry j).name ≠ name

/-- The first entry of the table with a string at its start. -/
def Image.FirstString (img : Image) (s : List UInt8) (i : Nat) : Prop :=
  i < img.fsStats 0 ∧ strcpyBytes (img.dentry i).filename = s ∧ ∀ j < i, strcpyBytes (img.dentry j).filename ≠ s

namespace DirectoryAux

open LibAux

variable {img : Image} {fname : CPtr} {d : Dentry} {i k n : Nat}

/-! ### The string of an entry -/

theorem name_length (d : Dentry) : d.name.length ≤ fileNameCharmax := by
  rw [Dentry.name, List.length_take]
  exact Nat.min_le_left _ _

/-- A name that does not fill its field is the whole string. -/
theorem string_eq_name (h : d.name.length < fileNameCharmax) : strcpyBytes d.filename = d.name := by
  rw [Dentry.name, List.length_take] at h
  rw [Dentry.name, List.take_of_length_le (by omega)]

/-- The string at the start of an entry of a known type ends in the type word at the latest. -/
theorem ends_in_type (h : d.fileType ≤ 2) : ∃ z ≤ 33, d.filename z = 0 := by
  refine ⟨33, Nat.le_refl _, ?_⟩
  unfold Dentry.fileType le32 at h
  have hz : (d.byte (32 + 1)).toNat = 0 := by omega
  exact UInt8.toNat_inj.mp hz

theorem sameString_copy (h : d.fileType ≤ 2) : SameString d.filename d.copy.filename := by
  obtain ⟨z, hz, hzero⟩ := ends_in_type h
  exact ⟨z, hzero, fun j hj => if_pos (by omega)⟩

/-- The type of an entry of a known type is the byte after the name. -/
theorem fileType_byte (h : d.fileType ≤ 2) : d.filename fileNameCharmax = UInt8.ofNat d.fileType := by
  unfold Dentry.fileType le32 at h ⊢
  rw [show (d.byte 32).toNat + 256 * (d.byte (32 + 1)).toNat + 65536 * (d.byte (32 + 2)).toNat + 16777216 * (d.byte (32 + 3)).toNat =
    (d.byte 32).toNat by omega]
  exact (UInt8.ofNat_toNat).symm

/-- A name that fills its field is followed by the type. Any other is the whole string. -/
theorem string_eq (h : d.fileType ≤ 2) :
    strcpyBytes d.filename =
      if d.name.length = fileNameCharmax ∧ d.fileType ≠ 0 then d.name ++ [UInt8.ofNat d.fileType] else d.name := by
  obtain ⟨hend, hne, hle⟩ := strlen_spec (ends_in_type h) (by decide)
  have htype := fileType_byte h
  have hlen : (strcpyBytes d.filename).length = strlen d.filename := slice_length _ _ _
  have hname : d.name.length = min fileNameCharmax (strlen d.filename) := by
    rw [Dentry.name, List.length_take, hlen]
  by_cases hlong : strlen d.filename = fileNameCharmax + 1
  · -- the type is the last character
    have hnz := hne fileNameCharmax (by omega)
    have htypeNe : d.fileType ≠ 0 := by
      intro hzero
      rw [htype, hzero] at hnz
      exact hnz rfl
    rw [if_pos ⟨by omega, htypeNe⟩, Dentry.name, strcpyBytes, hlong, slice_add, List.take_left' (slice_length _ _ _)]
    rw [← htype]
    rfl
  · have hshort : strlen d.filename ≤ fileNameCharmax := by
      unfold fileNameCharmax at *
      omega
    rw [if_neg, Dentry.name, List.take_of_length_le (by omega)]
    rintro ⟨hfull, htypeNe⟩
    have hat : strlen d.filename = fileNameCharmax := by omega
    rw [hat, htype] at hend
    have hzero := congrArg UInt8.toNat hend
    rw [UInt8.toNat_ofNat_of_lt' (by rw [UInt8.size]; omega)] at hzero
    exact htypeNe hzero

/-! ### The search -/

/-- The test of `read_dentry_by_name`: it asks whether the two strings are the same. -/
theorem nameMatches_iff : img.nameMatches fname i = true ↔ strcpyBytes (img.dentry i).filename = strcpyBytes fname := by
  have hne := strlen_ne_zero (img.dentry i).filename
  have hle := strlen_le_addressSpace (img.dentry i).filename
  rw [strcpyBytes_eq_iff]
  unfold Image.nameMatches
  dsimp only
  by_cases hlong : strlen fname > strlen (img.dentry i).filename
  · -- a longer string is refused by the length
    rw [if_pos hlong, decide_eq_false (by omega), Bool.false_and]
    exact iff_of_false (by decide) (fun h => by omega)
  · rw [if_neg hlong, decide_eq_true_iff, strncmp_strlen_eq_zero_iff hne]
    constructor
    · intro h
      have hlen : strlen (img.dentry i).filename = strlen fname := by
        by_contra hdiff
        have hzero := h (strlen fname) (by omega)
        rw [strlen_end (show strlen fname < addressSpace by omega)] at hzero
        exact hne _ (by omega) hzero
      exact ⟨hlen, hlen ▸ h⟩
    · rintro ⟨hlen, h⟩
      exact hlen ▸ h

/-- The loop finds the first entry that matches. -/
theorem findDentry_eq_some_iff : img.findDentry fname n k = some i ↔
    k ≤ i ∧ i < k + n ∧ img.nameMatches fname i = true ∧ ∀ j, k ≤ j → j < i → img.nameMatches fname j = false := by
  induction n generalizing k with
  | zero =>
    rw [Image.findDentry]
    exact iff_of_false (fun h => by cases h) (fun h => by omega)
  | succ n ih =>
    rw [Image.findDentry]
    by_cases hk : img.nameMatches fname k = true
    · rw [if_pos hk, Option.some.injEq]
      constructor
      · rintro rfl
        exact ⟨Nat.le_refl _, by omega, hk, fun j h1 h2 => by omega⟩
      · rintro ⟨h1, -, -, h4⟩
        by_contra hne
        have hno := h4 k (Nat.le_refl k) (by omega)
        rw [hk] at hno
        cases hno
    · rw [if_neg hk, ih]
      constructor
      · rintro ⟨h1, h2, h3, h4⟩
        refine ⟨by omega, by omega, h3, fun j h5 h6 => ?_⟩
        by_cases hj : j = k
        · rw [hj]
          exact Bool.eq_false_iff.mpr hk
        · exact h4 j (by omega) h6
      · rintro ⟨h1, h2, h3, h4⟩
        have hne : i ≠ k := by
          rintro rfl
          exact hk h3
        exact ⟨by omega, by omega, h3, fun j h5 h6 => h4 j (by omega) h6⟩

theorem findDentry_eq_none_iff : img.findDentry fname n k = none ↔ ∀ j, k ≤ j → j < k + n → img.nameMatches fname j = false := by
  induction n generalizing k with
  | zero => exact iff_of_true rfl (fun j h1 h2 => by omega)
  | succ n ih =>
    rw [Image.findDentry]
    by_cases hk : img.nameMatches fname k = true
    · rw [if_pos hk]
      refine iff_of_false (fun h => by cases h) (fun h => ?_)
      have hno := h k (Nat.le_refl k) (by omega)
      rw [hk] at hno
      cases hno
    · rw [if_neg hk, ih]
      constructor
      · intro h j h1 h2
        by_cases hj : j = k
        · rw [hj]
          exact Bool.eq_false_iff.mpr hk
        · exact h j (by omega) (by omega)
      · exact fun h j h1 h2 => h j (by omega) (by omega)

theorem readDentryByName_eq_none :
    readDentryByName img fname = none ↔ ∀ i < img.fsStats 0, strcpyBytes (img.dentry i).filename ≠ strcpyBytes fname := by
  rw [readDentryByName, Option.map_eq_none_iff, findDentry_eq_none_iff]
  constructor
  · intro h i hi he
    have hno := h i (Nat.zero_le i) (by omega)
    rw [nameMatches_iff.mpr he] at hno
    cases hno
  · intro h i _ hi
    rw [Bool.eq_false_iff]
    exact fun hm => h i (by omega) (nameMatches_iff.mp hm)

/-- The entry found is the first whose string is the one given. -/
theorem readDentryByName_eq_some {d : Dentry} :
    readDentryByName img fname = some d ↔ ∃ i, img.FirstString (strcpyBytes fname) i ∧ d = (img.dentry i).copy := by
  rw [readDentryByName, Option.map_eq_some_iff]
  constructor
  · rintro ⟨i, hi, rfl⟩
    obtain ⟨-, hlt, hm, hfirst⟩ := findDentry_eq_some_iff.mp hi
    refine ⟨i, ⟨by omega, nameMatches_iff.mp hm, fun j hj he => ?_⟩, rfl⟩
    have hno := hfirst j (Nat.zero_le j) hj
    rw [nameMatches_iff.mpr he] at hno
    cases hno
  · rintro ⟨i, ⟨hlt, hm, hfirst⟩, rfl⟩
    refine ⟨i, findDentry_eq_some_iff.mpr ⟨Nat.zero_le i, by omega, nameMatches_iff.mpr hm, fun j _ hj => ?_⟩, rfl⟩
    rw [Bool.eq_false_iff]
    exact fun he => hfirst j hj (nameMatches_iff.mp he)

end DirectoryAux

end ThreeTermOS
