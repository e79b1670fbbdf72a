import ThreeTermOS.Lemmas.Directory
import ThreeTermOS.Lemmas.FileDesc
import ThreeTermOS.Lemmas.FileSys

/-!
# Looking up a name

`read_dentry_by_name` compares the string it is given with the strings at the start of the entries, which are their names unless a
name fills its field and the type after it is not 0.
-/

namespace ThreeTermOS

open Bytes

/-- The lookup is exact: it finds the first entry with the name given, and none when no entry has that name. -/
structure Image.LooksUpExactly (img : Image) (fname : CPtr) : Prop where
  found : ∀ i, img.FirstNamed (strcpyBytes fname) i → readDentryByName img fname = some (img.dentry i).copy
  missing : (∀ i < img.fsStats 0, (img.dentry i).name ≠ strcpyBytes fname) → readDentryByName img fname = none

/-- The name asked for does not run into the type of an entry: if it fills the field, the first entry with it has the type 0, and if
it is longer by one character, it is no entry's name followed by the type. -/
structure Image.ClearOfType (img : Image) (name : List UInt8) : Prop where
  full : name.length = fileNameCharmax → ∀ i, img.FirstNamed name i → (img.dentry i).fileType = 0
  longer : name.length = fileNameCharmax + 1 → ∀ i < img.fsStats 0, name ≠ (img.dentry i).name ++ [UInt8.ofNat (img.dentry i).fileType]

namespace NameLookupAux

open DirectoryAux LibAux

variable {img : Image} {fname : CPtr} {i : Nat}

/-- The string of an entry is its name, but where a name that fills its field is followed by a type. -/
theorem string_eq_iff {d : Dentry} (h : d.fileType ≤ 2) (s : List UInt8) :
    strcpyBytes d.filename = s ↔
      (d.name = s ∧ (s.length = fileNameCharmax → d.fileType = 0)) ∨
        (s.length = fileNameCharmax + 1 ∧ s = d.name ++ [UInt8.ofNat d.fileType] ∧ d.fileType ≠ 0) := by
  have hlen := name_length d
  rw [string_eq h]
  split
  · rename_i hfull
    constructor
    · rintro rfl
      exact Or.inr ⟨by rw [List.length_append, hfull.1]; rfl, rfl, hfull.2⟩
    · rintro (⟨rfl, hzero⟩ | ⟨-, rfl, -⟩)
      · exact absurd (hzero hfull.1) hfull.2
      · rfl
  · rename_i hnot
    constructor
    · rintro rfl
      refine Or.inl ⟨rfl, fun hl => ?_⟩
      by_contra hne
      exact hnot ⟨hl, hne⟩
    · rintro (⟨rfl, -⟩ | ⟨hl, rfl, hne⟩)
      · rfl
      · rw [List.length_append, List.length_singleton] at hl
        exact absurd ⟨by omega, hne⟩ hnot

end NameLookupAux

open DirectoryAux FileDescAux LibAux NameLookupAux

/-- On a table of entries of the three known types, `read_dentry_by_name` looks a string up exactly when it does not run into the type
of an entry. -/
theorem name_lookup_exact_iff {img : Image} (htypes : ∀ i < img.fsStats 0, (img.dentry i).fileType ≤ 2) (fname : CPtr) :
    img.LooksUpExactly fname ↔ img.ClearOfType (strcpyBytes fname) := by
  constructor
  · intro h
    refine ⟨fun hlen i hi => ?_, fun hlen i hi he => ?_⟩
    · -- the entry found has the string given, and so the type 0
      obtain ⟨k, ⟨hk, hstring, -⟩, hcopy⟩ := readDentryByName_eq_some.mp (h.found i hi)
      have htype := congrArg Dentry.fileType hcopy
      rw [copy_fileType, copy_fileType] at htype
      rw [htype]
      rcases (string_eq_iff (htypes k hk) _).mp hstring with ⟨-, hzero⟩ | ⟨hlong, -⟩
      · exact hzero hlen
      · omega
    · have hnone : ∀ j < img.fsStats 0, (img.dentry j).name ≠ strcpyBytes fname := by
        intro j _ hj
        have hshort := name_length (img.dentry j)
        rw [hj] at hshort
        omega
      have hne := readDentryByName_eq_none.mp (h.missing hnone) i hi
      refine hne ((string_eq_iff (htypes i hi) _).mpr (Or.inr ⟨hlen, he, fun hzero => ?_⟩))
      refine strcpyBytes_ne_zero fname 0 ?_ rfl
      rw [he, hzero]
      exact List.mem_append_right _ List.mem_cons_self
  · intro h
    refine ⟨fun i hi => ?_, fun hnone => ?_⟩
    · obtain ⟨hlt, hname, hfirst⟩ := id hi
      have hshort := name_length (img.dentry i)
      rw [hname] at hshort
      refine readDentryByName_eq_some.mpr ⟨i, ⟨hlt, ?_, fun j hj he => ?_⟩, rfl⟩
      · exact (string_eq_iff (htypes i hlt) _).mpr (Or.inl ⟨hname, fun hlen => h.full hlen i hi⟩)
      · rcases (string_eq_iff (htypes j (by omega)) _).mp he with ⟨hj', -⟩ | ⟨hlong, -⟩
        · exact hfirst j hj hj'
        · omega
    · refine readDentryByName_eq_none.mpr (fun i hi he => ?_)
      rcases (string_eq_iff (htypes i hi) _).mp he with ⟨hname, -⟩ | ⟨hlong, hlonger, -⟩
      · exact hnone i hi hname
      · exact h.longer hlong i hi hlonger

/-- A table with a name that fills its field, of a regular file. -/
def fullNameImage : Image :=
  Image.ofParts [(0, [2]), (64, ascii "cat"), (96, [2]), (128, ascii "directorywithaverylongnameindeed"), (160, [2])]

/-- A short name. -/
theorem name_lookup_exact_iff_cat : fullNameImage.LooksUpExactly (cstr (ascii "cat")) := by
  have hbytes : strcpyBytes (cstr (ascii "cat")) = ascii "cat" := strcpyBytes_cstr (by decide +kernel) (by decide)
  have hlen : (strcpyBytes (cstr (ascii "cat"))).length = 3 := by
    rw [hbytes]
    rfl
  refine (name_lookup_exact_iff (by decide) _).mpr ⟨fun hfull => ?_, fun hlong => ?_⟩
  · rw [hlen] at hfull
    cases hfull
  · rw [hlen] at hlong
    cases hlong

/-- A file with a name of 32 characters is not found. -/
theorem fullNameImage_not_found :
    (∀ i < fullNameImage.fsStats 0, (fullNameImage.dentry i).fileType ≤ 2) ∧
      ¬fullNameImage.LooksUpExactly (cstr (ascii "directorywithaverylongnameindeed")) := by
  have hbytes : strcpyBytes (cstr (ascii "directorywithaverylongnameindeed")) = ascii "directorywithaverylongnameindeed" :=
    strcpyBytes_cstr (by decide +kernel) (by decide)
  have hfirst : fullNameImage.FirstNamed (strcpyBytes (cstr (ascii "directorywithaverylongnameindeed"))) 1 := by
    rw [hbytes]
    exact ⟨by decide, by decide, by decide⟩
  have hnone : readDentryByName fullNameImage (cstr (ascii "directorywithaverylongnameindeed")) = none := by
    rw [readDentryByName, show fullNameImage.findDentry (cstr (ascii "directorywithaverylongnameindeed")) (fullNameImage.fsStats 0) 0 =
      none by decide]
    rfl
  refine ⟨by decide, fun h => ?_⟩
  have hfound := h.found 1 hfirst
  rw [hnone] at hfound
  cases hfound

end ThreeTermOS
