import Mathlib.Data.List.GetD
import ThreeTermOS.Lemmas.Directory
import ThreeTermOS.Lemmas.FileDesc
import ThreeTermOS.Lemmas.FileSys

/-!
# Listing a directory and opening what it lists

`read_dir` copies a name up to its terminator, which for a name that fills its field lies in the word after it.
`read_dentry_by_name` reads the names of the table in the same way, so that the string listed finds its own entry and no other.
-/

namespace ThreeTermOS

open Bytes

/-- A directory table: names that differ from one another, entries of the three known types. -/
structure Image.SoundTable (img : Image) : Prop where
  types : ∀ i < img.fsStats 0, (img.dentry i).fileType ≤ 2
  distinct : ∀ i < img.fsStats 0, ∀ j < img.fsStats 0, (img.dentry i).name = (img.dentry j).name → i = j

namespace DirectoryListingAux

open DirectoryAux LibAux

variable {img : Image} {i : Nat}

/-- A buffer that `read_dir` has filled holds the string of the entry. -/
theorem string_of_buffer (hi : (img.dentry i).fileType ≤ 2) {fname : CPtr}
    (hbuf : ∀ j, j < (strcpyBytes (img.dentry i).copy.filename ++ [0]).length →
      fname j = (strcpyBytes (img.dentry i).copy.filename ++ [0]).getD j 0) : SameString (img.dentry i).filename fname := by
  obtain ⟨hend, -, -⟩ := strlen_spec (ends_in_type hi) (by decide)
  have hcopy := strcpyBytes_congr (sameString_copy hi)
  rw [hcopy] at hbuf
  refine ⟨strlen (img.dentry i).filename, hend, fun j hj => ?_⟩
  rw [strcpyBytes, List.length_append, slice_length] at hbuf
  rw [hbuf j (Nat.lt_succ_of_le hj)]
  rcases Nat.lt_or_eq_of_le hj with hlt | rfl
  · rw [List.getD_append _ _ _ _ (by rw [slice_length]; exact hlt), List.getD_eq_getElem?_getD, slice_getElem?, if_pos hlt,
      Nat.zero_add]
    rfl
  · rw [List.getD_append_right _ _ _ _ (by rw [slice_length]), slice_length, Nat.sub_self, hend]
    rfl

end DirectoryListingAux

open DirectoryAux DirectoryListingAux LibAux

/-- Every listed name can be opened: what `read_dir` leaves in the buffer for an entry of the table, passed to
`read_dentry_by_name`, finds that entry. -/
theorem listed_name_opens {img : Image} (h : img.SoundTable) {σ : Type} (p : PCB) (s : σ) (fd : Fin 8)
    (hi : (p.fdA fd).pos < img.fsStats 0) {fname : CPtr}
    (hbuf : ∀ j, j < (readDir img p s fd).bytes.length → fname j = (readDir img p s fd).bytes.getD j 0) :
    img.findDentry fname (img.fsStats 0) 0 = some (p.fdA fd).pos ∧
      readDentryByName img fname = some (img.dentry (p.fdA fd).pos).copy := by
  generalize hpos : (p.fdA fd).pos = i at *
  have hread : (readDir img p s fd).bytes = strcpyBytes (img.dentry i).copy.filename ++ [0] := by
    rw [readDir, hpos, readDentryByIndex, if_neg (by omega)]
  rw [hread] at hbuf
  have hsame := string_of_buffer (h.types i hi) hbuf
  have hstring := strcpyBytes_congr hsame
  have hmatch : img.nameMatches fname i = true := nameMatches_iff.mpr hstring.symm
  have hfirst : ∀ j < i, img.nameMatches fname j = false := by
    intro j hj
    rw [Bool.eq_false_iff]
    intro hm
    have heq := nameMatches_iff.mp hm
    rw [hstring] at heq
    have hname : (img.dentry j).name = (img.dentry i).name := congrArg (List.take fileNameCharmax) heq
    have := h.distinct j (by omega) i hi hname
    omega
  have hfind : img.findDentry fname (img.fsStats 0) 0 = some i :=
    findDentry_eq_some_iff.mpr ⟨Nat.zero_le i, by omega, hmatch, fun j _ hj => hfirst j hj⟩
  exact ⟨hfind, by rw [readDentryByName, hfind]; rfl⟩

/-- A table of three entries: a name, a longer one that starts with it, and one that fills its field and runs on into the type. -/
def longNameImage : Image :=
  Image.ofParts [(0, [3]), (64, ascii "cat"), (96, [2]), (128, ascii "catalogue"), (160, [2]),
    (192, ascii "directorywithaverylongnameindeed"), (224, [1])]

theorem longNameImage_sound : longNameImage.SoundTable :=
  ⟨by decide, by decide⟩

/-- The third entry is listed with its type as a last character, and found by that. -/
theorem listed_name_opens_longName :
    (readDir longNameImage { rootShellPCB with fdA := fun _ => { fopsPtr := none, inodeNum := 0, pos := 2, flags := 0 } } () 3).ret = 33 ∧
      readDentryByName longNameImage (cstr (ascii "directorywithaverylongnameindeed" ++ [1])) = some (longNameImage.dentry 2).copy := by
  refine ⟨by decide, ?_⟩
  have hbytes : (readDir longNameImage
      { rootShellPCB with fdA := fun _ => { fopsPtr := none, inodeNum := 0, pos := 2, flags := 0 } } () 3).bytes =
      ascii "directorywithaverylongnameindeed" ++ [1] ++ [0] := by decide
  refine (listed_name_opens longNameImage_sound
    { rootShellPCB with fdA := fun _ => { fopsPtr := none, inodeNum := 0, pos := 2, flags := 0 } } () 3 (by decide) ?_).2
  rw [hbytes]
  decide

end ThreeTermOS
