import Mathlib.Data.List.GetD
import ThreeTermOS.CommandLine
import ThreeTermOS.Lemmas.Lib

/-!
# The words of a command

The stores of `get_args_fname` are those of the characters of the first word and of the text after it, one after the other, cut where
the arrays end.
-/

namespace ThreeTermOS

open Bytes

/-- The first word of a command. -/
def firstWord (command : CPtr) : List UInt8 :=
  ((strcpyBytes command).dropWhile (fun c => c = 0x20)).takeWhile (fun c => !endsWord c)

/-- The text after the first word of a command, up to the end of the line. -/
def argsText (command : CPtr) : List UInt8 :=
  ((((strcpyBytes command).dropWhile (fun c => c = 0x20)).dropWhile (fun c => !endsWord c)).dropWhile (fun c => c = 0x20)).takeWhile
    (fun c => !(c = 0x0A || c = 0x0D))

namespace CommandLineAux

open LibAux

theorem firstWord_ne_zero (command : CPtr) : ∀ c ∈ firstWord command, c ≠ 0 := by
  intro c hc
  exact strcpyBytes_ne_zero command c (List.dropWhile_subset _ (List.takeWhile_subset _ hc))

/-- What a copying loop stores, and what it leaves. -/
theorem storeWhile_eq (goes : UInt8 → Bool) (limit : Nat) (l : List UInt8) : ∀ j,
    storeWhile goes limit l j =
      (((l.takeWhile goes).take (limit - j)).zipIdx j, l.drop ((l.takeWhile goes).take (limit - j)).length) := by
  induction l with
  | nil => exact fun j => by rw [storeWhile, List.takeWhile_nil, List.take_nil]; rfl
  | cons c l ih =>
    intro j
    rw [storeWhile]
    by_cases hgoes : goes c = true
    · rw [List.takeWhile_cons_of_pos hgoes]
      by_cases hlimit : j < limit
      · have hnext : limit - j = limit - (j + 1) + 1 := by omega
        rw [if_pos (by simp [hgoes, hlimit]), ih (j + 1), hnext, List.take_succ_cons]
        rfl
      · rw [if_neg (by simp [hlimit]), Nat.sub_eq_zero_of_le (Nat.le_of_not_lt hlimit), List.take_zero]
        rfl
    · rw [if_neg (by simp [hgoes]), List.takeWhile_cons_of_neg hgoes, List.take_nil]
      rfl

theorem applyStores_append (m : CPtr) (l l' : List (UInt8 × Nat)) : applyStores m (l ++ l') = applyStores (applyStores m l) l' :=
  List.foldl_append

theorem applyStores_nil (m : CPtr) : applyStores m [] = m := rfl

theorem applyStores_singleton (m : CPtr) (c : UInt8) (j : Nat) : applyStores m [(c, j)] = set m j c := rfl

/-- The stores of a list fill its range. -/
theorem applyStores_zipIdx (l : List UInt8) : ∀ (m : CPtr) (j : Nat),
    applyStores m (l.zipIdx j) = fill m j l.length (fun i => l.getD i 0) := by
  induction l with
  | nil =>
    intro m j
    rw [List.length_nil, fill_zero]
    rfl
  | cons c l ih =>
    intro m j
    have hcons : applyStores m ((c :: l).zipIdx j) = applyStores (set m j c) (l.zipIdx (j + 1)) := rfl
    rw [hcons, ih, fill_cons]

/-- The string left by the stores of a list and a terminator. -/
theorem string_applyStores {l : List UInt8} (hl : ∀ c ∈ l, c ≠ 0) (hlen : l.length < addressSpace) (m : CPtr) :
    strcpyBytes (applyStores m (l.zipIdx 0 ++ [(0, l.length)])) = l := by
  refine (strcpyBytes_eq_list_iff hl hlen).mpr ⟨fun j hj => ?_, ?_⟩
  · rw [applyStores_append, applyStores_singleton, set_other _ _ (Nat.ne_of_lt hj), applyStores_zipIdx,
      fill_of_mem _ _ (Nat.zero_le _) (by omega), Nat.sub_zero]
  · rw [applyStores_append, applyStores_singleton, set_self]

/-- The stores of the first word, cut where `file_name` ends. -/
theorem fileName_stores (command : CPtr) : (getArgsFnameStores command).fileName =
    ((firstWord command).take fileNameCharmax).zipIdx 0 ++
      if (firstWord command).length < fileNameCharmax then [(0, (firstWord command).length)] else [] := by
  have hword : ((firstWord command).take fileNameCharmax).length = min fileNameCharmax (firstWord command).length := List.length_take
  unfold getArgsFnameStores
  dsimp only
  rw [storeWhile_eq, Nat.sub_zero, ← firstWord]
  dsimp only
  rw [List.length_zipIdx, hword]
  by_cases hshort : (firstWord command).length < fileNameCharmax
  · rw [if_pos hshort, if_pos (by omega), Nat.min_eq_right (Nat.le_of_lt hshort)]
  · rw [if_neg hshort, if_neg (by omega)]

/-- The text the second loop of `get_args_fname` finds: what is left of the command, not always what comes after its first word. -/
def restText (command : CPtr) : List UInt8 :=
  ((((strcpyBytes command).dropWhile (fun c => c = 0x20)).drop ((firstWord command).take fileNameCharmax).length).dropWhile
    (fun c => c = 0x20)).takeWhile (fun c => !(c = 0x0A || c = 0x0D))

theorem args_stores (command : CPtr) : (getArgsFnameStores command).args =
    ((restText command).take lineBufferSize).zipIdx 0 ++ [(0, ((restText command).take lineBufferSize).length)] := by
  unfold getArgsFnameStores
  dsimp only
  rw [storeWhile_eq, storeWhile_eq, Nat.sub_zero, Nat.sub_zero, ← firstWord]
  dsimp only
  rw [← restText, List.length_zipIdx]

/-- A first word that fits is left behind as a whole. -/
theorem restText_eq (command : CPtr) (hshort : (firstWord command).length ≤ fileNameCharmax) : restText command = argsText command := by
  have hdrop := List.takeWhile_append_dropWhile (p := fun c => !endsWord c) (l := (strcpyBytes command).dropWhile (fun c => c = 0x20))
  rw [← firstWord] at hdrop
  unfold restText argsText
  rw [List.take_of_length_le hshort]
  conv_lhs => rw [← hdrop]
  rw [List.drop_left]

theorem restText_ne_zero (command : CPtr) : ∀ c ∈ restText command, c ≠ 0 := by
  intro c hc
  refine strcpyBytes_ne_zero command c ?_
  exact List.dropWhile_subset _ (List.drop_subset _ _ (List.dropWhile_subset _ (List.takeWhile_subset _ hc)))

theorem take_ne_zero {l : List UInt8} (hl : ∀ c ∈ l, c ≠ 0) (n : Nat) : ∀ c ∈ l.take n, c ≠ 0 :=
  fun c hc => hl c (List.mem_of_mem_take hc)

theorem string_args (command a : CPtr) :
    strcpyBytes (applyStores a (getArgsFnameStores command).args) = (restText command).take lineBufferSize := by
  rw [args_stores]
  refine string_applyStores (take_ne_zero (restText_ne_zero command) _) ?_ a
  rw [List.length_take]
  unfold lineBufferSize addressSpace
  omega

/-- A text that fills `args`, whose terminator is stored in the first byte of `file_name`. -/
def TextOverruns (command : CPtr) : Prop := lineBufferSize ≤ (restText command).length

instance (command : CPtr) : Decidable (TextOverruns command) := inferInstanceAs (Decidable (_ ≤ _))

/-- What `file_name` points at: the first characters of the word and a terminator if there is room for it, over what the stack held,
with the first byte cleared when the text fills `args`. -/
theorem getArgsFname_eq (command : CPtr) (r : Residue) : getArgsFname command r =
    (fun i => if i = 0 ∧ TextOverruns command then 0
      else applyStores r.fileName (getArgsFnameStores command).fileName i, (restText command).take lineBufferSize) := by
  have hword : ((firstWord command).take fileNameCharmax).length = min fileNameCharmax (firstWord command).length := List.length_take
  have htext : ((restText command).take lineBufferSize).length = lineBufferSize ↔ TextOverruns command := by
    rw [List.length_take, TextOverruns]
    omega
  have hname : getArgsFname command r = (fun i =>
      if i = 0 ∧ ((restText command).take lineBufferSize).length = lineBufferSize then 0
      else if i < ((firstWord command).take fileNameCharmax).length then ((firstWord command).take fileNameCharmax).getD i 0
      else if i = ((firstWord command).take fileNameCharmax).length ∧
        ((firstWord command).take fileNameCharmax).length < fileNameCharmax then 0 else r.fileName i,
      (restText command).take lineBufferSize) := rfl
  rw [hname, fileName_stores, applyStores_append, applyStores_zipIdx, hword, Prod.mk.injEq]
  refine ⟨?_, rfl⟩
  funext i
  by_cases hover : i = 0 ∧ TextOverruns command
  · rw [if_pos hover, if_pos ⟨hover.1, htext.mpr hover.2⟩]
  · rw [if_neg hover, if_neg (fun hc => hover ⟨hc.1, htext.mp hc.2⟩)]
    by_cases hlt : (firstWord command).length < fileNameCharmax
    · -- the word is followed by its terminator
      rw [if_pos hlt, applyStores_singleton]
      by_cases hend : i = (firstWord command).length
      · rw [hend, set_self, if_neg (by omega), if_pos (by omega)]
      · rw [set_other _ _ hend]
        by_cases hi : i < min fileNameCharmax (firstWord command).length
        · rw [if_pos hi, fill_of_mem _ _ (Nat.zero_le i) (by omega), Nat.sub_zero]
        · rw [if_neg hi, if_neg (by omega), fill_of_not_mem _ _ (by omega)]
    · rw [if_neg hlt, applyStores_nil]
      by_cases hi : i < min fileNameCharmax (firstWord command).length
      · rw [if_pos hi, fill_of_mem _ _ (Nat.zero_le i) (by omega), Nat.sub_zero]
      · rw [if_neg hi, if_neg (by omega), fill_of_not_mem _ _ (by omega)]

/-- The frame of `execute_func`, with `args` at 0 and `file_name` behind it, after the stores of `get_args_fname`: it holds what
`getArgsFname` says. -/
theorem applyStores_getArgsFname (command : CPtr) (r : Residue) {frame : CPtr} (hframe : ∀ i, frame (lineBufferSize + i) = r.fileName i) :
    let stored := applyStores (applyStores frame
      ((getArgsFnameStores command).fileName.map (fun st => (st.1, lineBufferSize + st.2)))) (getArgsFnameStores command).args
    (∀ i, stored (lineBufferSize + i) = (getArgsFname command r).1 i) ∧
      strcpyBytes stored = (getArgsFname command r).2 := by
  intro stored
  have hlen : ((restText command).take lineBufferSize).length = min lineBufferSize (restText command).length := List.length_take
  rw [getArgsFname_eq]
  refine ⟨fun i => ?_, string_args command _⟩
  -- the stores of the word, moved to their place in the frame
  have hmoved : ∀ (l : List (UInt8 × Nat)) (m m' : CPtr), (∀ i, m (lineBufferSize + i) = m' i) →
      ∀ i, applyStores m (l.map (fun st => (st.1, lineBufferSize + st.2))) (lineBufferSize + i) = applyStores m' l i := by
    intro l
    induction l with
    | nil => exact fun m m' h => h
    | cons st l ih =>
      intro m m' h
      refine ih _ _ (fun i => ?_)
      change set m (lineBufferSize + st.2) st.1 (lineBufferSize + i) = set m' st.2 st.1 i
      by_cases hi : i = st.2
      · rw [hi, set_self, set_self]
      · rw [set_other _ _ (by omega), set_other _ _ hi, h]
  have hname := hmoved (getArgsFnameStores command).fileName frame r.fileName hframe i
  dsimp only [stored]
  rw [args_stores, applyStores_append, applyStores_singleton, applyStores_zipIdx, hlen]
  by_cases hover : i = 0 ∧ TextOverruns command
  · have hfull : min lineBufferSize (restText command).length = lineBufferSize := Nat.min_eq_left hover.2
    rw [if_pos hover, hover.1, hfull, Nat.add_zero, set_self]
  · rw [if_neg hover]
    have hne : lineBufferSize + i ≠ min lineBufferSize (restText command).length := by
      unfold TextOverruns at hover
      omega
    rw [set_other _ _ hne, fill_of_not_mem _ _ (by omega), hname]

end CommandLineAux

end ThreeTermOS
