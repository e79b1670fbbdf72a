import Mathlib.Data.Finset.Card
import Mathlib.Data.Finset.Max
import Mathlib.Order.Basic

/-!
# Tables of slots

A table gives every index a slot that is free (`none`) or holds a value, and an allocator hands out the lowest free slot of a
finite set of indices. The number of slots in use goes up by one with each allocation and down by one with each release, and a
free slot exists exactly while that number is below the size of the set.
-/

namespace SlotTable

universe u v

variable {ι : Type u} {α : Type v}

/-- The indices of `S` whose slots hold a value. -/
def usedSet (S : Finset ι) (t : ι → Option α) : Finset ι := S.filter (fun i => (t i).isSome)

/-- The number of slots of `S` in use. -/
def used (S : Finset ι) (t : ι → Option α) : Nat := (usedSet S t).card

/-- The slot the allocator hands out: the lowest free one of `S`. -/
def IsLowestFree [LE ι] (S : Finset ι) (t : ι → Option α) (i : ι) : Prop :=
  i ∈ S ∧ t i = none ∧ ∀ j ∈ S, t j = none → i ≤ j

/-- The lowest free slot is unique. -/
theorem IsLowestFree.unique [PartialOrder ι] {S : Finset ι} {t : ι → Option α} {i j : ι} (hi : IsLowestFree S t i)
    (hj : IsLowestFree S t j) : i = j :=
  le_antisymm (hi.2.2 j hj.1 hj.2.1) (hj.2.2 i hi.1 hi.2.1)

/-- A table with nothing in use. -/
theorem used_eq_zero {S : Finset ι} {t : ι → Option α} (h : ∀ i ∈ S, t i = none) : used S t = 0 := by
  rw [used, usedSet, Finset.card_eq_zero, Finset.filter_eq_empty_iff]
  intro i hi
  simp [h i hi]

/-- Two tables with the same slots in use have as many in use. -/
theorem used_congr {S : Finset ι} {t t' : ι → Option α} (h : ∀ i ∈ S, (t i).isSome = (t' i).isSome) :
    used S t = used S t' := by
  rw [used, used, usedSet, usedSet]
  congr 1
  apply Finset.filter_congr
  intro i hi
  rw [h i hi]

section Update

variable [DecidableEq ι]

/-- Allocating a free slot adds one to the number in use. -/
theorem used_alloc {S : Finset ι} {t : ι → Option α} {i : ι} (hi : i ∈ S) (hf : t i = none) (v : α) :
    used S (Function.update t i (some v)) = used S t + 1 := by
  have hset : usedSet S (Function.update t i (some v)) = insert i (usedSet S t) := by
    ext j
    simp only [usedSet, Finset.mem_filter, Finset.mem_insert]
    by_cases hj : j = i
    · subst hj
      simp [hi]
    · simp [hj]
  have hnot : i ∉ usedSet S t := by simp [usedSet, hf]
  rw [used, used, hset, Finset.card_insert_of_notMem hnot]

/-- Releasing a slot in use takes one from the number in use. -/
theorem used_free {S : Finset ι} {t : ι → Option α} {i : ι} (hi : i ∈ S) (hu : (t i).isSome) :
    used S (Function.update t i none) + 1 = used S t := by
  have hset : usedSet S t = insert i (usedSet S (Function.update t i none)) := by
    ext j
    simp only [usedSet, Finset.mem_filter, Finset.mem_insert]
    by_cases hj : j = i
    · subst hj
      simp [hi, hu]
    · simp [hj]
  have hnot : i ∉ usedSet S (Function.update t i none) := by simp [usedSet]
  rw [used, used, hset, Finset.card_insert_of_notMem hnot]

end Update

/-- Some slot is free exactly while fewer are in use than there are. -/
theorem exists_free_iff {S : Finset ι} {t : ι → Option α} : (∃ i ∈ S, t i = none) ↔ used S t < S.card := by
  constructor
  · rintro ⟨i, hi, hf⟩
    apply Finset.card_lt_card
    refine ⟨Finset.filter_subset _ _, ?_⟩
    intro hsub
    have hmem := hsub hi
    simp [usedSet, hf] at hmem
  · intro h
    by_contra hno
    push Not at hno
    have hall : usedSet S t = S := by
      apply Finset.filter_true_of_mem
      intro i hi
      exact Option.isSome_iff_ne_none.mpr (hno i hi)
    rw [used, hall] at h
    exact Nat.lt_irrefl _ h

/-- A linearly ordered table with a free slot has a lowest one. -/
theorem exists_isLowestFree [LinearOrder ι] {S : Finset ι} {t : ι → Option α} (h : used S t < S.card) :
    ∃ i, IsLowestFree S t i := by
  obtain ⟨i, hi, hf⟩ := exists_free_iff.mpr h
  have hne : (S.filter (fun j => t j = none)).Nonempty := ⟨i, by simp [hi, hf]⟩
  obtain ⟨hm1, hm2⟩ := Finset.mem_filter.mp ((S.filter (fun j => t j = none)).min'_mem hne)
  refine ⟨_, hm1, hm2, ?_⟩
  intro j hj hjf
  exact Finset.min'_le _ _ (by simp [hj, hjf])

/-- A search of a sorted list of the indices for a free slot finds the lowest one. -/
theorem isLowestFree_of_find? [LinearOrder ι] {S : Finset ι} {t : ι → Option α} {l : List ι} {i : ι}
    (hs : l.Pairwise (· < ·)) (hm : ∀ j, j ∈ l ↔ j ∈ S) (h : l.find? (fun j => (t j).isNone) = some i) :
    IsLowestFree S t i := by
  rw [List.find?_eq_some_iff_append] at h
  obtain ⟨hi, as, bs, rfl, has⟩ := h
  refine ⟨(hm i).mp (by simp), Option.isNone_iff_eq_none.mp hi, ?_⟩
  intro j hj hjf
  rcases List.mem_append.mp ((hm j).mpr hj) with hja | hjb
  · have := has j hja
    simp [hjf] at this
  · rcases List.mem_cons.mp hjb with rfl | hjb
    · exact le_refl _
    · exact le_of_lt ((List.pairwise_cons.mp (List.pairwise_append.mp hs).2.1).1 j hjb)

/-- The search finds a slot exactly when it is the lowest free one. -/
theorem find?_eq_some_iff [LinearOrder ι] {S : Finset ι} {t : ι → Option α} {l : List ι} {i : ι}
    (hs : l.Pairwise (· < ·)) (hm : ∀ j, j ∈ l ↔ j ∈ S) :
    l.find? (fun j => (t j).isNone) = some i ↔ IsLowestFree S t i := by
  refine ⟨isLowestFree_of_find? hs hm, ?_⟩
  intro h
  cases hc : l.find? (fun j => (t j).isNone) with
  | none =>
    have := List.find?_eq_none.mp hc i ((hm i).mpr h.1)
    simp [h.2.1] at this
  | some j => rw [(isLowestFree_of_find? hs hm hc).unique h]

end SlotTable
