import Mathlib.Logic.Basic

/-!
# Chains of pointers

A node may point at another. The chain from a pointer is the list of nodes met on the way to the null pointer; there is at most
one. A stack of nodes `f 0`, …, `f (n - 1)`, each pointing at the one below it, is a chain from its top.
-/

namespace Chain

universe u v

variable {α : Type u} {β : Type v}

/-- The nodes met from a pointer on, until the null pointer. -/
inductive Links (next : α → Option α) : Option α → List α → Prop
  | nil : Links next none []
  | cons {a : α} {l : List α} : Links next (next a) l → Links next (some a) (a :: l)

/-- The pointer at the top of a stack. -/
def top (f : Nat → α) : Nat → Option α
  | 0 => none
  | n + 1 => some (f n)

/-- The nodes of a stack, from the top down. -/
def stack (f : Nat → α) : Nat → List α
  | 0 => []
  | n + 1 => f n :: stack f n

@[simp] theorem top_zero (f : Nat → α) : top f 0 = none := rfl

@[simp] theorem top_succ (f : Nat → α) (n : Nat) : top f (n + 1) = some (f n) := rfl

@[simp] theorem stack_length (f : Nat → α) (n : Nat) : (stack f n).length = n := by
  induction n with
  | zero => rfl
  | succ n ih => rw [stack, List.length_cons, ih]

theorem mem_stack {f : Nat → α} {n : Nat} {a : α} : a ∈ stack f n ↔ ∃ i < n, a = f i := by
  induction n with
  | zero => simp [stack]
  | succ n ih =>
    rw [stack, List.mem_cons, ih]
    constructor
    · rintro (rfl | ⟨i, hi, rfl⟩)
      · exact ⟨n, Nat.lt_succ_self n, rfl⟩
      · exact ⟨i, Nat.lt_succ_of_lt hi, rfl⟩
    · rintro ⟨i, hi, rfl⟩
      rcases Nat.lt_succ_iff_lt_or_eq.mp hi with hi | rfl
      · exact Or.inr ⟨i, hi, rfl⟩
      · exact Or.inl rfl

/-- A stack seen through a function of its nodes is a stack. -/
theorem map_stack {g : α → β} {f : Nat → α} {f' : Nat → β} {n : Nat} (h : ∀ i < n, g (f i) = f' i) :
    (stack f n).map g = stack f' n := by
  induction n with
  | zero => rfl
  | succ n ih =>
    rw [stack, stack, List.map_cons, h n (Nat.lt_succ_self n), ih (fun i hi => h i (Nat.lt_succ_of_lt hi))]

/-- Nodes that each point at the one below them are the chain from the top. -/
theorem links_stack {next : α → Option α} {f : Nat → α} {n : Nat} (h : ∀ i < n, next (f i) = top f i) :
    Links next (top f n) (stack f n) := by
  induction n with
  | zero => exact Links.nil
  | succ n ih =>
    refine Links.cons ?_
    rw [h n (Nat.lt_succ_self n)]
    exact ih (fun i hi => h i (Nat.lt_succ_of_lt hi))

/-- In a stack of different nodes, where each points at the one below and back at the one above, the two pointers are inverse
to each other. -/
theorem next_eq_some_iff {next prev : α → Option α} {f : Nat → α} {n : Nat} (hinj : ∀ i < n, ∀ j < n, f i = f j → i = j)
    (hnext : ∀ i < n, next (f i) = top f i) (hprev : ∀ i < n, prev (f i) = if i + 1 < n then some (f (i + 1)) else none)
    {a b : α} (ha : a ∈ stack f n) (hb : b ∈ stack f n) : next a = some b ↔ prev b = some a := by
  obtain ⟨i, hi, rfl⟩ := mem_stack.mp ha
  obtain ⟨j, hj, rfl⟩ := mem_stack.mp hb
  rw [hnext i hi, hprev j hj]
  constructor
  · intro h
    cases i with
    | zero => cases h
    | succ i =>
      rw [top_succ, Option.some.injEq] at h
      have hij := hinj i (Nat.lt_of_succ_lt hi) j hj h
      rw [← hij, if_pos hi]
  · intro h
    split at h
    · rename_i hlt
      rw [Option.some.injEq] at h
      have hij := hinj (j + 1) hlt i hi h
      rw [← hij, top_succ]
    · cases h

/-- Only the lowest node of a stack points nowhere. -/
theorem top_eq_none_iff {f : Nat → α} {n : Nat} : top f n = none ↔ n = 0 := by
  cases n <;> simp

end Chain
