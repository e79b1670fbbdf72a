import Mathlib.Logic.Basic

/-!
# Memory as a function from addresses

A memory gives every address a value. `set` stores one value, `blit` copies a range to another as if through a temporary, `fill`
writes a range from a function, `flip` reverses one in place, and `slice` reads a range as a list. A copy made piece by piece from
the low end is a `blit` as long as no piece overwrites what a later one reads (`Forward`).
-/

namespace Bytes

universe u

variable {α : Type u}

/-- A memory with one value stored. -/
def set (m : Nat → α) (a : Nat) (v : α) : Nat → α := fun x => if x = a then v else m x

/-- A memory with the `n` values at `s` copied to `d`, all read before any is written. -/
def blit (m : Nat → α) (d s n : Nat) : Nat → α := fun x => if d ≤ x ∧ x < d + n then m (s + (x - d)) else m x

/-- A memory with the `n` values at `d` taken from a function of the offset. -/
def fill (m : Nat → α) (d n : Nat) (f : Nat → α) : Nat → α := fun x => if d ≤ x ∧ x < d + n then f (x - d) else m x

/-- A memory with the `n` values at `a` in reverse order. -/
def flip (m : Nat → α) (a n : Nat) : Nat → α := fun x => if a ≤ x ∧ x < a + n then m (a + (n - 1 - (x - a))) else m x

/-- The `n` values at `a`, in order. -/
def slice (m : Nat → α) (a : Nat) : Nat → List α
  | 0 => []
  | n + 1 => m a :: slice m (a + 1) n

/-- A copy of `n` values from `s` to `d` may go forward, piece by piece: the destination does not start inside the source. -/
def Forward (d s n : Nat) : Prop := d ≤ s ∨ s + n ≤ d

/-- The byte that is set has the value. -/
@[simp] theorem set_self (m : Nat → α) (a : Nat) (v : α) : set m a v a = v := by simp [set]

/-- The other bytes stay. -/
theorem set_other (m : Nat → α) {a x : Nat} (v : α) (h : x ≠ a) : set m a v x = m x := by simp [set, h]

/-- A byte inside the destination is the source's. -/
theorem blit_of_mem (m : Nat → α) {d s n x : Nat} (h1 : d ≤ x) (h2 : x < d + n) : blit m d s n x = m (s + (x - d)) := by
  simp [blit, h1, h2]

/-- A byte outside it stays. -/
theorem blit_of_not_mem (m : Nat → α) {d s n x : Nat} (h : ¬(d ≤ x ∧ x < d + n)) : blit m d s n x = m x := by
  simp [blit, h]

/-- A byte inside the range is the one given for it. -/
theorem fill_of_mem (m : Nat → α) {d n x : Nat} (f : Nat → α) (h1 : d ≤ x) (h2 : x < d + n) : fill m d n f x = f (x - d) := by
  simp [fill, h1, h2]

/-- A byte outside the range stays. -/
theorem fill_of_not_mem (m : Nat → α) {d n x : Nat} (f : Nat → α) (h : ¬(d ≤ x ∧ x < d + n)) : fill m d n f x = m x := by
  simp [fill, h]

/-- A range filled value by value, from the first one on. -/
theorem fill_succ (m : Nat → α) (a n : Nat) (f : Nat → α) :
    fill (set m a (f 0)) (a + 1) n (fun i => f (i + 1)) = fill m a (n + 1) f := by
  funext x
  by_cases hx : a + 1 ≤ x ∧ x < a + 1 + n
  · have hi : x - (a + 1) + 1 = x - a := by omega
    rw [fill_of_mem _ _ hx.1 hx.2, fill_of_mem _ _ (by omega) (by omega), hi]
  · rw [fill_of_not_mem _ _ hx]
    by_cases ha : x = a
    · subst ha
      rw [set_self, fill_of_mem _ _ (Nat.le_refl x) (by omega), Nat.sub_self]
    · rw [set_other _ _ ha, fill_of_not_mem _ _ (by omega)]

/-- A list stored value by value. -/
theorem fill_cons (m : Nat → α) (a : Nat) (c : α) (l : List α) (v : α) :
    fill (set m a c) (a + 1) l.length (fun i => l.getD i v) = fill m a (c :: l).length (fun i => (c :: l).getD i v) :=
  fill_succ m a l.length (fun i => (c :: l).getD i v)

/-- An empty range fills nothing. -/
theorem fill_zero (m : Nat → α) (a : Nat) (f : Nat → α) : fill m a 0 f = m := by
  funext x
  exact fill_of_not_mem m f (by omega)

/-! ## Copies in pieces -/

/-- An empty range copies nothing. -/
theorem blit_zero (m : Nat → α) (d s : Nat) : blit m d s 0 = m := by
  funext x
  exact blit_of_not_mem m (by omega)

/-- Storing one value read elsewhere is a copy of length one. -/
theorem set_eq_blit (m : Nat → α) (d s : Nat) : set m d (m s) = blit m d s 1 := by
  funext x
  by_cases h : x = d
  · subst h
    rw [set_self, blit_of_mem m (Nat.le_refl x) (by omega), Nat.sub_self, Nat.add_zero]
  · rw [set_other m _ h, blit_of_not_mem m (by omega)]

/-- The first part of a forward copy is one. -/
theorem Forward.left {d s n k : Nat} (h : Forward d s (n + k)) : Forward d s n := by
  rcases h with h | h
  · exact Or.inl h
  · exact Or.inr (by omega)

/-- So is the rest. -/
theorem Forward.right {d s n k : Nat} (h : Forward d s (n + k)) : Forward (d + n) (s + n) k := by
  rcases h with h | h
  · exact Or.inl (by omega)
  · exact Or.inr (by omega)

/-- A forward copy in two pieces is one copy: the first piece does not reach what the second one reads. -/
theorem blit_blit (m : Nat → α) {d s n k : Nat} (h : Forward d s (n + k)) :
    blit (blit m d s n) (d + n) (s + n) k = blit m d s (n + k) := by
  funext x
  by_cases h1 : d + n ≤ x ∧ x < d + n + k
  · have hsrc : ¬(d ≤ s + n + (x - (d + n)) ∧ s + n + (x - (d + n)) < d + n) := by
      rcases h with h | h <;> omega
    rw [blit_of_mem _ h1.1 h1.2, blit_of_not_mem m hsrc, blit_of_mem m (by omega) (by omega)]
    congr 1
    omega
  · rw [blit_of_not_mem _ h1]
    by_cases h2 : d ≤ x ∧ x < d + n
    · rw [blit_of_mem m h2.1 h2.2, blit_of_mem m h2.1 (by omega)]
    · rw [blit_of_not_mem m h2, blit_of_not_mem m (by omega)]

/-! ## Reversing a range -/

/-- A byte inside the range is the one at the same distance from its other end. -/
theorem flip_of_mem (m : Nat → α) {a n x : Nat} (h1 : a ≤ x) (h2 : x < a + n) : flip m a n x = m (a + (n - 1 - (x - a))) := by
  simp [flip, h1, h2]

/-- A byte outside the range stays. -/
theorem flip_of_not_mem (m : Nat → α) {a n x : Nat} (h : ¬(a ≤ x ∧ x < a + n)) : flip m a n x = m x := by
  simp [flip, h]

/-- A range of at most one value is its own reverse. -/
theorem flip_of_le_one (m : Nat → α) {a n : Nat} (hn : n ≤ 1) : flip m a n = m := by
  funext x
  by_cases hx : a ≤ x ∧ x < a + n
  · rw [flip_of_mem m hx.1 hx.2]
    congr 1
    omega
  · exact flip_of_not_mem m hx

/-- A store outside the range is not moved. -/
theorem flip_set (m : Nat → α) {a n b : Nat} (v : α) (hb : ¬(a ≤ b ∧ b < a + n)) : flip (set m b v) a n = set (flip m a n) b v := by
  funext x
  by_cases hx : a ≤ x ∧ x < a + n
  · rw [flip_of_mem _ hx.1 hx.2, set_other _ _ (by omega), set_other _ _ (by omega), flip_of_mem m hx.1 hx.2]
  · rw [flip_of_not_mem _ hx]
    by_cases hxb : x = b
    · subst hxb
      rw [set_self, set_self]
    · rw [set_other _ _ hxb, set_other _ _ hxb, flip_of_not_mem m hx]

/-- A list stored and then reversed in place. -/
theorem flip_fill (m : Nat → α) (a : Nat) (l : List α) (v : α) :
    flip (fill m a l.length (fun i => l.getD i v)) a l.length = fill m a l.length (fun i => l.reverse.getD i v) := by
  funext x
  by_cases hx : a ≤ x ∧ x < a + l.length
  · obtain ⟨i, rfl⟩ := Nat.exists_eq_add_of_le hx.1
    rw [flip_of_mem _ hx.1 hx.2, fill_of_mem _ _ (by omega) (by omega), fill_of_mem _ _ hx.1 hx.2, Nat.add_sub_cancel_left,
      Nat.add_sub_cancel_left, List.getD_eq_getElem?_getD, List.getD_eq_getElem?_getD, List.getElem?_reverse (by omega)]
  · rw [flip_of_not_mem _ hx, fill_of_not_mem _ _ hx, fill_of_not_mem _ _ hx]

/-- The ends swapped, and what is between them reversed. -/
theorem flip_swap (m : Nat → α) (a n : Nat) :
    flip (set (set m (a + n + 1) (m a)) a (m (a + n + 1))) (a + 1) n = flip m a (n + 2) := by
  funext x
  by_cases hin : a + 1 ≤ x ∧ x < a + 1 + n
  · rw [flip_of_mem _ hin.1 hin.2, flip_of_mem m (by omega) (by omega), set_other _ _ (by omega), set_other _ _ (by omega)]
    congr 1
    omega
  · rw [flip_of_not_mem _ hin]
    by_cases hlow : x = a
    · subst hlow
      rw [set_self, flip_of_mem m (Nat.le_refl x) (by omega)]
      congr 1
      omega
    · rw [set_other _ _ hlow]
      by_cases hhigh : x = a + n + 1
      · subst hhigh
        rw [set_self, flip_of_mem m (by omega) (by omega)]
        congr 1
        omega
      · rw [set_other _ _ hhigh, flip_of_not_mem m (by omega)]

/-! ## Slices -/

/-- A slice is as long as asked. -/
@[simp] theorem slice_length (m : Nat → α) (a n : Nat) : (slice m a n).length = n := by
  induction n generalizing a with
  | zero => rfl
  | succ n ih => rw [slice, List.length_cons, ih]

/-- The elements of a slice are the bytes behind its start. -/
theorem slice_getElem? (m : Nat → α) (a n i : Nat) : (slice m a n)[i]? = if i < n then some (m (a + i)) else none := by
  induction n generalizing a i with
  | zero => simp [slice]
  | succ n ih =>
    cases i with
    | zero => simp [slice]
    | succ i =>
      rw [slice, List.getElem?_cons_succ, ih, Nat.add_right_comm, Nat.add_assoc]
      simp

/-- A slice is the slice of another memory when the two agree on the range read. -/
theorem slice_congr {m m' : Nat → α} {a a' n : Nat} (h : ∀ i < n, m (a + i) = m' (a' + i)) :
    slice m a n = slice m' a' n := by
  apply List.ext_getElem?
  intro i
  rw [slice_getElem?, slice_getElem?]
  by_cases hi : i < n
  · simp [hi, h i hi]
  · simp [hi]

/-- A slice in two pieces. -/
theorem slice_add (m : Nat → α) (a n k : Nat) : slice m a (n + k) = slice m a n ++ slice m (a + n) k := by
  apply List.ext_getElem?
  intro i
  rw [List.getElem?_append, slice_length, slice_getElem?, slice_getElem?, slice_getElem?]
  by_cases hi : i < n
  · simp [hi, show i < n + k by omega]
  · have ha : a + n + (i - n) = a + i := by omega
    by_cases hk : i < n + k
    · simp [hi, hk, ha, show i - n < k by omega]
    · simp [hi, hk, show ¬i - n < k by omega]

/-- Dropping from and taking from a slice moves its ends. -/
theorem take_drop_slice (m : Nat → α) {a n p k : Nat} (h : p + k ≤ n) :
    ((slice m a n).drop p).take k = slice m (a + p) k := by
  apply List.ext_getElem?
  intro i
  rw [List.getElem?_take, List.getElem?_drop, slice_getElem?, slice_getElem?]
  by_cases hi : i < k
  · simp [hi, show p + i < n by omega, Nat.add_assoc]
  · simp [hi]

end Bytes
