import Mathlib.Data.Nat.Digits.Lemmas

/-!
# Numerals

The numeral of a number in a base: its digits from the most significant one down, each written as a letter, and one digit for 0. A
numeral is read back by Horner's rule. Letters in front that stand for 0 make a numeral longer and leave what it is read as.
-/

namespace Numerals

universe u

variable {α : Type u} {b n : Nat} {letter : Nat → α} {val : α → Nat}

/-- The numeral of a number. -/
def numeral (b : Nat) (letter : Nat → α) (n : Nat) : List α := if n = 0 then [letter 0] else ((Nat.digits b n).map letter).reverse

/-- The number a list of letters is read as, each letter having a value. -/
def read (b : Nat) (val : α → Nat) (l : List α) : Nat := l.foldl (fun n a => val a + b * n) 0

/-- The letters of the digits of a base can be told apart by their values. -/
def Legible (b : Nat) (letter : Nat → α) (val : α → Nat) : Prop := ∀ d < b, val (letter d) = d

theorem numeral_zero (b : Nat) (letter : Nat → α) : numeral b letter 0 = [letter 0] := if_pos rfl

theorem numeral_of_pos (b : Nat) (letter : Nat → α) (hn : n ≠ 0) : numeral b letter n = ((Nat.digits b n).map letter).reverse := if_neg hn

theorem read_reverse (b : Nat) (val : α → Nat) (l : List α) : read b val l.reverse = Nat.ofDigits b (l.map val) := by
  rw [read, List.foldl_reverse, Nat.ofDigits_eq_foldr, List.foldr_map]
  rfl

theorem map_digits (hb : 1 < b) (h : Legible b letter val) (n : Nat) : ((Nat.digits b n).map letter).map val = Nat.digits b n := by
  rw [List.map_map]
  calc (Nat.digits b n).map (val ∘ letter) = (Nat.digits b n).map id := List.map_congr_left (fun d hd => h d (Nat.digits_lt_base hb hd))
    _ = Nat.digits b n := List.map_id _

/-- A numeral is read as its number. -/
theorem read_numeral (hb : 1 < b) (h : Legible b letter val) (n : Nat) : read b val (numeral b letter n) = n := by
  by_cases hn : n = 0
  · rw [hn, numeral_zero]
    exact h 0 (Nat.zero_lt_of_lt hb)
  · rw [numeral_of_pos b letter hn, read_reverse, map_digits hb h, Nat.ofDigits_digits]

/-- A numeral is written with the letters of its base. -/
theorem mem_numeral (hb : 1 < b) {a : α} (ha : a ∈ numeral b letter n) : ∃ d < b, a = letter d := by
  by_cases hn : n = 0
  · rw [hn, numeral_zero, List.mem_singleton] at ha
    exact ⟨0, Nat.zero_lt_of_lt hb, ha⟩
  · rw [numeral_of_pos b letter hn, List.mem_reverse, List.mem_map] at ha
    obtain ⟨d, hd, rfl⟩ := ha
    exact ⟨d, Nat.digits_lt_base hb hd, rfl⟩

/-- The numeral of a number that is not 0 does not begin with a 0. -/
theorem head_numeral (hb : 1 < b) (h : Legible b letter val) (hn : n ≠ 0) : (numeral b letter n).head? ≠ some (letter 0) := by
  intro hhead
  have hdigits : Nat.digits b n ≠ [] := Nat.digits_ne_nil_iff_ne_zero.mpr hn
  rw [numeral_of_pos b letter hn, List.head?_reverse, List.getLast?_map, List.getLast?_eq_some_getLast hdigits, Option.map_some,
    Option.some.injEq] at hhead
  have hlast := Nat.digits_lt_base hb (List.getLast_mem hdigits)
  have hval := congrArg val hhead
  rw [h _ hlast, h 0 (Nat.zero_lt_of_lt hb)] at hval
  exact Nat.getLast_digit_ne_zero b hn hval

/-- The numerals of the numbers below a power of the base have at most as many letters as the exponent says. -/
theorem length_numeral_le (hb : 1 < b) {k : Nat} (hk : 0 < k) (hn : n < b ^ k) : (numeral b letter n).length ≤ k := by
  by_cases hz : n = 0
  · rw [hz, numeral_zero]
    exact hk
  · rw [numeral_of_pos b letter hz, List.length_reverse, List.length_map]
    exact (Nat.digits_length_le_iff hb n).mpr hn

/-- Zeros in front of a numeral. -/
theorem read_zeros (b : Nat) {zero : α} (hzero : val zero = 0) (k : Nat) (l : List α) :
    read b val (List.replicate k zero ++ l) = read b val l := by
  induction k with
  | zero => rfl
  | succ k ih =>
    rw [List.replicate_succ, List.cons_append, ← ih]
    unfold read
    rw [List.foldl_cons, hzero, Nat.mul_zero]

end Numerals
