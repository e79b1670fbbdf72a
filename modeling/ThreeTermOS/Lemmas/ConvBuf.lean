import Mathlib.Data.List.GetD
import ThreeTermOS.ConvBuf
import ThreeTermOS.Lemmas.Lib
import ThreeTermOS.Library.Numerals

/-!
# What itoa leaves in a buffer

The numeral of the value with a terminator behind it, and nothing else of the memory changed. The string functions of `ThreeTermOS.Lib`,
over lists, compute the same numeral.
-/

namespace ThreeTermOS

open Bytes Numerals

/-- The character `itoa` writes for a digit. -/
def digitChar (d : Nat) : UInt8 := lookup.getD d 0

/-- The digit a character stands for: `0` to `9`, and from 10 on the capital letters. -/
def digitVal (c : UInt8) : Nat := if c ≤ 0x39 then c.toNat - 0x30 else c.toNat - 0x37

namespace ConvBufAux

open LibAux

variable {m : CPtr} {radix value : Nat}

/-! ### Digits -/

/-- Up to radix 36 every digit can be read back. -/
theorem legible_of_le (h : radix ≤ 36) : Legible radix digitChar digitVal := by
  have hall : ∀ d < 36, digitVal (digitChar d) = d := by decide +kernel
  exact fun d hd => hall d (Nat.lt_of_lt_of_le hd h)

/-- No digit is the character zero. -/
theorem digitChar_ne_zero {d : Nat} (hd : d < 36) : digitChar d ≠ 0 := by
  have hall : ∀ d < 36, digitChar d ≠ 0 := by decide +kernel
  exact hall d hd

/-- Nor does a numeral contain it. -/
theorem numeral_ne_zero (h2 : 2 ≤ radix) (h36 : radix ≤ 36) (value : Nat) : ∀ c ∈ numeral radix digitChar value, c ≠ 0 := by
  intro c hc
  obtain ⟨d, hd, rfl⟩ := mem_numeral h2 hc
  exact digitChar_ne_zero (Nat.lt_of_lt_of_le hd h36)

/-- A numeral of 32 bits has at most 32 digits. -/
theorem numeral_length (h2 : 2 ≤ radix) (hv : value < 2 ^ 32) : (numeral radix digitChar value).length ≤ 32 :=
  length_numeral_le h2 (by decide) (Nat.lt_of_lt_of_le hv (Nat.pow_le_pow_left h2 32))

/-! ### The loops -/

/-- The division loop lists the digits, lowest first. -/
theorem itoaLoop_eq (h2 : 2 ≤ radix) (fuel : Nat) : ∀ newval, newval < radix ^ fuel →
    itoaLoop radix fuel newval = (Nat.digits radix newval).map digitChar := by
  induction fuel with
  | zero =>
    intro newval hlt
    rw [Nat.pow_zero, Nat.lt_one_iff] at hlt
    rw [hlt, Nat.digits_zero]
    rfl
  | succ fuel ih =>
    intro newval hlt
    rw [itoaLoop]
    by_cases hpos : newval > 0
    · rw [if_pos hpos, Nat.digits_def' h2 hpos, List.map_cons, ih _ (Nat.div_lt_of_lt_mul (by rwa [Nat.pow_succ, Nat.mul_comm] at hlt))]
      rfl
    · have hzero : newval = 0 := by omega
      rw [if_neg hpos, hzero, Nat.digits_zero]
      rfl

/-- The division loop stores its digits one behind the other. -/
theorem itoaDigits_eq (radix fuel : Nat) : ∀ (m : CPtr) (newbuf newval : Nat), itoaDigits radix fuel m newbuf newval =
    (fill m newbuf (itoaLoop radix fuel newval).length (fun i => (itoaLoop radix fuel newval).getD i 0),
      newbuf + (itoaLoop radix fuel newval).length) := by
  induction fuel with
  | zero =>
    intro m newbuf newval
    rw [itoaDigits, itoaLoop, List.length_nil, fill_zero, Nat.add_zero]
  | succ fuel ih =>
    intro m newbuf newval
    rw [itoaDigits, itoaLoop]
    by_cases hpos : newval > 0
    · rw [if_pos hpos, if_pos hpos, ih, fill_cons, List.length_cons, Nat.add_assoc, Nat.add_comm 1]
    · rw [if_neg hpos, if_neg hpos, List.length_nil, fill_zero, Nat.add_zero]

/-- The swaps, ends inward, reverse what is between the two indices. -/
theorem strrevSwaps_eq (s fuel : Nat) : ∀ (m : CPtr) (beg fin : Nat), fin - beg ≤ 2 * fuel →
    strrevSwaps s fuel m beg fin = flip m (s + beg) (fin + 1 - beg) := by
  induction fuel with
  | zero =>
    intro m beg fin hle
    rw [strrevSwaps, flip_of_le_one m (by omega)]
  | succ fuel ih =>
    intro m beg fin hle
    rw [strrevSwaps]
    by_cases hlt : beg < fin
    · rw [if_pos hlt, ih _ _ _ (by omega)]
      obtain ⟨n, rfl⟩ := Nat.exists_eq_add_of_lt hlt
      have hswap := flip_swap m (s + beg) n
      have hfin : s + (beg + n + 1) = s + beg + n + 1 := by omega
      have hinner : beg + n + 1 - 1 + 1 - (beg + 1) = n := by omega
      have houter : beg + n + 1 + 1 - beg = n + 2 := by omega
      rw [hfin, hinner, houter, ← hswap, Nat.add_assoc s beg 1]
    · rw [if_neg hlt, flip_of_le_one m (by omega)]

/-! ### Strings in memory -/

/-- A string with its terminator, stored at an address. -/
def stored (m : CPtr) (p : Nat) (l : List UInt8) : CPtr := set (fill m p l.length (fun i => l.getD i 0)) (p + l.length) 0

/-- The characters stored are read back. -/
theorem stored_char (m : CPtr) {p j : Nat} {l : List UInt8} (hj : j < l.length) : stored m p l (p + j) = l.getD j 0 := by
  unfold stored
  rw [set_other _ _ (by omega), fill_of_mem _ _ (by omega) (by omega), Nat.add_sub_cancel_left]

/-- A zero is stored behind them. -/
theorem stored_end (m : CPtr) (p : Nat) (l : List UInt8) : stored m p l (p + l.length) = 0 := set_self _ _ _

/-- Nothing else changes. -/
theorem stored_other (m : CPtr) {p a : Nat} {l : List UInt8} (ha : ¬(p ≤ a ∧ a ≤ p + l.length)) : stored m p l a = m a := by
  unfold stored
  rw [set_other _ _ (by omega), fill_of_not_mem _ _ (by omega)]

/-- The string at an address, by its characters and its terminator. -/
theorem string_eq {l : List UInt8} {p : Nat} (hl : ∀ c ∈ l, c ≠ 0) (hlen : l.length < addressSpace)
    (hchars : ∀ j < l.length, m (p + j) = l.getD j 0) (hend : m (p + l.length) = 0) :
    strcpyBytes (stringAt m p) = l ∧ strlen (stringAt m p) = l.length := by
  refine ⟨(strcpyBytes_eq_list_iff hl hlen).mpr ⟨hchars, hend⟩, strlen_eq hend (fun j hj => ?_) hlen⟩
  have hj' : stringAt m p j = l.getD j 0 := hchars j hj
  rw [hj']
  exact cstr_ne_zero hl hj

/-- A text stored is the string there. -/
theorem string_stored {l : List UInt8} (hl : ∀ c ∈ l, c ≠ 0) (hlen : l.length < addressSpace) (m : CPtr) (p : Nat) :
    strcpyBytes (stringAt (stored m p l) p) = l ∧ strlen (stringAt (stored m p l) p) = l.length :=
  string_eq hl hlen (fun _ hj => stored_char m hj) (stored_end m p l)

/-- `strrev` of a stored string. -/
theorem strrevAt_stored {l : List UInt8} (hl : ∀ c ∈ l, c ≠ 0) (hlen : l.length < addressSpace) (m : CPtr) (p : Nat) :
    strrevAt (stored m p l) p = stored m p l.reverse := by
  unfold strrevAt
  rw [(string_stored hl hlen m p).2]
  dsimp only
  rw [strrevSwaps_eq p _ _ _ _ (by omega), Nat.add_zero, Nat.sub_zero]
  unfold stored
  rw [List.length_reverse]
  cases l with
  | nil => exact flip_of_le_one _ (Nat.le_refl 1)
  | cons c l =>
    have hsucc : (c :: l).length - 1 + 1 = (c :: l).length := Nat.succ_pred_eq_of_pos (Nat.succ_pos _)
    rw [hsucc, flip_set _ _ (by omega), flip_fill]

/-- `itoa` stores the numeral and its terminator. -/
theorem itoaAt_eq (m : CPtr) (h2 : 2 ≤ radix) (h36 : radix ≤ 36) (hv : value < 2 ^ 32) (buf : Nat) :
    itoaAt m value buf radix = stored m buf (numeral radix digitChar value) := by
  unfold itoaAt
  by_cases hz : value = 0
  · have hcons := fill_cons m buf 0x30 [] 0
    rw [List.length_nil, fill_zero] at hcons
    rw [if_pos hz, hz, numeral_zero, hcons]
    rfl
  · have hloop := itoaLoop_eq h2 32 value (Nat.lt_of_lt_of_le hv (Nat.pow_le_pow_left h2 32))
    have hne := numeral_ne_zero h2 h36 value
    have hlen := numeral_length h2 hv
    rw [numeral_of_pos radix digitChar hz] at hne hlen ⊢
    rw [if_neg hz, itoaDigits_eq, hloop]
    refine strrevAt_stored (fun c hc => hne c (List.mem_reverse.mpr hc)) ?_ m buf
    rw [List.length_reverse] at hlen
    exact Nat.lt_of_le_of_lt hlen (by decide)

/-! ### itoa over lists -/

/-- A character of a text replaced. -/
theorem cstr_set {s : List UInt8} {i : Nat} (c : UInt8) (hi : i < s.length) : cstr (s.set i c) = set (cstr s) i c := by
  funext x
  unfold cstr
  by_cases hx : x = i
  · subst hx
    rw [set_self, List.getD_eq_getElem _ _ (by rwa [List.length_set]), List.getElem_set_self]
  · rw [set_other _ _ hx, List.getD_eq_getElem?_getD, List.getElem?_set_ne (Ne.symm hx), ← List.getD_eq_getElem?_getD]

/-- The swaps of `strrev` on a list are those in memory. -/
theorem cstr_strrevLoop (fuel : Nat) : ∀ (beg fin : Nat) (s : List UInt8), fin < s.length →
    cstr (strrevLoop fuel beg fin s) = strrevSwaps 0 fuel (cstr s) beg fin := by
  induction fuel with
  | zero => exact fun _ _ _ _ => rfl
  | succ fuel ih =>
    intro beg fin s hfin
    rw [strrevLoop, strrevSwaps]
    by_cases hlt : beg < fin
    · rw [if_pos hlt, if_pos hlt, ih _ _ _ (by rw [List.length_set, List.length_set]; omega),
        cstr_set _ (by rw [List.length_set]; omega), cstr_set _ hfin, Nat.zero_add, Nat.zero_add]
      rfl
    · rw [if_neg hlt, if_neg hlt]

/-- Reversing in place keeps the length. -/
theorem strrevLoop_length (fuel : Nat) : ∀ (beg fin : Nat) (s : List UInt8), (strrevLoop fuel beg fin s).length = s.length := by
  induction fuel with
  | zero => exact fun _ _ _ => rfl
  | succ fuel ih =>
    intro beg fin s
    rw [strrevLoop]
    split
    · rw [ih, List.length_set, List.length_set]
    · rfl

/-- `strrev` reverses the text. -/
theorem strrev_eq_reverse (s : List UInt8) : strrev s = s.reverse := by
  have hlen : (strrev s).length = s.length := strrevLoop_length _ _ _ s
  refine List.ext_getElem (by rw [hlen, List.length_reverse]) (fun i hi hi' => ?_)
  rw [hlen] at hi
  have hswaps : cstr (strrev s) = flip (cstr s) 0 s.length := by
    have hflip := strrevSwaps_eq 0 s.length (cstr s) 0 (s.length - 1) (by omega)
    have hrange : s.length - 1 + 1 - 0 = s.length := by omega
    rw [strrev, cstr_strrevLoop _ _ _ s (by omega), hflip, hrange]
  have hget := congrFun hswaps i
  rw [flip_of_mem _ (Nat.zero_le i) (by omega), cstr_of_lt (by rwa [hlen]), cstr_of_lt (by omega)] at hget
  rw [hget, List.getElem_reverse]
  congr 1
  omega

/-- `itoa` writes the numeral of the value. -/
theorem itoa_eq_numeral (h2 : 2 ≤ radix) (hv : value < 2 ^ 32) : itoa value radix = numeral radix digitChar value := by
  unfold itoa
  by_cases hz : value = 0
  · rw [if_pos hz, hz, numeral_zero]
    rfl
  · rw [if_neg hz, strrev_eq_reverse, itoaLoop_eq h2 32 value (Nat.lt_of_lt_of_le hv (Nat.pow_le_pow_left h2 32)),
      numeral_of_pos radix digitChar hz]

/-! ### The zeros of `%#x` -/

/-- The loop before `%#x` fills the buffer with the digit zero. -/
theorem zeroPad_eq (convBuf fuel : Nat) : ∀ (m : CPtr) (i : Nat), 8 - i ≤ fuel →
    zeroPad convBuf fuel m i = fill m (convBuf + i) (8 - i) (fun _ => 0x30) := by
  induction fuel with
  | zero =>
    intro m i hle
    rw [Nat.eq_zero_of_le_zero hle, fill_zero]
    rfl
  | succ fuel ih =>
    intro m i hle
    rw [zeroPad]
    by_cases hlt : i < 8
    · have hn : 8 - (i + 1) + 1 = 8 - i := by omega
      have hfill := fill_succ m (convBuf + i) (8 - (i + 1)) (fun _ => (0x30 : UInt8))
      rw [if_pos hlt, ih _ _ (by omega), ← hn, ← hfill, Nat.add_assoc]
    · rw [if_neg hlt, Nat.sub_eq_zero_of_le (Nat.le_of_not_lt hlt), fill_zero]

/-- A value of 32 bits has at most eight hexadecimal digits. -/
theorem hex_length (hv : value < 2 ^ 32) : (numeral 16 digitChar value).length ≤ 8 := length_numeral_le (by decide) (by decide) hv

/-- `%#x` gives `terminal_puts` the numeral with the zeros that make it eight characters long. -/
theorem string_convAlternate (m : CPtr) (convBuf : Nat) (hv : value < 2 ^ 32) :
    strcpyBytes (stringAt (convAlternate m convBuf value).1 (convAlternate m convBuf value).2) =
      List.replicate (8 - (numeral 16 digitChar value).length) 0x30 ++ numeral 16 digitChar value := by
  have hitoa : itoaAt m value (convBuf + 8) 16 = _ := itoaAt_eq m (by decide) (by decide) hv (convBuf + 8)
  have hne : ∀ c ∈ numeral 16 digitChar value, c ≠ 0 := numeral_ne_zero (by decide) (by decide) value
  have hlen := hex_length hv
  unfold convAlternate
  rw [hitoa]
  generalize numeral 16 digitChar value = l at hne hlen ⊢
  have hspace : l.length < addressSpace := Nat.lt_of_le_of_lt hlen (by decide)
  dsimp only
  rw [(string_stored hne hspace m (convBuf + 8)).2, zeroPad_eq convBuf 8 _ _ (Nat.sub_le 8 _)]
  have hpad : (List.replicate (8 - l.length) (0x30 : UInt8) ++ l).length = 8 := by
    rw [List.length_append, List.length_replicate, Nat.sub_add_cancel hlen]
  refine (string_eq (fun c hc => ?_) (by rw [hpad]; decide) (fun j hj => ?_) ?_).1
  · rcases List.mem_append.mp hc with hzero | hdigit
    · rw [List.eq_of_mem_replicate hzero]
      decide
    · exact hne c hdigit
  · rw [hpad] at hj
    by_cases hzero : j < 8 - l.length
    -- a zero stored in front
    · rw [fill_of_mem _ _ (by omega) (by omega), List.getD_append _ _ _ _ (by rwa [List.length_replicate]), List.getD_replicate _ hzero]
    -- a digit where `itoa` has put it
    · have haddr : convBuf + l.length + j = convBuf + 8 + (j - (8 - l.length)) := by omega
      rw [fill_of_not_mem _ _ (by omega), haddr, stored_char m (by omega),
        List.getD_append_right _ _ _ _ (by rw [List.length_replicate]; omega), List.length_replicate]
  · have haddr : convBuf + l.length + 8 = convBuf + 8 + l.length := by omega
    rw [hpad, fill_of_not_mem _ _ (by omega), haddr, stored_end]

end ConvBufAux

end ThreeTermOS
