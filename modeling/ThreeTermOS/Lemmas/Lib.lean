import Mathlib.Data.Nat.Find
import Mathlib.Tactic.Push
import ThreeTermOS.Lib

/-!
# What the library functions compute

The string functions look at a string up to its terminator. `memcpy` copies a range when the destination does not start inside
the source, and `memset_word` fills one.
-/

namespace ThreeTermOS

open Bytes

/-- Two pointers to the same string: the bytes agree up to a terminator. -/
def SameString (s s' : CPtr) : Prop := ∃ z, s z = 0 ∧ ∀ j ≤ z, s' j = s j

namespace LibAux

/-! ### Strings -/

/-- From any place before its end, the length of a string depends on the bytes up to there. -/
theorem strlenFrom_congr {s s' : CPtr} {z : Nat} (hz : s z = 0) (heq : ∀ j ≤ z, s' j = s j) (fuel : Nat) :
    ∀ len ≤ z, strlenFrom s' fuel len = strlenFrom s fuel len := by
  induction fuel with
  | zero => exact fun _ _ => rfl
  | succ fuel ih =>
    intro len hle
    rw [strlenFrom, strlenFrom, heq len hle]
    split
    · rfl
    · rename_i hne
      refine ih (len + 1) ?_
      rcases Nat.lt_or_eq_of_le hle with hlt | rfl
      · exact hlt
      · exact absurd hz hne

/-- The length depends on the string alone. -/
theorem strlen_congr {s s' : CPtr} (h : SameString s s') : strlen s' = strlen s := by
  obtain ⟨z, hz, heq⟩ := h
  exact strlenFrom_congr hz heq addressSpace 0 (Nat.zero_le z)

/-- From any place before its end, a comparison depends on the bytes up to there. -/
theorem strncmpFrom_congr {name s s' : CPtr} {z : Nat} (hz : s z = 0) (heq : ∀ j ≤ z, s' j = s j) (n : Nat) :
    ∀ i ≤ z, strncmpFrom name s' n i = strncmpFrom name s n i := by
  induction n with
  | zero => exact fun _ _ => rfl
  | succ n ih =>
    intro i hle
    rw [strncmpFrom, strncmpFrom, heq i hle]
    split
    · rfl
    · rename_i hne
      push Not at hne
      refine ih (i + 1) ?_
      rcases Nat.lt_or_eq_of_le hle with hlt | rfl
      · exact hlt
      · exact absurd (hne.1.trans hz) hne.2

/-- A comparison depends on the string alone. -/
theorem strncmp_congr {name s s' : CPtr} (h : SameString s s') (n : Nat) : strncmp name s' n = strncmp name s n := by
  obtain ⟨z, hz, heq⟩ := h
  exact strncmpFrom_congr hz heq n 0 (Nat.zero_le z)

/-- The scan ends at the first zero. -/
theorem strlenFrom_of_first {s : CPtr} {z : Nat} (hz : s z = 0) (hne : ∀ j < z, s j ≠ 0) (fuel : Nat) :
    ∀ len ≤ z, z < len + fuel → strlenFrom s fuel len = z := by
  induction fuel with
  | zero =>
    intro len hle hlt
    omega
  | succ fuel ih =>
    intro len hle hlt
    rw [strlenFrom]
    split
    · rename_i hzero
      by_contra hlen
      exact hne len (by omega) hzero
    · rename_i hnz
      have hlen : len ≠ z := by
        rintro rfl
        exact hnz hz
      exact ih (len + 1) (by omega) (by omega)

/-- The length of a string is the offset of its first terminator. -/
theorem strlen_eq {s : CPtr} {z : Nat} (hz : s z = 0) (hne : ∀ j < z, s j ≠ 0) (hlt : z < addressSpace) : strlen s = z :=
  strlenFrom_of_first hz hne addressSpace 0 (Nat.zero_le z) (by omega)

/-- A string that ends somewhere ends at its length, and not before. -/
theorem strlen_spec {s : CPtr} {b : Nat} (h : ∃ z ≤ b, s z = 0) (hb : b < addressSpace) :
    s (strlen s) = 0 ∧ (∀ j < strlen s, s j ≠ 0) ∧ strlen s ≤ b := by
  have hex : ∃ z, s z = 0 := ⟨h.choose, h.choose_spec.2⟩
  have hle : Nat.find hex ≤ b := Nat.le_trans (Nat.find_min' hex h.choose_spec.2) h.choose_spec.1
  have hne : ∀ j < Nat.find hex, s j ≠ 0 := fun j hj => Nat.find_min hex hj
  rw [strlen_eq (Nat.find_spec hex) hne (by omega)]
  exact ⟨Nat.find_spec hex, hne, hle⟩

/-- It ends at no later zero. -/
theorem strlenFrom_le {s : CPtr} {z : Nat} (hz : s z = 0) (fuel : Nat) : ∀ len ≤ z, strlenFrom s fuel len ≤ z := by
  induction fuel with
  | zero => exact fun _ hle => hle
  | succ fuel ih =>
    intro len hle
    rw [strlenFrom]
    split
    · exact hle
    · rename_i hnz
      have hlen : len ≠ z := by
        rintro rfl
        exact hnz hz
      exact ih (len + 1) (by omega)

/-- No string is longer than the offset of a terminator. -/
theorem strlen_le {s : CPtr} {z : Nat} (hz : s z = 0) : strlen s ≤ z := strlenFrom_le hz addressSpace 0 (Nat.zero_le z)

/-- A string is as long as it has characters before a terminator. -/
theorem le_strlen {s : CPtr} {n : Nat} (hne : ∀ j < n, s j ≠ 0) (hn : n ≤ addressSpace) : n ≤ strlen s := by
  have hloop : ∀ fuel len, n ≤ len + fuel → n ≤ strlenFrom s fuel len := by
    intro fuel
    induction fuel with
    | zero => exact fun _ hle => hle
    | succ fuel ih =>
      intro len hle
      rw [strlenFrom]
      split
      · rename_i hzero
        by_contra hlt
        exact hne len (by omega) hzero
      · exact ih (len + 1) (by omega)
  exact hloop addressSpace 0 (by omega)

/-- The loop of `strlen` ends at a terminator, or when its fuel does. -/
theorem strlenFrom_spec (s : CPtr) : ∀ fuel len, strlenFrom s fuel len ≤ len + fuel ∧
    (strlenFrom s fuel len < len + fuel → s (strlenFrom s fuel len) = 0) := by
  intro fuel
  induction fuel with
  | zero => exact fun len => ⟨Nat.le_refl _, fun h => absurd h (Nat.lt_irrefl _)⟩
  | succ fuel ih =>
    intro len
    rw [strlenFrom]
    split
    · rename_i hzero
      exact ⟨Nat.le_add_right _ _, fun _ => hzero⟩
    · obtain ⟨hle, hend⟩ := ih (len + 1)
      exact ⟨by omega, fun h => hend (by omega)⟩

/-- No string is longer than memory. -/
theorem strlen_le_addressSpace (s : CPtr) : strlen s ≤ addressSpace := by
  have hle := (strlenFrom_spec s addressSpace 0).1
  rwa [Nat.zero_add] at hle

/-- A string that does not fill the address space ends in a terminator. -/
theorem strlen_end {s : CPtr} (h : strlen s < addressSpace) : s (strlen s) = 0 :=
  (strlenFrom_spec s addressSpace 0).2 (by rwa [Nat.zero_add])

/-- No character before the length of a string is a terminator. -/
theorem strlen_ne_zero (s : CPtr) : ∀ j < strlen s, s j ≠ 0 := by
  intro j hj hz
  have hle := strlen_le hz
  omega

/-- A string holds no zero. -/
theorem strcpyBytes_ne_zero (s : CPtr) : ∀ c ∈ strcpyBytes s, c ≠ 0 := by
  intro c hc
  obtain ⟨i, hi⟩ := List.mem_iff_getElem?.mp hc
  rw [strcpyBytes, slice_getElem?] at hi
  split at hi
  · rename_i hlt
    rw [Nat.zero_add, Option.some.injEq] at hi
    exact hi ▸ strlen_ne_zero s i hlt
  · cases hi

/-- Two strings are the same when they have the same length and the same characters. -/
theorem strcpyBytes_eq_iff (s s' : CPtr) : strcpyBytes s = strcpyBytes s' ↔ strlen s = strlen s' ∧ ∀ j < strlen s', s j = s' j := by
  unfold strcpyBytes
  constructor
  · intro h
    have hlen := congrArg List.length h
    rw [slice_length, slice_length] at hlen
    refine ⟨hlen, fun j hj => ?_⟩
    have hget := congrArg (fun l => l[j]?) h
    rw [slice_getElem?, slice_getElem?, hlen, if_pos hj, if_pos hj, Nat.zero_add, Option.some.injEq] at hget
    exact hget
  · rintro ⟨hlen, hbytes⟩
    rw [hlen]
    exact slice_congr (fun j hj => by rw [Nat.zero_add]; exact hbytes j hj)

/-- The bytes copied depend on the string alone. -/
theorem strcpyBytes_congr {s s' : CPtr} (h : SameString s s') : strcpyBytes s' = strcpyBytes s := by
  rw [strcpyBytes, strcpyBytes, strlen_congr h]
  obtain ⟨z, hz, heq⟩ := h
  have hle := strlen_le hz
  exact slice_congr (fun i hi => heq (0 + i) (by omega))

/-- A string of characters other than zero has no zero before its end. -/
theorem cstr_ne_zero {l : List UInt8} (hl : ∀ c ∈ l, c ≠ 0) {j : Nat} (hj : j < l.length) : cstr l j ≠ 0 := by
  rw [cstr_of_lt hj]
  exact hl _ (List.getElem_mem hj)

/-- Copying a literal string gives it back. -/
theorem strcpyBytes_cstr {l : List UInt8} (hl : ∀ c ∈ l, c ≠ 0) (hlen : l.length < addressSpace) : strcpyBytes (cstr l) = l := by
  rw [strcpyBytes, strlen_eq (cstr_of_le (Nat.le_refl _)) (fun j hj => cstr_ne_zero hl hj) hlen]
  apply List.ext_getElem?
  intro i
  rw [slice_getElem?]
  by_cases hi : i < l.length
  · rw [if_pos hi, Nat.zero_add, cstr_of_lt hi, List.getElem?_eq_getElem hi]
  · rw [if_neg hi, List.getElem?_eq_none (Nat.le_of_not_lt hi)]

/-- A string is a list of characters when it has them in their places and a terminator after them. -/
theorem strcpyBytes_eq_list_iff {s : CPtr} {l : List UInt8} (hl : ∀ c ∈ l, c ≠ 0) (hlen : l.length < addressSpace) :
    strcpyBytes s = l ↔ (∀ j < l.length, s j = l.getD j 0) ∧ s l.length = 0 := by
  have hcstr : strlen (cstr l) = l.length := strlen_eq (cstr_of_le (Nat.le_refl _)) (fun j hj => cstr_ne_zero hl hj) hlen
  conv_lhs => rw [← strcpyBytes_cstr hl hlen]
  rw [strcpyBytes_eq_iff, hcstr]
  constructor
  · rintro ⟨hs, hchars⟩
    exact ⟨hchars, hs ▸ strlen_end (hs ▸ hlen)⟩
  · rintro ⟨hchars, hend⟩
    refine ⟨strlen_eq hend (fun j hj => ?_) hlen, hchars⟩
    rw [hchars j hj]
    exact cstr_ne_zero hl hj

/-- Over characters other than zero, a comparison finds two strings equal when every byte is. -/
theorem strncmpFrom_eq_zero_iff (s1 s2 : CPtr) (n : Nat) :
    ∀ i, (∀ j < n, s1 (i + j) ≠ 0) → (strncmpFrom s1 s2 n i = 0 ↔ ∀ j < n, s1 (i + j) = s2 (i + j)) := by
  induction n with
  | zero => exact fun i _ => iff_of_true rfl (fun j hj => absurd hj (Nat.not_lt_zero j))
  | succ n ih =>
    intro i hne
    have h0 := hne 0 (Nat.succ_pos n)
    rw [Nat.add_zero] at h0
    rw [strncmpFrom]
    by_cases heq : s1 i = s2 i
    · rw [if_neg (by rintro (h | h); exacts [h heq, h0 h])]
      rw [ih (i + 1) (fun j hj => by rw [Nat.add_right_comm, Nat.add_assoc]; exact hne (j + 1) (by omega))]
      constructor
      · intro h j hj
        cases j with
        | zero => exact heq
        | succ j =>
          have hj' := h j (by omega)
          rw [Nat.add_right_comm] at hj'
          exact hj'
      · intro h j hj
        have hj' := h (j + 1) (by omega)
        rw [← Nat.add_assoc, Nat.add_right_comm] at hj'
        exact hj'
    · rw [if_pos (Or.inl heq)]
      constructor
      · intro hz
        refine absurd ?_ heq
        have hint : (s1 i).toInt8.toInt = (s2 i).toInt8.toInt := by omega
        have hback := congrArg Int8.toUInt8 (Int8.toInt_inj.mp hint)
        rw [UInt8.toUInt8_toInt8, UInt8.toUInt8_toInt8] at hback
        exact hback
      · intro h
        exact absurd (h 0 (Nat.succ_pos n)) heq

/-- `strncmp` over the length of a string is zero exactly when the other begins with it. -/
theorem strncmp_strlen_eq_zero_iff {s1 s2 : CPtr} (hne : ∀ j < strlen s1, s1 j ≠ 0) :
    strncmp s1 s2 (strlen s1) = 0 ↔ ∀ j < strlen s1, s1 j = s2 j := by
  have h := strncmpFrom_eq_zero_iff s1 s2 (strlen s1) 0 (by simpa using hne)
  simp only [Nat.zero_add] at h
  exact h

/-! ### memcpy and memset_word -/

/-- `movsb` copies a byte. -/
theorem movsb_eq_blit (m : CPtr) (d s : Nat) : movsb m d s = blit m d s 1 := set_eq_blit m d s

/-- The double word is read before any byte of it is written. -/
theorem movsl_eq_blit (m : CPtr) (d s : Nat) : movsl m d s = blit m d s 4 := by
  funext x
  unfold movsl Bytes.set
  by_cases h : d ≤ x ∧ x < d + 4
  · rw [blit_of_mem m h.1 h.2]
    have hx : x = d ∨ x = d + 1 ∨ x = d + 2 ∨ x = d + 3 := by omega
    rcases hx with rfl | rfl | rfl | rfl
    · simp
    · simp
    · simp
    · simp
  · rw [blit_of_not_mem m h, if_neg (by omega), if_neg (by omega), if_neg (by omega), if_neg (by omega)]

/-- `rep movsl` copies words forward. -/
theorem repMovsl_eq_blit (c : Nat) : ∀ (m : CPtr) (d s : Nat), Forward d s (4 * c) → repMovsl m d s c = blit m d s (4 * c) := by
  induction c with
  | zero => exact fun m d s _ => (blit_zero m d s).symm
  | succ c ih =>
    intro m d s h
    have h' : Forward d s (4 + 4 * c) := by rwa [Nat.mul_succ, Nat.add_comm] at h
    rw [repMovsl, ih _ _ _ h'.right, movsl_eq_blit, blit_blit m h', Nat.mul_succ, Nat.add_comm]

/-- The loop at the end of `memcpy` copies bytes forward. -/
theorem memcpyBottom_eq_blit (c : Nat) : ∀ (m : CPtr) (d s : Nat), Forward d s c → memcpyBottom m d s c = blit m d s c := by
  induction c with
  | zero => exact fun m d s _ => (blit_zero m d s).symm
  | succ c ih =>
    intro m d s h
    have h' : Forward d s (1 + c) := by rwa [Nat.add_comm] at h
    rw [memcpyBottom, ih _ _ _ h'.right, movsb_eq_blit, blit_blit m h', Nat.add_comm]

/-- The double words and the bytes after them. -/
theorem memcpyAligned_eq_blit (m : CPtr) (d s c : Nat) (h : Forward d s c) : memcpyAligned m d s c = blit m d s c := by
  have hc : 4 * (c / 4) + c % 4 = c := Nat.div_add_mod c 4
  have h' : Forward d s (4 * (c / 4) + c % 4) := by rwa [hc]
  rw [memcpyAligned, memcpyBottom_eq_blit _ _ _ _ h'.right, repMovsl_eq_blit _ _ _ _ h'.left, blit_blit m h', hc]

/-- A copy to a destination that does not start inside the source is a copy of the whole range. -/
theorem memcpy_eq_blit (n : Nat) : ∀ (m : CPtr) (d s : Nat), Forward d s n → memcpy m d s n = blit m d s n := by
  induction n with
  | zero => exact fun m d s _ => (blit_zero m d s).symm
  | succ n ih =>
    intro m d s h
    rw [memcpy]
    split
    · exact memcpyAligned_eq_blit m d s (n + 1) h
    · have h' : Forward d s (1 + n) := by rwa [Nat.add_comm] at h
      rw [ih _ _ _ h'.right, movsb_eq_blit, blit_blit m h', Nat.add_comm]

/-- The words stored by `memset_word`, low byte first. -/
theorem memsetWord_eq_fill (c n : Nat) : ∀ (m : CPtr) (d : Nat), memsetWord m d c n =
    fill m d (2 * n) (fun i => if i % 2 = 0 then (c % 256).toUInt8 else (c / 256 % 256).toUInt8) := by
  induction n with
  | zero => exact fun m d => (fill_zero m d _).symm
  | succ n ih =>
    intro m d
    have hperiod : (fun i => if (i + 1 + 1) % 2 = 0 then (c % 256).toUInt8 else (c / 256 % 256).toUInt8) =
        fun i => if i % 2 = 0 then (c % 256).toUInt8 else (c / 256 % 256).toUInt8 := by
      funext i
      rw [Nat.add_assoc, Nat.add_mod_right]
    have hcount : 2 * (n + 1) = 2 * n + 1 + 1 := by omega
    rw [memsetWord, ih, hcount, ← fill_succ, ← fill_succ]
    exact congrArg _ hperiod.symm

end LibAux

end ThreeTermOS
