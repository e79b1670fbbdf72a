import ThreeTermOS.Lemmas.Input

/-!
# Where characters are stored

A character changes `input_buffer` only where its stores are, and in the `ENTERED_LINE` row of the same terminal when it ends the
line. While the running terminal writes, every store is in its own line, at the place the characters before it have reached.
-/

namespace ThreeTermOS

open Bytes

/-- The character ends a line. -/
def EndsLine (c : UInt8) : Prop := c = 0x0A ∨ c = 0x0D

instance (c : UInt8) : Decidable (EndsLine c) := inferInstanceAs (Decidable (_ ∨ _))

/-- The stores are within `CURR_LINE`. -/
def InBounds (stores : List LineStore) : Prop := ∀ st ∈ stores, st.idx < lineBufferSize

/-- The place of `input_buffer` a store goes to. -/
def LineStore.index (st : LineStore) : Nat := inputIndex st.term currLine st.idx

namespace LineStoresAux

open RoutingAux OutputAux InputAux

variable {k : Console} {c : UInt8} {t : Term} {j : Nat}

/-- The stores of one call after another stay in their rows when those of each do. -/
theorem inBounds_append {l l' : List LineStore} : InBounds (l ++ l') ↔ InBounds l ∧ InBounds l' := List.forall_mem_append

/-- A first store and the ones after it. -/
theorem inBounds_cons {st : LineStore} {l : List LineStore} : InBounds (st :: l) ↔ st.idx < lineBufferSize ∧ InBounds l :=
  List.forall_mem_cons

/-- No store leaves its row. -/
theorem inBounds_nil : InBounds [] := fun _ hst => absurd hst (List.not_mem_nil)

/-- Clearing a row stores only in the row. -/
theorem inBounds_cleared (t : Term) : InBounds (lineCleared t) := by
  intro st hst
  obtain ⟨i, hi, rfl⟩ := List.mem_map.mp hst
  exact List.mem_range.mp hi

/-! ### The stores are where the lines change -/

/-- A character stored changes one byte of the lines. -/
theorem appendChar_unstored (h : j ≠ inputIndex t currLine (k.currIdx t)) : (k.appendChar t c).inputBuffer j = k.inputBuffer j :=
  set_other _ _ h

/-- Entering a line changes the row being typed and the row entered. -/
theorem enterLine_unstored (h : ∀ st ∈ LineStore.mk t (k.currIdx t) :: lineCleared t, j ≠ st.index)
    (hentered : ∀ i < lineBufferSize, j ≠ inputIndex t enteredLine i) : (k.enterLine t).inputBuffer j = k.inputBuffer j := by
  have hcurr : ¬(inputIndex t currLine 0 ≤ j ∧ j < inputIndex t currLine 0 + lineBufferSize) := by
    rintro ⟨hle, hlt⟩
    refine h ⟨t, j - inputIndex t currLine 0⟩ (List.mem_cons_of_mem _ (List.mem_map.mpr ⟨_, List.mem_range.mpr ?_, rfl⟩)) ?_
    · omega
    · unfold LineStore.index
      dsimp only
      unfold inputIndex at *
      omega
  have hrow : ¬(inputIndex t enteredLine 0 ≤ j ∧ j < inputIndex t enteredLine 0 + lineBufferSize) := by
    rintro ⟨hle, hlt⟩
    refine hentered (j - inputIndex t enteredLine 0) (by omega) ?_
    unfold inputIndex at *
    omega
  have hidx : j ≠ inputIndex t currLine (k.currIdx t) := h ⟨t, k.currIdx t⟩ List.mem_cons_self
  unfold Console.enterLine
  dsimp only
  rw [fill_of_not_mem _ _ hcurr, fill_of_not_mem _ _ hrow, set_other _ _ hidx]

/-- `all_char` changes no byte of the lines but those it stores. -/
theorem allChar_unstored {flag : Nat} (h : ∀ st ∈ allCharStores k flag, j ≠ st.index) :
    (allChar k c flag).inputBuffer j = k.inputBuffer j := by
  match flag, h with
  | 0, _ => rfl
  | 1, h =>
    rw [(sameLines_allChar_one k c).buffer]
    exact appendChar_unstored (h _ (List.mem_singleton.mpr rfl))
  | 2, h =>
    rw [(sameLines_allChar_two k c).buffer]
    exact appendChar_unstored (h _ (List.mem_singleton.mpr rfl))
  | _ + 3, _ => rfl

/-- `new_line_char` changes no byte of the lines but those it stores, and the row entered. -/
theorem newLineChar_unstored {flag : Nat} (h : ∀ st ∈ newLineCharStores k flag, j ≠ st.index)
    (hentered : ∀ st ∈ newLineCharStores k flag, ∀ i < lineBufferSize, j ≠ inputIndex st.term enteredLine i) :
    (newLineChar k flag).inputBuffer j = k.inputBuffer j := by
  match flag, h, hentered with
  | 0, _, _ => rfl
  | 1, h, hentered =>
    rw [newLineCharStores] at h hentered
    rw [(sameLines_newLineChar_one k).buffer]
    have hkept := enterLine_unstored h (hentered ⟨k.dispTerm, k.currIdx k.dispTerm⟩ List.mem_cons_self)
    exact hkept
  | 2, h, hentered =>
    rw [newLineCharStores] at h hentered
    rw [(sameLines_newLineChar_two k).buffer]
    have hkept := enterLine_unstored h (hentered ⟨k.currTerm, k.currIdx k.currTerm⟩ List.mem_cons_self)
    exact hkept
  | _ + 3, _, _ => rfl

/-- `backspace_char` changes no byte of the lines but those it stores. -/
theorem backspaceChar_unstored (h : ∀ st ∈ backspaceCharStores k, j ≠ st.index) :
    (backspaceChar k).inputBuffer j = k.inputBuffer j := by
  unfold backspaceCharStores at h
  by_cases hback : k.readFlag k.dispTerm = true ∧ k.currIdx k.dispTerm > 0
  · rw [if_pos hback] at h
    rw [(sameLines_backspaceChar hback.1 hback.2).buffer]
    exact set_other _ _ (h _ (List.mem_singleton.mpr rfl))
  · unfold backspaceChar
    rw [if_neg hback]

/-- A character put out changes no byte of the lines but those stored, and the row entered if it ends the line. -/
theorem putcAs_unstored {flag : Nat} (h : ∀ st ∈ k.putcAsStores c flag, j ≠ st.index)
    (hentered : EndsLine c → ∀ st ∈ k.putcAsStores c flag, ∀ i < lineBufferSize, j ≠ inputIndex st.term enteredLine i) :
    (k.putcAs c flag).inputBuffer j = k.inputBuffer j := by
  unfold Console.putcAsStores at h hentered
  unfold Console.putcAs
  by_cases hnl : c = 0x0A ∨ c = 0x0D
  · rw [if_pos hnl] at h hentered ⊢
    exact newLineChar_unstored h (hentered hnl)
  · rw [if_neg hnl] at h ⊢
    by_cases hback : c = backspaceASCII ∧ k.charFromKB = true ∧ k.readFlag k.dispTerm = true
    · rw [if_pos hback] at h ⊢
      exact backspaceChar_unstored h
    · rw [if_neg hback] at h ⊢
      exact allChar_unstored h

/-- `terminal_putc` changes nothing of `input_buffer` but what its stores name, and an `ENTERED_LINE` row when a line ends. -/
theorem terminalPutc_unstored (h : ∀ st ∈ terminalPutcStores k c, j ≠ st.index)
    (hentered : EndsLine c → ∀ st ∈ terminalPutcStores k c, ∀ i < lineBufferSize, j ≠ inputIndex st.term enteredLine i) :
    (terminalPutc k c).inputBuffer j = k.inputBuffer j := by
  unfold terminalPutcStores at h hentered
  unfold terminalPutc
  dsimp only at h hentered ⊢
  by_cases heq : k.currTerm = k.dispTerm
  · rw [if_pos heq] at h hentered ⊢
    by_cases hflags : (k.readFlag k.currTerm || k.writeFlag k.currTerm) = true
    · rw [if_pos hflags] at h hentered ⊢
      exact putcAs_unstored h hentered
    · rw [if_neg hflags]
  · rw [if_neg heq] at h hentered ⊢
    by_cases hflag : k.putcFlag = 1 ∨ k.putcFlag = 2
    · rw [if_pos hflag] at h hentered ⊢
      exact putcAs_unstored h hentered
    · rw [if_neg hflag]

/-! ### Output -/

/-- In an output call no character is taken for a backspace. -/
theorem putcAsStores_writing (h : Writing k) (c : UInt8) (flag : Nat) :
    k.putcAsStores c flag = if EndsLine c then newLineCharStores k flag else allCharStores k flag := by
  have hback : ¬(c = backspaceASCII ∧ k.charFromKB = true ∧ k.readFlag k.dispTerm = true) := fun hb => by simp [h.fromKB] at hb
  unfold Console.putcAsStores
  rw [if_neg hback]
  rfl

/-- In an output call a character is stored on the line of the running terminal, which is cleared if the character ends it. -/
theorem putcStores_writing (h : Writing k) (c : UInt8) : terminalPutcStores k c =
    ⟨k.currTerm, k.currIdx k.currTerm⟩ :: if EndsLine c then lineCleared k.currTerm else [] := by
  unfold terminalPutcStores
  dsimp only
  by_cases heq : k.currTerm = k.dispTerm
  · rw [if_pos heq, h.write, Bool.or_true, if_pos rfl, putcAsStores_writing h, newLineCharStores, allCharStores, heq]
    exact (apply_ite (List.cons _) (EndsLine c) _ _).symm
  · rw [if_neg heq, putcFlag_writing h (fun he => heq he.symm), if_pos (Or.inr rfl), putcAsStores_writing h, newLineCharStores,
      allCharStores]
    exact (apply_ite (List.cons _) (EndsLine c) _ _).symm

/-- Its store is in the row when the line has room. -/
theorem inBounds_putc (h : Writing k) (c : UInt8) :
    InBounds (terminalPutcStores k c) ↔ k.currIdx k.currTerm < lineBufferSize := by
  rw [putcStores_writing h, inBounds_cons, and_iff_left]
  split
  · exact inBounds_cleared _
  · exact inBounds_nil

/-- In an output call the line grows by one character, or starts anew. -/
theorem currIdx_putc (h : Writing k) (c : UInt8) :
    (terminalPutc k c).currIdx k.currTerm = if EndsLine c then 0 else k.currIdx k.currTerm + 1 := by
  rw [(putc_lines h c).idx]
  by_cases hends : EndsLine c
  · have hor : c = 0x0A ∨ c = 0x0D := hends
    rw [if_pos hends, if_pos hor]
    exact Function.update_self k.currTerm _ k.currIdx
  · have hor : ¬(c = 0x0A ∨ c = 0x0D) := hends
    rw [if_neg hends, if_neg hor]
    exact Function.update_self k.currTerm _ k.currIdx

/-- `terminal_reset_buffer` takes the line back to its start. -/
theorem currIdx_reset (k : Console) : (terminalResetBuffer k).currIdx k.currTerm = 0 := Function.update_self _ _ _

/-- `terminal_puts` leaves an empty line. -/
theorem currIdx_puts (h : Ready k) (s : List UInt8) : (terminalPuts k s).currIdx k.currTerm = 0 := by
  have hcurr := (prints_putsLoop s 0 (writing_setFlags h)).flags.terms.curr
  have hreset := currIdx_reset (terminalPutsLoop (k.setFlags false true) s 0)
  rw [hcurr] at hreset
  exact hreset

end LineStoresAux

end ThreeTermOS
