import Mathlib.Data.List.GetD
import ThreeTermOS.Lemmas.ConsoleInv

/-!
# The lines being typed

A key and a character of output change the line being typed, the line entered and the flags of reading of one terminal at most, as
long as that line stays in its two rows of `input_buffer`. `KeyLines` lists what a key does to them, whatever it shows.
-/

namespace ThreeTermOS

open Bytes

/-- The input state of a terminal is the same in two consoles. -/
structure SameInput (k k' : Console) (t : Term) : Prop where
  buffer : ∀ i < 2 * lineBufferSize, k'.inputBuffer (inputIndex t currLine i) = k.inputBuffer (inputIndex t currLine i)
  idx : k'.currIdx t = k.currIdx t
  enter : k'.enterFlag t = k.enterFlag t
  read : k'.readFlag t = k.readFlag t
  write : k'.writeFlag t = k.writeFlag t

/-- The input of a terminal is what it is. -/
theorem SameInput.refl (k : Console) (t : Term) : SameInput k k t := ⟨fun _ _ => rfl, rfl, rfl, rfl, rfl⟩

/-- It stays over two changes in a row. -/
theorem SameInput.trans {k k' k'' : Console} {t : Term} (h : SameInput k k' t) (h' : SameInput k' k'' t) : SameInput k k'' t :=
  ⟨fun i hi => (h'.buffer i hi).trans (h.buffer i hi), h'.idx.trans h.idx, h'.enter.trans h.enter, h'.read.trans h.read,
    h'.write.trans h.write⟩

/-- The line being typed on a terminal, and the one entered, are empty. -/
structure LineClear (k : Console) (t : Term) : Prop where
  buffer : ∀ i < 2 * lineBufferSize, k.inputBuffer (inputIndex t currLine i) = 0
  idx : k.currIdx t = 0

/-- The two rows of a terminal in `input_buffer`. -/
def InRows (t : Term) (j : Nat) : Prop := inputIndex t currLine 0 ≤ j ∧ j < inputIndex t currLine 0 + 2 * lineBufferSize

/-- The lines and the flags of reading are the same for all terminals. -/
structure SameLines (k k' : Console) : Prop where
  buffer : k'.inputBuffer = k.inputBuffer
  idx : k'.currIdx = k.currIdx
  enter : k'.enterFlag = k.enterFlag
  read : k'.readFlag = k.readFlag

/-- The format ends within a line, and not in a conversion. -/
def Short (format : CPtr) : Prop :=
  ∃ len < lineBufferSize, format len = 0 ∧ format (len - 1) ≠ 0x25 ∧ format (len - 1) ≠ 0x23

/-- The key clears the screen. -/
def Clears (k : Kernel) (c : UInt8) : Prop :=
  responds c = true ∧ (k.keys.update c).ctrl = true ∧ scanToAscii false c = 0x6C

/-- The key puts a character into the line being typed on the displayed terminal, which is in a read. -/
structure Types (f : Keys) (c : UInt8) (k : Console) : Prop where
  responds : responds c = true
  ctrl : f.ctrl = false
  char : displayChar f c ≠ 0
  read : k.readFlag k.dispTerm = true

instance (t : Term) (j : Nat) : Decidable (InRows t j) := inferInstanceAs (Decidable (_ ∧ _))

instance (format : CPtr) : Decidable (Short format) := inferInstanceAs (Decidable (∃ len < lineBufferSize, _ ∧ _ ∧ _))

instance (k : Kernel) (c : UInt8) : Decidable (Clears k c) := inferInstanceAs (Decidable (_ ∧ _))

instance (f : Keys) (c : UInt8) (k : Console) : Decidable (Types f c k) :=
  decidable_of_iff (responds c = true ∧ f.ctrl = false ∧ displayChar f c ≠ 0 ∧ k.readFlag k.dispTerm = true)
    ⟨fun h => ⟨h.1, h.2.1, h.2.2.1, h.2.2.2⟩, fun h => ⟨h.responds, h.ctrl, h.char, h.read⟩⟩

/-- The line on a terminal entered, and a read that waits for it told. -/
def lineEntered (k : Console) (d : Term) : Console :=
  { k.enterLine d with currIdx := Function.update k.currIdx d 0, enterFlag := Function.update k.enterFlag d true }

/-- The last character of a line erased. -/
def lineErased (k : Console) (d : Term) : Console :=
  { k with
    inputBuffer := set k.inputBuffer (inputIndex d currLine (k.currIdx d - 1)) 0
    currIdx := Function.update k.currIdx d (k.currIdx d - 1) }

/-- The characters of the line being typed. -/
def typedLine (k : Console) (t : Term) : List UInt8 :=
  (List.range (k.currIdx t)).map (fun i => k.inputBuffer (inputIndex t currLine i))

/-- What a key does to the lines. -/
inductive KeyLines (k : Console) (f : Keys) (c : UInt8) (k' : Console) : Prop where
  | none (same : SameLines k k')
  | clear (key : responds c = true ∧ f.ctrl = true ∧ scanToAscii false c = 0x6C)
      (same : SameLines { terminalResetBuffer k with enterFlag := Function.update k.enterFlag k.dispTerm false } k')
  | enter (types : Types f c k) (char : displayChar f c = 0x0A ∨ displayChar f c = 0x0D)
      (same : SameLines (lineEntered k k.dispTerm) k')
  | erase (types : Types f c k) (char : displayChar f c = backspaceASCII) (idx : 0 < k.currIdx k.dispTerm)
      (same : SameLines (lineErased k k.dispTerm) k')
  | append (types : Types f c k) (char : displayChar f c ≠ 0x0A ∧ displayChar f c ≠ 0x0D ∧ displayChar f c ≠ backspaceASCII)
      (same : SameLines (k.appendChar k.dispTerm (displayChar f c)) k')

namespace InputAux

open RoutingAux ScreensAux OutputAux

variable {k k' : Console} {t u : Term} {f : Keys} {c : UInt8}

/-! ### Where a line is -/

/-- An index below the length of two rows lies in the rows of its terminal. -/
theorem inRows_index {i : Nat} (hi : i < 2 * lineBufferSize) : InRows t (inputIndex t currLine i) := by
  unfold InRows inputIndex currLine
  omega

/-- What lies outside the rows of a terminal is no place of its line. -/
theorem index_ne_of_not_inRows {i j : Nat} (hi : i < 2 * lineBufferSize) (hj : ¬InRows t j) : inputIndex t currLine i ≠ j := by
  rintro rfl
  exact hj (inRows_index hi)

/-- The rows of different terminals are apart. -/
theorem not_inRows_of_ne (hne : t ≠ u) {j : Nat} (hj : j < 2 * lineBufferSize) : ¬InRows t (inputIndex u currLine j) := by
  have hval : t.val ≠ u.val := fun he => hne (Fin.ext he)
  unfold InRows inputIndex currLine lineBufferSize at *
  omega

/-- The row entered follows the row being typed. -/
theorem enteredLine_eq (t : Term) (i : Nat) : inputIndex t enteredLine i = inputIndex t currLine (lineBufferSize + i) := by
  unfold inputIndex enteredLine currLine
  omega

/-! ### The changes of one line, seen from another terminal -/

/-- Lines and flag that stay are the input that stays. -/
theorem sameInput_of_sameLines (h : SameLines k k') (hw : k'.writeFlag t = k.writeFlag t) : SameInput k k' t :=
  ⟨fun i _ => by rw [h.buffer], by rw [h.idx], by rw [h.enter], by rw [h.read], hw⟩

/-- A character stored on the line of another terminal, inside its rows. -/
theorem sameInput_appendChar (hne : t ≠ u) (hout : ¬InRows t (inputIndex u currLine (k.currIdx u))) (c : UInt8) :
    SameInput k (k.appendChar u c) t := by
  unfold Console.appendChar
  refine ⟨fun i hi => ?_, ?_, rfl, rfl, rfl⟩
  · exact set_other _ _ (index_ne_of_not_inRows hi hout)
  · exact Function.update_of_ne hne _ _

/-- A line entered on another terminal. -/
theorem sameInput_enterLine (hne : t ≠ u) (hout : ¬InRows t (inputIndex u currLine (k.currIdx u))) : SameInput k (k.enterLine u) t := by
  unfold Console.enterLine
  refine ⟨fun i hi => ?_, rfl, rfl, rfl, rfl⟩
  have hval : t.val ≠ u.val := fun he => hne (Fin.ext he)
  have hcurr : ¬(inputIndex u currLine 0 ≤ inputIndex t currLine i ∧
      inputIndex t currLine i < inputIndex u currLine 0 + lineBufferSize) := by
    unfold inputIndex currLine lineBufferSize at *
    omega
  have hentered : ¬(inputIndex u enteredLine 0 ≤ inputIndex t currLine i ∧
      inputIndex t currLine i < inputIndex u enteredLine 0 + lineBufferSize) := by
    unfold inputIndex currLine enteredLine lineBufferSize at *
    omega
  dsimp only
  rw [fill_of_not_mem _ _ hcurr, fill_of_not_mem _ _ hentered, set_other _ _ (index_ne_of_not_inRows hi hout)]

/-- A line entered on another terminal, with its flags. -/
theorem sameInput_lineEntered (hne : t ≠ u) (hout : ¬InRows t (inputIndex u currLine (k.currIdx u))) : SameInput k (lineEntered k u) t :=
  ⟨(sameInput_enterLine hne hout).buffer, Function.update_of_ne hne _ _, Function.update_of_ne hne _ _, rfl, rfl⟩

/-- A character erased on another terminal. -/
theorem sameInput_lineErased (hne : t ≠ u) (hout : ¬InRows t (inputIndex u currLine (k.currIdx u - 1))) :
    SameInput k (lineErased k u) t := by
  unfold lineErased
  refine ⟨fun i hi => ?_, ?_, rfl, rfl, rfl⟩
  · exact set_other _ _ (index_ne_of_not_inRows hi hout)
  · exact Function.update_of_ne hne _ _

/-- `terminal_reset_buffer` empties the lines of the running terminal. -/
theorem lineClear_resetBuffer (k : Console) : LineClear (terminalResetBuffer k) k.currTerm := by
  unfold terminalResetBuffer
  refine ⟨fun i hi => ?_, Function.update_self _ _ _⟩
  dsimp only
  have hentered : inputIndex k.currTerm enteredLine 0 = inputIndex k.currTerm currLine lineBufferSize := by
    unfold inputIndex currLine enteredLine lineBufferSize
    omega
  rw [hentered]
  unfold inputIndex currLine
  by_cases hline : i < lineBufferSize
  · rw [fill_of_not_mem _ _ (by omega), fill_of_mem _ _ (by omega) (by omega)]
  · rw [fill_of_mem _ _ (by omega) (by omega)]

/-- `terminal_reset_buffer` leaves the input state of the other terminals. -/
theorem sameInput_resetBuffer (hne : t ≠ k.currTerm) : SameInput k (terminalResetBuffer k) t := by
  have hval : t.val ≠ k.currTerm.val := fun he => hne (Fin.ext he)
  unfold terminalResetBuffer
  refine ⟨fun i hi => ?_, Function.update_of_ne hne _ _, rfl, rfl, rfl⟩
  dsimp only
  rw [fill_of_not_mem, fill_of_not_mem]
  · unfold inputIndex currLine lineBufferSize at *
    omega
  · unfold inputIndex currLine enteredLine lineBufferSize at *
    omega

/-! ### The characters of a line -/

/-- The typed line is as long as its index says. -/
theorem typedLine_length (k : Console) (t : Term) : (typedLine k t).length = k.currIdx t := by
  unfold typedLine
  rw [List.length_map, List.length_range]

/-- With the index at the start nothing is typed. -/
theorem typedLine_of_idx_zero (h : k.currIdx t = 0) : typedLine k t = [] := by
  unfold typedLine
  rw [h]
  rfl

/-- The typed line depends on the lines alone. -/
theorem typedLine_congr (h : SameLines k k') (t : Term) : typedLine k' t = typedLine k t := by
  unfold typedLine
  rw [h.idx, h.buffer]

/-- A character stored is the last of the line. -/
theorem typedLine_appendChar (k : Console) (t : Term) (c : UInt8) : typedLine (k.appendChar t c) t = typedLine k t ++ [c] := by
  unfold typedLine Console.appendChar
  dsimp only
  rw [Function.update_self, List.range_succ, List.map_append, List.map_singleton, set_self]
  congr 1
  refine List.map_congr_left (fun i hi => set_other _ _ ?_)
  have hlt := List.mem_range.mp hi
  unfold inputIndex
  omega

/-- The line before the last character was erased. -/
theorem typedLine_lineErased (h : 0 < k.currIdx t) :
    typedLine k t = typedLine (lineErased k t) t ++ [k.inputBuffer (inputIndex t currLine (k.currIdx t - 1))] := by
  unfold typedLine lineErased
  dsimp only
  rw [Function.update_self]
  obtain ⟨n, hn⟩ := Nat.exists_eq_add_of_lt h
  rw [Nat.zero_add] at hn
  rw [hn, Nat.add_sub_cancel, List.range_succ, List.map_append, List.map_singleton]
  congr 1
  refine List.map_congr_left (fun i hi => (set_other _ _ ?_).symm)
  have hlt := List.mem_range.mp hi
  unfold inputIndex
  omega

/-- The places of a row are told apart by their index. -/
theorem inputIndex_eq_iff {i j : Nat} : inputIndex t currLine i = inputIndex t currLine j ↔ i = j := by
  unfold inputIndex
  omega

/-- One character of a line set. -/
theorem set_index (m : CPtr) (i j : Nat) (c : UInt8) :
    set m (inputIndex t currLine j) c (inputIndex t currLine i) = if i = j then c else m (inputIndex t currLine i) := by
  by_cases hij : i = j
  · rw [if_pos hij, hij, set_self]
  · rw [if_neg hij, set_other _ _ (fun he => hij (inputIndex_eq_iff.mp he))]

/-- The characters of the line are the bytes of the row. -/
theorem typedLine_getD (k : Console) (t : Term) {i : Nat} (hi : i < k.currIdx t) (rest : List UInt8) :
    (typedLine k t ++ rest).getD i 0 = k.inputBuffer (inputIndex t currLine i) := by
  rw [List.getD_append _ _ _ _ (by rw [typedLine_length]; exact hi)]
  unfold typedLine
  rw [List.getD_eq_getElem _ _ (by rw [List.length_map, List.length_range]; exact hi), List.getElem_map, List.getElem_range]

/-- The line entered, after Enter. -/
theorem enterLine_entered (k : Console) (t : Term) {i : Nat} (hi : i < lineBufferSize) :
    (k.enterLine t).inputBuffer (inputIndex t enteredLine i) = (typedLine k t ++ [0x0A]).getD i 0 := by
  have hnot : ¬(inputIndex t currLine 0 ≤ inputIndex t enteredLine i ∧
      inputIndex t enteredLine i < inputIndex t currLine 0 + lineBufferSize) := by
    unfold inputIndex currLine enteredLine
    omega
  have hmem : inputIndex t enteredLine 0 ≤ inputIndex t enteredLine i := by
    unfold inputIndex
    omega
  have hoff : inputIndex t enteredLine i - inputIndex t enteredLine 0 = i := by
    unfold inputIndex
    omega
  unfold Console.enterLine
  dsimp only
  rw [fill_of_not_mem _ _ hnot, fill_of_mem _ _ hmem (by omega), hoff, set_index]
  by_cases hlt : i < k.currIdx t
  · rw [if_pos (by omega), if_neg (by omega), typedLine_getD k t hlt]
  · by_cases heq : i = k.currIdx t
    · rw [if_pos (by omega), if_pos heq, heq, ← typedLine_length k t, List.getD_append_right _ _ _ _ (Nat.le_refl _), Nat.sub_self]
      rfl
    · rw [if_neg (by omega), List.getD_eq_default]
      rw [List.length_append, typedLine_length]
      exact Nat.lt_of_le_of_ne (Nat.le_of_not_lt hlt) (fun he => heq he.symm)

/-- The line being typed, after Enter. -/
theorem enterLine_curr (k : Console) (t : Term) {i : Nat} (hi : i < lineBufferSize) :
    (k.enterLine t).inputBuffer (inputIndex t currLine i) = 0 := by
  have hmem : inputIndex t currLine 0 ≤ inputIndex t currLine i := by
    unfold inputIndex
    omega
  have hlt : inputIndex t currLine i < inputIndex t currLine 0 + lineBufferSize := by
    unfold inputIndex
    omega
  unfold Console.enterLine
  dsimp only
  rw [fill_of_mem _ _ hmem hlt]

/-! ### A character put out -/

/-- The screen moved on, as `all_char` and `new_line_char` do it, leaves the lines and the flags. -/
theorem settled_input {scroll : Console → Console} (hscroll : ∀ k, ∃ m, scroll k = { k with mem := m }) (k : Console) (d : Term)
    (xy : Nat × Nat) : ∃ m x y, settled scroll k d xy = { k with mem := m, termX := x, termY := y } := by
  unfold settled
  dsimp only
  split
  · obtain ⟨m, hm⟩ := hscroll (k.setCoords d xy)
    rw [hm]
    exact ⟨_, _, _, rfl⟩
  · exact ⟨_, _, _, rfl⟩

/-- The scroll of the displayed screen changes only memory. -/
theorem scrollDownDisp_mem (k : Console) : ∃ m, terminalScrollDownDisp k = { k with mem := m } := ⟨_, rfl⟩

/-- So does the scroll of a buffer. -/
theorem scrollDownCurr_mem (k : Console) : ∃ m, terminalScrollDownCurr k = { k with mem := m } := ⟨_, rfl⟩

/-- A character drawn on the displayed terminal, in both places. -/
def drawn (k : Console) (c : UInt8) : Console :=
  let d := k.dispTerm
  { k with mem := putCell (putCell k.mem video (k.termX d) (k.termY d) c) (videoBuffer d) (k.termX d) (k.termY d) c }

/-- `all_char` on the displayed terminal: draw, move the cursor, store. -/
theorem allChar_one_eq (k : Console) (c : UInt8) : allChar k c 1 =
    (terminalUpdateCursor (settled terminalScrollDownDisp (drawn k c) k.dispTerm
      (updateCoordsForward (k.termX k.dispTerm) (k.termY k.dispTerm)))).appendChar k.dispTerm c := rfl

/-- It stores the character on the displayed terminal's line. -/
theorem sameLines_allChar_one (k : Console) (c : UInt8) : SameLines (k.appendChar k.dispTerm c) (allChar k c 1) := by
  obtain ⟨m, x, y, hsettled⟩ := settled_input scrollDownDisp_mem (drawn k c) k.dispTerm
    (updateCoordsForward (k.termX k.dispTerm) (k.termY k.dispTerm))
  rw [allChar_one_eq, hsettled]
  exact ⟨rfl, rfl, rfl, rfl⟩

/-- On a terminal not displayed it stores the character on the running terminal's line. -/
theorem sameLines_allChar_two (k : Console) (c : UInt8) : SameLines (k.appendChar k.currTerm c) (allChar k c 2) := by
  have heq : allChar k c 2 =
      (settled terminalScrollDownCurr
        { k with mem := putCell k.mem (videoBuffer k.currTerm) (k.termX k.currTerm) (k.termY k.currTerm) c } k.currTerm
        (updateCoordsForward (k.termX k.currTerm) (k.termY k.currTerm))).appendChar k.currTerm c := rfl
  obtain ⟨m, x, y, hsettled⟩ := settled_input scrollDownCurr_mem
    { k with mem := putCell k.mem (videoBuffer k.currTerm) (k.termX k.currTerm) (k.termY k.currTerm) c } k.currTerm
    (updateCoordsForward (k.termX k.currTerm) (k.termY k.currTerm))
  rw [heq, hsettled]
  exact ⟨rfl, rfl, rfl, rfl⟩

/-- The end of `new_line_char` on the displayed terminal, with a read there or not. -/
theorem sameLines_newLineChar_one (k : Console) :
    SameLines { k.enterLine k.dispTerm with
      currIdx := Function.update k.currIdx k.dispTerm 0
      enterFlag := if k.readFlag k.dispTerm then Function.update k.enterFlag k.dispTerm true else k.enterFlag } (newLineChar k 1) := by
  obtain ⟨m, x, y, hsettled⟩ := settled_input scrollDownDisp_mem (k.enterLine k.dispTerm) k.dispTerm (0, k.termY k.dispTerm + 1)
  have hread : (k.enterLine k.dispTerm).readFlag = k.readFlag := rfl
  have henter : (k.enterLine k.dispTerm).enterFlag = k.enterFlag := rfl
  have hidx : (k.enterLine k.dispTerm).currIdx = k.currIdx := rfl
  rw [newLineChar_one_eq, hsettled, ← hread, ← henter, ← hidx]
  generalize k.enterLine k.dispTerm = k₁
  unfold lineTaken terminalUpdateCursor
  dsimp only
  split
  · exact ⟨rfl, rfl, rfl, rfl⟩
  · exact ⟨rfl, rfl, rfl, rfl⟩

/-- A new line on a terminal not displayed enters its line. -/
theorem sameLines_newLineChar_two (k : Console) :
    SameLines { k.enterLine k.currTerm with currIdx := Function.update k.currIdx k.currTerm 0 } (newLineChar k 2) := by
  have heq : newLineChar k 2 =
      { settled terminalScrollDownCurr (k.enterLine k.currTerm) k.currTerm (0, k.termY k.currTerm + 1) with
        currIdx := Function.update (settled terminalScrollDownCurr (k.enterLine k.currTerm) k.currTerm
          (0, k.termY k.currTerm + 1)).currIdx k.currTerm 0 } := rfl
  obtain ⟨m, x, y, hsettled⟩ := settled_input scrollDownCurr_mem (k.enterLine k.currTerm) k.currTerm (0, k.termY k.currTerm + 1)
  rw [heq, hsettled]
  exact ⟨rfl, rfl, rfl, rfl⟩

/-- A backspace in a read takes the last character off the line. -/
theorem sameLines_backspaceChar (hread : k.readFlag k.dispTerm = true) (hidx : 0 < k.currIdx k.dispTerm) :
    SameLines (lineErased k k.dispTerm) (backspaceChar k) := by
  unfold backspaceChar
  dsimp only
  rw [if_pos ⟨hread, hidx⟩]
  unfold lineErased terminalUpdateCursor Console.setCoords
  dsimp only
  refine ⟨?_, rfl, rfl, rfl⟩
  dsimp only
  rw [Function.update_self]

/-! ### Keys -/

/-- A key that clears, as a whole. -/
theorem key_clears (hr : responds c = true) (hctrl : f.ctrl = true) (hl : scanToAscii false c = 0x6C) :
    k.key f c = { terminalClear (heard k) with charFromKB := false } := by
  rw [key_eq]
  unfold Console.respond
  rw [if_pos hr, if_pos hctrl, if_pos hl]

/-- What a key that shows a character in a read does. -/
theorem key_types (h : Listening k) (ht : Types f c k) : k.key f c = { (heard k).putcAs (displayChar f c) 1 with charFromKB := false } := by
  rw [key_eq]
  unfold Console.respond
  rw [if_pos ht.responds, if_neg (by rw [ht.ctrl]; decide), if_pos ht.char, terminalPutc_heard h, if_pos ht.read]

/-- Enter, in a read. -/
theorem key_enters (h : Listening k) (ht : Types f c k) (hnl : displayChar f c = 0x0A ∨ displayChar f c = 0x0D) :
    SameLines (lineEntered k k.dispTerm) (k.key f c) := by
  have hreading : (heard k).readFlag (heard k).dispTerm = true := ht.read
  have hline := sameLines_newLineChar_one (heard k)
  rw [if_pos hreading] at hline
  rw [key_types h ht]
  unfold Console.putcAs
  rw [if_pos hnl]
  exact ⟨hline.buffer, hline.idx, hline.enter, hline.read⟩

/-- A character other than Enter, in a read: it is appended, or it erases the last one, if there is one. -/
theorem key_edits (h : Listening k) (ht : Types f c k) (hnl : ¬(displayChar f c = 0x0A ∨ displayChar f c = 0x0D)) :
    SameLines (if displayChar f c = backspaceASCII then (if 0 < k.currIdx k.dispTerm then lineErased k k.dispTerm else k)
      else k.appendChar k.dispTerm (displayChar f c)) (k.key f c) := by
  have hkey := key_types h ht
  unfold Console.putcAs at hkey
  rw [if_neg hnl] at hkey
  by_cases hback : displayChar f c = backspaceASCII
  · rw [if_pos ⟨hback, rfl, ht.read⟩] at hkey
    rw [if_pos hback, hkey]
    by_cases hidx : 0 < k.currIdx k.dispTerm
    · rw [if_pos hidx]
      have hline := sameLines_backspaceChar (k := heard k) ht.read hidx
      exact ⟨hline.buffer, hline.idx, hline.enter, hline.read⟩
    · have hnone : backspaceChar (heard k) = heard k := if_neg (fun hc => hidx hc.2)
      rw [if_neg hidx, hnone]
      exact ⟨rfl, rfl, rfl, rfl⟩
  · rw [if_neg (fun hc => hback hc.1)] at hkey
    have hline := sameLines_allChar_one (heard k) (displayChar f c)
    rw [if_neg hback, hkey]
    exact ⟨hline.buffer, hline.idx, hline.enter, hline.read⟩

/-- A key that neither clears nor shows a character in a read leaves the lines. -/
theorem key_idle (h : IsCharacter f c → Listening k) (hno : ¬Types f c k)
    (hclear : ¬(responds c = true ∧ f.ctrl = true ∧ scanToAscii false c = 0x6C)) : SameLines k (k.key f c) := by
  rw [key_eq]
  unfold Console.respond
  by_cases hr : responds c = true
  · rw [if_pos hr]
    by_cases hctrl : f.ctrl = true
    · rw [if_pos hctrl, if_neg (fun hl => hclear ⟨hr, hctrl, hl⟩)]
      exact ⟨rfl, rfl, rfl, rfl⟩
    · rw [if_neg hctrl]
      by_cases hd : displayChar f c ≠ 0
      · have hchar : IsCharacter f c := ⟨hr, Bool.not_eq_true _ ▸ hctrl, hd⟩
        have hread : ¬k.readFlag k.dispTerm = true := fun hread => hno ⟨hchar.1, hchar.2.1, hd, hread⟩
        rw [if_pos hd, terminalPutc_heard (h hchar), if_neg hread]
        exact ⟨rfl, rfl, rfl, rfl⟩
      · rw [if_neg hd]
        exact ⟨rfl, rfl, rfl, rfl⟩
  · rw [if_neg hr]
    exact ⟨rfl, rfl, rfl, rfl⟩

/-- A key does to the lines what the list says, also between the characters of an output call, unless it is a character typed while
the displayed terminal runs and is within one. -/
theorem key_lines (f : Keys) (c : UInt8) (h : IsCharacter f c → Listening k) : KeyLines k f c (k.key f c) := by
  by_cases hclear : responds c = true ∧ f.ctrl = true ∧ scanToAscii false c = 0x6C
  · refine .clear hclear ?_
    rw [key_clears hclear.1 hclear.2.1 hclear.2.2]
    exact ⟨rfl, rfl, rfl, rfl⟩
  · by_cases ht : Types f c k
    · have hlistening := h ⟨ht.responds, ht.ctrl, ht.char⟩
      by_cases hnl : displayChar f c = 0x0A ∨ displayChar f c = 0x0D
      · exact .enter ht hnl (key_enters hlistening ht hnl)
      · have hedits := key_edits hlistening ht hnl
        by_cases hback : displayChar f c = backspaceASCII
        · rw [if_pos hback] at hedits
          by_cases hidx : 0 < k.currIdx k.dispTerm
          · rw [if_pos hidx] at hedits
            exact .erase ht hback hidx hedits
          · rw [if_neg hidx] at hedits
            exact .none hedits
        · rw [if_neg hback] at hedits
          exact .append ht ⟨fun he => hnl (Or.inl he), fun he => hnl (Or.inr he), hback⟩ hedits
    · exact .none (key_idle h ht hclear)

/-- A key other than the one that clears leaves the input state of a terminal that is not displayed, if it stores outside its rows. -/
theorem sameInput_of_keyLines (h : KeyLines k f c k') (hw : k'.writeFlag t = k.writeFlag t)
    (hclear : ¬(responds c = true ∧ f.ctrl = true ∧ scanToAscii false c = 0x6C)) (hne : t ≠ k.dispTerm)
    (hout : Types f c k → ¬InRows t (inputIndex k.dispTerm currLine (k.currIdx k.dispTerm)) ∧
      ¬InRows t (inputIndex k.dispTerm currLine (k.currIdx k.dispTerm - 1))) : SameInput k k' t := by
  cases h with
  | none same => exact sameInput_of_sameLines same hw
  | clear key same => exact absurd key hclear
  | enter types char same => exact (sameInput_lineEntered hne (hout types).1).trans (sameInput_of_sameLines same hw)
  | erase types char idx same => exact (sameInput_lineErased hne (hout types).2).trans (sameInput_of_sameLines same hw)
  | append types char same => exact (sameInput_appendChar hne (hout types).1 _).trans (sameInput_of_sameLines same hw)

/-! ### Output -/

/-- A character of output goes to the line of the running terminal. -/
theorem putc_lines (h : Writing k) (c : UInt8) :
    SameLines (if c = 0x0A ∨ c = 0x0D then { k.enterLine k.currTerm with currIdx := Function.update k.currIdx k.currTerm 0 }
      else k.appendChar k.currTerm c) (terminalPutc k c) := by
  rw [terminalPutc_writing h]
  unfold Console.putcAs
  by_cases hnl : c = 0x0A ∨ c = 0x0D
  · rw [if_pos hnl, if_pos hnl]
    by_cases heq : k.currTerm = k.dispTerm
    · rw [if_pos heq]
      have hline := sameLines_newLineChar_one k
      rw [← heq, if_neg (by rw [h.read]; decide)] at hline
      exact ⟨hline.buffer, hline.idx, hline.enter, hline.read⟩
    · rw [if_neg heq]
      have hline := sameLines_newLineChar_two k
      exact ⟨hline.buffer, hline.idx, hline.enter, hline.read⟩
  · rw [if_neg hnl, if_neg hnl, if_neg (by simp [h.fromKB])]
    by_cases heq : k.currTerm = k.dispTerm
    · rw [if_pos heq]
      have hline := sameLines_allChar_one k c
      rw [← heq] at hline
      exact ⟨hline.buffer, hline.idx, hline.enter, hline.read⟩
    · rw [if_neg heq]
      have hline := sameLines_allChar_two k c
      exact ⟨hline.buffer, hline.idx, hline.enter, hline.read⟩

/-- The lines of the other terminals are as they were, and that of the running one has at most `n` characters. -/
structure Outputs (k k' : Console) (n : Nat) : Prop where
  flags : SameFlags k k'
  others : ∀ t, t ≠ k.currTerm → SameInput k k' t
  idx : k'.currIdx k.currTerm ≤ n

/-- Output after output, on the line the first leaves. -/
theorem Outputs.trans {k k' k'' : Console} {n n' : Nat} (h : Outputs k k' n) (h' : Outputs k' k'' n') : Outputs k k'' n' := by
  have hcurr := h.flags.terms.curr
  refine ⟨h.flags.trans h'.flags, fun t ht => ?_, ?_⟩
  · exact (h.others t ht).trans (h'.others t (by rw [hcurr]; exact ht))
  · rw [← hcurr]
    exact h'.idx

/-- No output leaves everything. -/
theorem Outputs.refl {n : Nat} (h : k.currIdx k.currTerm ≤ n) : Outputs k k n := ⟨SameFlags.refl k, fun t _ => SameInput.refl k t, h⟩

/-- A bound on the line may be raised. -/
theorem Outputs.mono {n n' : Nat} (h : Outputs k k' n) (hn : n ≤ n') : Outputs k k' n' := ⟨h.flags, h.others, Nat.le_trans h.idx hn⟩

/-- One character lengthens the running terminal's line by one at most. -/
theorem outputs_putc {n : Nat} (h : Writing k) (hidx : k.currIdx k.currTerm ≤ n) (hn : n < 2 * lineBufferSize) (c : UInt8) :
    Outputs k (terminalPutc k c) (n + 1) := by
  have hflags := terminalPutc_sameFlags h c
  have hline := putc_lines h c
  have hwrite : ∀ t, (terminalPutc k c).writeFlag t = k.writeFlag t := fun t => by rw [hflags.write]
  split at hline
  · refine ⟨hflags, fun t ht => ?_, ?_⟩
    · have henter := sameInput_enterLine ht (not_inRows_of_ne ht (show k.currIdx k.currTerm < 2 * lineBufferSize by omega))
      have hnext : SameInput k { k.enterLine k.currTerm with currIdx := Function.update k.currIdx k.currTerm 0 } t :=
        ⟨henter.buffer, Function.update_of_ne ht _ _, rfl, rfl, rfl⟩
      exact hnext.trans (sameInput_of_sameLines hline (hwrite t))
    · rw [hline.idx]
      dsimp only
      rw [Function.update_self]
      exact Nat.zero_le _
  · refine ⟨hflags, fun t ht => ?_, ?_⟩
    · have happend := sameInput_appendChar ht (not_inRows_of_ne ht (show k.currIdx k.currTerm < 2 * lineBufferSize by omega)) c
      exact happend.trans (sameInput_of_sameLines hline (hwrite t))
    · rw [hline.idx]
      unfold Console.appendChar
      dsimp only
      rw [Function.update_self]
      omega

/-- `terminal_reset_buffer` empties the line. -/
theorem outputs_reset (k : Console) : Outputs k (terminalResetBuffer k) 0 :=
  ⟨terminalResetBuffer_sameFlags k, fun _ ht => sameInput_resetBuffer ht, Nat.le_of_eq (Function.update_self _ _ _)⟩

/-- The loop of `terminal_write` resets the line before it is full. -/
theorem outputs_writeLoop (bytes : List UInt8) :
    ∀ {k}, Writing k → k.currIdx k.currTerm < lineBufferSize → ∃ n, Outputs k (terminalWriteLoop k bytes) n := by
  induction bytes with
  | nil => exact fun _ hidx => ⟨_, Outputs.refl (Nat.le_of_lt hidx)⟩
  | cons c bytes ih =>
    intro k h hidx
    rw [terminalWriteLoop]
    have hreset : ∃ n, n + 1 < lineBufferSize ∧
        Outputs k (if k.currIdx k.currTerm % lineBufferSize = lineBufferSize - 1 then terminalResetBuffer k else k) n := by
      split
      · exact ⟨0, by decide, outputs_reset k⟩
      · rename_i hroom
        rw [Nat.mod_eq_of_lt hidx] at hroom
        exact ⟨k.currIdx k.currTerm, by omega, Outputs.refl (Nat.le_refl _)⟩
    obtain ⟨n, hn, hreset⟩ := hreset
    generalize (if k.currIdx k.currTerm % lineBufferSize = lineBufferSize - 1 then terminalResetBuffer k else k) = k₁ at hreset ⊢
    have hw := h.congr hreset.flags
    have hcurr := hreset.flags.terms.curr
    have hputc := outputs_putc (n := n) hw (by rw [hcurr]; exact hreset.idx) (by omega) c
    have hw' := hw.congr hputc.flags
    have hidx' : (terminalPutc k₁ c).currIdx (terminalPutc k₁ c).currTerm < lineBufferSize := by
      rw [hputc.flags.terms.curr]
      exact Nat.lt_of_le_of_lt hputc.idx hn
    obtain ⟨n', hrest⟩ := ih hw' hidx'
    exact ⟨n', hreset.trans (hputc.trans hrest)⟩

/-- The loop of `terminal_puts` counts its own characters: to those it finds in the line it adds one line at most. -/
theorem outputs_putsLoop {m : Nat} (hm : m < lineBufferSize) (bytes : List UInt8) :
    ∀ {k} index, Writing k → k.currIdx k.currTerm ≤ m + 1 + index % lineBufferSize →
      ∃ n, Outputs k (terminalPutsLoop k bytes index) n := by
  induction bytes with
  | nil => exact fun _ _ hidx => ⟨_, Outputs.refl hidx⟩
  | cons c bytes ih =>
    intro k index h hidx
    rw [terminalPutsLoop]
    have hreset : ∃ n, n < 2 * lineBufferSize ∧ n + 1 ≤ m + 1 + (index + 1) % lineBufferSize ∧
        Outputs k (if index % lineBufferSize = lineBufferSize - 1 then terminalResetBuffer k else k) n := by
      unfold lineBufferSize at hm hidx ⊢
      split
      · exact ⟨0, by omega, by omega, outputs_reset k⟩
      · exact ⟨m + 1 + index % 128, by omega, by omega, Outputs.refl hidx⟩
    obtain ⟨n, hroom, hn, hreset⟩ := hreset
    generalize (if index % lineBufferSize = lineBufferSize - 1 then terminalResetBuffer k else k) = k₁ at hreset ⊢
    have hw := h.congr hreset.flags
    have hputc := outputs_putc (n := n) hw (by rw [hreset.flags.terms.curr]; exact hreset.idx) hroom c
    have hidx' : (terminalPutc k₁ c).currIdx (terminalPutc k₁ c).currTerm ≤ m + 1 + (index + 1) % lineBufferSize := by
      rw [hputc.flags.terms.curr]
      exact Nat.le_trans hputc.idx hn
    obtain ⟨n', hrest⟩ := ih (index + 1) (hw.congr hputc.flags) hidx'
    exact ⟨n', hreset.trans (hputc.trans hrest)⟩

/-- The flags set, an output under way, and the line reset at its end. -/
theorem outputs_framed {n : Nat} (h : Outputs (k.setFlags false true) k' n) :
    Outputs k ((terminalResetBuffer k').setFlags (k.readFlag k.currTerm) (k.writeFlag k.currTerm)) 0 := by
  have hcurr : k'.currTerm = k.currTerm := h.flags.terms.curr
  have hreset := outputs_reset k'
  refine ⟨sameFlags_restored k (h.flags.trans (terminalResetBuffer_sameFlags k')), fun t ht => ?_, ?_⟩
  · have hset : SameInput k (k.setFlags false true) t :=
      ⟨fun _ _ => rfl, rfl, rfl, Function.update_of_ne ht _ _, Function.update_of_ne ht _ _⟩
    have hloop := h.others t ht
    have hres := hreset.others t (by rw [hcurr]; exact ht)
    have hback : SameInput (terminalResetBuffer k')
        ((terminalResetBuffer k').setFlags (k.readFlag k.currTerm) (k.writeFlag k.currTerm)) t := by
      refine ⟨fun _ _ => rfl, rfl, rfl, Function.update_of_ne ?_ _ _, Function.update_of_ne ?_ _ _⟩
      · rw [show (terminalResetBuffer k').currTerm = k.currTerm from hcurr]
        exact ht
      · rw [show (terminalResetBuffer k').currTerm = k.currTerm from hcurr]
        exact ht
    exact hset.trans (hloop.trans (hres.trans hback))
  · have hidx := hreset.idx
    rw [hcurr] at hidx
    exact hidx

/-- A short text that ends with no conversion begun is a short format. -/
theorem short_cstr {s : List UInt8}
    (h : s.length < lineBufferSize ∧ cstr s (s.length - 1) ≠ 0x25 ∧ cstr s (s.length - 1) ≠ 0x23) : Short (cstr s) :=
  ⟨s.length, h.1, cstr_of_le (Nat.le_refl _), h.2⟩

/-- A string, on a terminal with less than a line begun. -/
theorem outputs_puts (h : Ready k) {m : Nat} (hidx : k.currIdx k.currTerm ≤ m) (hm : m < lineBufferSize) (bytes : List UInt8) :
    Outputs k (terminalPuts k bytes) 0 := by
  have hstart : (k.setFlags false true).currIdx (k.setFlags false true).currTerm ≤ m + 1 + 0 % lineBufferSize :=
    Nat.le_trans hidx (by omega)
  obtain ⟨n, hloop⟩ := outputs_putsLoop hm bytes 0 (writing_setFlags h) hstart
  exact outputs_framed hloop

/-- The loop of `terminal_printf`, from any point of a format that ends within a line: a conversion begun is not at its end. -/
theorem outputs_printfLoop {format : CPtr} (args : Nat → PrintfArg) {len : Nat} (hlen : len < lineBufferSize)
    (hend : format len = 0) (hconv : format (len - 1) ≠ 0x25 ∧ format (len - 1) ≠ 0x23) (fuel : Nat) :
    ∀ {k} conv buf esp, Writing k → k.currIdx k.currTerm ≤ buf → buf ≤ len →
      (conv.isSome = true → format (buf - 1) = 0x25 ∨ format (buf - 1) = 0x23) →
      ∃ n, Outputs k (terminalPrintfLoop format args fuel k conv buf esp).1 n := by
  induction fuel with
  | zero => exact fun _ _ _ _ hidx _ _ => ⟨_, Outputs.refl hidx⟩
  | succ fuel ih =>
    intro k conv buf esp h hidx hbuf hbegun
    have hroom : buf < 2 * lineBufferSize := by
      unfold lineBufferSize at hlen ⊢
      omega
    have hgoes : ∀ {k₁ conv'} esp', buf < len → Outputs k k₁ (buf + 1) →
        (conv'.isSome = true → format buf = 0x25 ∨ format buf = 0x23) →
        ∃ n, Outputs k (terminalPrintfLoop format args fuel k₁ conv' (buf + 1) esp').1 n := by
      intro k₁ conv' esp' hlt hstep hbegun'
      have hidx' : k₁.currIdx k₁.currTerm ≤ buf + 1 := by
        rw [hstep.flags.terms.curr]
        exact hstep.idx
      obtain ⟨n, hrest⟩ := ih conv' (buf + 1) esp' (h.congr hstep.flags) hidx' hlt hbegun'
      exact ⟨n, hstep.trans hrest⟩
    cases conv with
    | none =>
      rw [terminalPrintfLoop]
      by_cases hstop : format buf = 0
      · rw [if_pos hstop]
        exact ⟨_, Outputs.refl hidx⟩
      · rw [if_neg hstop]
        have hlt : buf < len := Nat.lt_of_le_of_ne hbuf (fun he => hstop (he ▸ hend))
        have hreset : Outputs k (if buf % lineBufferSize = lineBufferSize - 1 then terminalResetBuffer k else k) buf := by
          split
          · exact (outputs_reset k).mono (Nat.zero_le _)
          · exact Outputs.refl hidx
        generalize (if buf % lineBufferSize = lineBufferSize - 1 then terminalResetBuffer k else k) = k₁ at hreset
        dsimp only
        by_cases hpercent : format buf = 0x25
        · rw [if_pos hpercent]
          exact hgoes _ hlt (hreset.mono (Nat.le_succ _)) (fun _ => Or.inl hpercent)
        · rw [if_neg hpercent]
          have hidx₁ : k₁.currIdx k₁.currTerm ≤ buf := by
            rw [hreset.flags.terms.curr]
            exact hreset.idx
          have hputc := outputs_putc (h.congr hreset.flags) hidx₁ hroom (format buf)
          exact hgoes _ hlt (hreset.trans hputc) (fun hs => by cases hs)
    | some alternate =>
      have hlt : buf < len := by
        refine Nat.lt_of_le_of_ne hbuf (fun he => ?_)
        subst he
        rcases hbegun rfl with hpercent | hsharp
        · exact hconv.1 hpercent
        · exact hconv.2 hsharp
      have hnone : ∀ esp', ∃ n, Outputs k (terminalPrintfLoop format args fuel k none (buf + 1) esp').1 n :=
        fun esp' => hgoes esp' hlt (Outputs.refl (Nat.le_succ_of_le hidx)) (fun hs => by cases hs)
      have hputc : ∀ c esp', ∃ n, Outputs k (terminalPrintfLoop format args fuel (terminalPutc k c) none (buf + 1) esp').1 n :=
        fun c esp' => hgoes esp' hlt (outputs_putc h hidx hroom c) (fun hs => by cases hs)
      have hputs : ∀ bytes esp', ∃ n, Outputs k (terminalPrintfLoop format args fuel (terminalPuts k bytes) none (buf + 1) esp').1 n :=
        fun bytes esp' => hgoes esp' hlt ((outputs_puts h.ready hidx (Nat.lt_trans hlt hlen) bytes).mono (Nat.zero_le _))
          (fun hs => by cases hs)
      rw [terminalPrintfLoop]
      split
      · exact hputc _ _
      · split
        · rename_i hsharp
          exact hgoes _ hlt (Outputs.refl (Nat.le_succ_of_le hidx)) (fun _ => Or.inr hsharp)
        · split
          · exact hputs _ _
          · split
            · exact hputc _ _
            · exact hnone _

/-- A message of the kernel, on a terminal with no line begun. -/
theorem outputs_printf (h : Ready k) (hidx : k.currIdx k.currTerm = 0) {format : CPtr} (hshort : Short format)
    (args : Nat → PrintfArg) : Outputs k (terminalPrintf k format args).1 0 := by
  obtain ⟨len, hlen, hend, hconv⟩ := hshort
  obtain ⟨n, hloop⟩ := outputs_printfLoop args hlen hend hconv addressSpace none 0 0 (writing_setFlags h) (Nat.le_of_eq hidx)
    (Nat.zero_le _) (fun hs => by cases hs)
  exact outputs_framed hloop

/-- `terminal_write` leaves its terminal with no line begun, and no read. -/
theorem terminalWrite_input (h : Quiet k) (hidx : k.currIdx k.currTerm = 0) (bytes : List UInt8) :
    (∀ t, t ≠ k.currTerm → SameInput k (terminalWrite k bytes) t) ∧ (terminalWrite k bytes).currIdx k.currTerm = 0 ∧
      (terminalWrite k bytes).readFlag k.currTerm = false := by
  have hw := writing_setFlags h.ready
  have hstart : (k.setFlags false true).currIdx (k.setFlags false true).currTerm < lineBufferSize := by
    rw [show (k.setFlags false true).currIdx (k.setFlags false true).currTerm = 0 from hidx]
    decide
  obtain ⟨n, hloop⟩ := outputs_writeLoop bytes hw hstart
  have hframed := outputs_framed hloop
  have hcurr : (terminalWriteLoop (k.setFlags false true) bytes).currTerm = k.currTerm := hloop.flags.terms.curr
  refine ⟨fun t ht => ?_, ?_, ?_⟩
  · have hsame := hframed.others t ht
    refine ⟨hsame.buffer, hsame.idx, hsame.enter, ?_, ?_⟩
    · have hread := congrFun hloop.flags.read t
      exact hread.trans (Function.update_of_ne ht _ _)
    · have hwrite := congrFun hloop.flags.write t
      have hne : t ≠ (terminalWriteLoop (k.setFlags false true) bytes).currTerm := by
        rw [hcurr]
        exact ht
      exact (Function.update_of_ne hne _ _).trans (hwrite.trans (Function.update_of_ne ht _ _))
  · exact Nat.le_zero.mp hframed.idx
  · have hread := congrFun hloop.flags.read k.currTerm
    exact hread.trans (Function.update_self _ _ _)

end InputAux

end ThreeTermOS
