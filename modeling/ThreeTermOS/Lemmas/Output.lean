import ThreeTermOS.Lemmas.Routing
import ThreeTermOS.Lemmas.Screens

/-!
# What the output functions print

`terminal_write`, `terminal_puts` and `terminal_printf` print their bytes on the screen of the running terminal, one after the
other, and leave the flags as they found them or cleared.
-/

namespace ThreeTermOS

open Screens

/-- The reference for a list of bytes printed. -/
def printAll (s : TextScreen) (bytes : List UInt8) : TextScreen := bytes.foldl ScreensAux.printChar s

/-- The bytes the loop of `terminal_printf` prints. -/
def printfBytes (format : CPtr) (args : Nat → PrintfArg) : Nat → Option Bool → Nat → Nat → List UInt8
  | 0, _, _, _ => []
  | fuel + 1, none, buf, esp =>
    if format buf = 0 then []
    else if format buf = 0x25 then printfBytes format args fuel (some false) (buf + 1) esp
    else format buf :: printfBytes format args fuel none (buf + 1) esp
  | fuel + 1, some alternate, buf, esp =>
    let spec := format buf
    if spec = 0x25 then 0x25 :: printfBytes format args fuel none (buf + 1) esp
    else if spec = 0x23 then printfBytes format args fuel (some true) (buf + 1) esp
    else if spec = 0x78 ∨ spec = 0x75 ∨ spec = 0x64 ∨ spec = 0x73 then
      convert alternate spec (args esp) ++ printfBytes format args fuel none (buf + 1) (esp + 1)
    else if spec = 0x63 then ((args esp).word % 256).toUInt8 :: printfBytes format args fuel none (buf + 1) (esp + 1)
    else printfBytes format args fuel none (buf + 1) esp

/-- A step of output by the running terminal: it prints the bytes on its screen and keeps the flags. -/
structure Prints (k k' : Console) (bytes : List UInt8) : Prop where
  flags : SameFlags k k'
  acts : ∀ s, Shows k k.currTerm s → Acts k k' k.currTerm (printAll s bytes)

/-- A change that leaves flags and screens prints nothing. -/
theorem Prints.nil {k k' : Console} (hf : SameFlags k k') (hs : SameScreens k k') : Prints k k' [] :=
  ⟨hf, fun _ hshow => hs.acts hshow⟩

/-- Output after output. -/
theorem Prints.trans {k k' k'' : Console} {bytes bytes' : List UInt8} (h : Prints k k' bytes) (h' : Prints k' k'' bytes') :
    Prints k k'' (bytes ++ bytes') := by
  refine ⟨h.flags.trans h'.flags, fun s hs => ?_⟩
  have hact := h.acts s hs
  have hown := hact.own
  rw [← h.flags.terms.curr] at hown
  have hact' := h'.acts _ hown
  rw [h.flags.terms.curr] at hact'
  unfold printAll at hact' ⊢
  rw [List.foldl_append]
  exact hact.trans hact'

namespace OutputAux

open RoutingAux ScreensAux

variable {k k' : Console} {s : TextScreen}

/-- A character of output. -/
theorem prints_putc (h : Writing k) (c : UInt8) : Prints k (terminalPutc k c) [c] := by
  refine ⟨terminalPutc_sameFlags h c, fun s hs => ?_⟩
  rw [terminalPutc_writing h]
  have hkb : SameScreens (k.putcAs c (if k.currTerm = k.dispTerm then 1 else 2))
      { k.putcAs c (if k.currTerm = k.dispTerm then 1 else 2) with charFromKB := false } := ⟨⟨rfl, rfl⟩, rfl, rfl, rfl⟩
  refine Acts.same ?_ hkb
  unfold Console.putcAs printAll
  rw [List.foldl_cons, List.foldl_nil]
  unfold printChar
  by_cases hnl : c = 0x0A ∨ c = 0x0D
  · rw [if_pos hnl, if_pos hnl]
    by_cases heq : k.currTerm = k.dispTerm
    · rw [if_pos heq, heq]
      rw [heq] at hs
      exact newLineChar_one_acts hs
    · rw [if_neg heq]
      exact newLineChar_two_acts heq hs
  · -- a backspace that does not come from the keyboard is printed as a glyph
    rw [if_neg hnl, if_neg hnl, if_neg (by simp [h.fromKB])]
    by_cases heq : k.currTerm = k.dispTerm
    · rw [if_pos heq, heq]
      rw [heq] at hs
      exact allChar_one_acts hs c
    · rw [if_neg heq]
      exact allChar_two_acts heq hs c

/-- The resets the loops make between characters print nothing. -/
theorem prints_reset (k : Console) (p : Prop) [Decidable p] : Prints k (if p then terminalResetBuffer k else k) [] := by
  split
  · exact Prints.nil (terminalResetBuffer_sameFlags k) (sameScreens_resetBuffer k)
  · exact Prints.nil (SameFlags.refl k) (SameScreens.refl k)

/-- The loop of `terminal_write` prints its bytes. -/
theorem prints_writeLoop (bytes : List UInt8) : ∀ {k}, Writing k → Prints k (terminalWriteLoop k bytes) bytes := by
  induction bytes with
  | nil => exact fun _ => Prints.nil (SameFlags.refl _) (SameScreens.refl _)
  | cons c bytes ih =>
    intro k h
    rw [terminalWriteLoop]
    have hreset := prints_reset k (k.currIdx k.currTerm % lineBufferSize = lineBufferSize - 1)
    have hw := h.congr hreset.flags
    have hputc := prints_putc hw c
    exact hreset.trans (hputc.trans (ih (hw.congr hputc.flags)))

/-- The loop of `terminal_puts` prints its string. -/
theorem prints_putsLoop (bytes : List UInt8) : ∀ {k} index, Writing k → Prints k (terminalPutsLoop k bytes index) bytes := by
  induction bytes with
  | nil => exact fun _ _ => Prints.nil (SameFlags.refl _) (SameScreens.refl _)
  | cons c bytes ih =>
    intro k index h
    rw [terminalPutsLoop]
    have hreset := prints_reset k (index % lineBufferSize = lineBufferSize - 1)
    have hw := h.congr hreset.flags
    have hputc := prints_putc hw c
    exact hreset.trans (hputc.trans (ih (index + 1) (hw.congr hputc.flags)))

/-- Output between setting the flags and setting them back. -/
theorem prints_framed {bytes : List UInt8} (h : Prints (k.setFlags false true) k' bytes) :
    Prints k ((terminalResetBuffer k').setFlags (k.readFlag k.currTerm) (k.writeFlag k.currTerm)) bytes := by
  refine ⟨sameFlags_restored k (h.flags.trans (terminalResetBuffer_sameFlags k')), fun s hs => ?_⟩
  have hset := sameScreens_setFlags k false true
  have hact := h.acts s (hset.shows hs)
  exact (((hset.acts hs).trans hact).same (sameScreens_resetBuffer k')).same (sameScreens_setFlags _ _ _)

/-- `terminal_puts` prints its string. -/
theorem prints_puts (h : Ready k) (bytes : List UInt8) : Prints k (terminalPuts k bytes) bytes :=
  prints_framed (prints_putsLoop bytes 0 (writing_setFlags h))

/-- The loop of `terminal_printf`, from any point. -/
theorem prints_printfLoop (format : CPtr) (args : Nat → PrintfArg) (fuel : Nat) : ∀ {k} conv buf esp, Writing k →
    Prints k (terminalPrintfLoop format args fuel k conv buf esp).1 (printfBytes format args fuel conv buf esp) := by
  induction fuel with
  | zero => exact fun _ _ _ _ => Prints.nil (SameFlags.refl _) (SameScreens.refl _)
  | succ fuel ih =>
    intro k conv buf esp h
    cases conv with
    | none =>
      rw [terminalPrintfLoop, printfBytes]
      by_cases hend : format buf = 0
      · rw [if_pos hend, if_pos hend]
        exact Prints.nil (SameFlags.refl _) (SameScreens.refl _)
      · rw [if_neg hend, if_neg hend]
        have hreset := prints_reset k (buf % lineBufferSize = lineBufferSize - 1)
        have hw := h.congr hreset.flags
        generalize (if buf % lineBufferSize = lineBufferSize - 1 then terminalResetBuffer k else k) = k₁ at hreset hw
        dsimp only
        by_cases hconv : format buf = 0x25
        · rw [if_pos hconv, if_pos hconv]
          exact hreset.trans (ih (some false) (buf + 1) esp hw)
        · rw [if_neg hconv, if_neg hconv]
          have hputc := prints_putc hw (format buf)
          exact hreset.trans (hputc.trans (ih none (buf + 1) esp (hw.congr hputc.flags)))
    | some alternate =>
      rw [terminalPrintfLoop, printfBytes]
      by_cases h1 : format buf = 0x25
      · rw [if_pos h1, if_pos h1]
        have hputc := prints_putc h 0x25
        exact hputc.trans (ih none (buf + 1) esp (h.congr hputc.flags))
      · rw [if_neg h1, if_neg h1]
        by_cases h2 : format buf = 0x23
        · rw [if_pos h2, if_pos h2]
          exact ih (some true) (buf + 1) esp h
        · rw [if_neg h2, if_neg h2]
          by_cases h3 : format buf = 0x78 ∨ format buf = 0x75 ∨ format buf = 0x64 ∨ format buf = 0x73
          · rw [if_pos h3, if_pos h3]
            have hputs := prints_puts h.ready (convert alternate (format buf) (args esp))
            exact hputs.trans (ih none (buf + 1) (esp + 1) (h.congr hputs.flags))
          · rw [if_neg h3, if_neg h3]
            by_cases h4 : format buf = 0x63
            · rw [if_pos h4, if_pos h4]
              have hputc := prints_putc h ((args esp).word % 256).toUInt8
              exact hputc.trans (ih none (buf + 1) (esp + 1) (h.congr hputc.flags))
            · rw [if_neg h4, if_neg h4]
              exact ih none (buf + 1) esp h

/-- `terminal_printf` prints what the format and its arguments make. -/
theorem prints_printf (h : Ready k) (format : CPtr) (args : Nat → PrintfArg) :
    Prints k (terminalPrintf k format args).1 (printfBytes format args addressSpace none 0 0) :=
  prints_framed (prints_printfLoop format args addressSpace none 0 0 (writing_setFlags h))

/-- `terminal_write` prints its bytes and leaves no write flag set. -/
theorem terminalWrite_acts (h : Quiet k) (hs : Shows k k.currTerm s) (bytes : List UInt8) :
    Acts k (terminalWrite k bytes) k.currTerm (printAll s bytes) := by
  have hset := sameScreens_setFlags k false true
  have hloop := prints_writeLoop bytes (writing_setFlags h.ready)
  have hact := hloop.acts s (hset.shows hs)
  exact (((hset.acts hs).trans hact).same (sameScreens_resetBuffer _)).same ⟨⟨rfl, rfl⟩, rfl, rfl, rfl⟩

/-- `terminal_write` leaves the flags quiet. -/
theorem terminalWrite_quiet (h : Quiet k) (bytes : List UInt8) : Quiet (terminalWrite k bytes) := by
  have hloop := prints_writeLoop bytes (writing_setFlags h.ready)
  have hcurr : (terminalWriteLoop (k.setFlags false true) bytes).currTerm = k.currTerm := hloop.flags.terms.curr
  unfold terminalWrite terminalResetBuffer
  refine ⟨fun t => ?_, hloop.flags.fromKB.trans h.fromKB⟩
  dsimp only
  rw [hcurr]
  by_cases ht : t = k.currTerm
  · rw [ht, Function.update_self]
  · have hkept : (k.setFlags false true).writeFlag t = k.writeFlag t := Function.update_of_ne ht _ _
    rw [Function.update_of_ne ht, hloop.flags.write, hkept, h.write t]

/-! ### Keys -/

/-- The reference for a key, on a terminal that is in a read or not, with so many characters in its line. -/
def keyScreen (f : Keys) (c : UInt8) (reading : Bool) (pending : Nat) (s : TextScreen) : TextScreen :=
  if responds c then
    if f.ctrl then
      if scanToAscii false c = 0x6C then s.clear blankCell else s
    else if displayChar f c ≠ 0 ∧ reading = true then
      if displayChar f c = backspaceASCII then
        if pending > 0 then s.erasePrev blankCell else s
      else printChar s (displayChar f c)
    else s
  else s

/-- A key that stands for a character. -/
def IsCharacter (f : Keys) (c : UInt8) : Prop := responds c = true ∧ f.ctrl = false ∧ displayChar f c ≠ 0

instance (f : Keys) (c : UInt8) : Decidable (IsCharacter f c) := inferInstanceAs (Decidable (_ ∧ _ ∧ _))

/-- A key that erases a character in a read. -/
def Erases (f : Keys) (c : UInt8) (k : Console) : Prop :=
  responds c = true ∧ f.ctrl = false ∧ displayChar f c = backspaceASCII ∧ k.readFlag k.dispTerm = true ∧ k.currIdx k.dispTerm > 0

/-- A key is heard, responded to, and done. -/
theorem key_eq (k : Console) (f : Keys) (c : UInt8) : k.key f c = { (heard k).respond f c with charFromKB := false } := rfl

/-- Hearing a key leaves the screens. -/
theorem sameScreens_heard (k : Console) : SameScreens k (heard k) := ⟨⟨rfl, rfl⟩, rfl, rfl, rfl⟩

/-- A key leaves the flags of reading and writing, wherever it is shown. -/
theorem key_flags (k : Console) (f : Keys) (c : UInt8) :
    (k.key f c).readFlag = k.readFlag ∧ (k.key f c).writeFlag = k.writeFlag ∧ (k.key f c).charFromKB = false := by
  have hresp : ((heard k).respond f c).readFlag = k.readFlag ∧ ((heard k).respond f c).writeFlag = k.writeFlag := by
    unfold Console.respond
    split
    · split
      · split
        · exact ⟨rfl, rfl⟩
        · exact ⟨rfl, rfl⟩
      · split
        · exact terminalPutc_flags (heard k) _
        · exact ⟨rfl, rfl⟩
    · exact ⟨rfl, rfl⟩
  exact ⟨hresp.1, hresp.2, rfl⟩

/-- A key between calls leaves the flags quiet. -/
theorem key_quiet (h : Quiet k) (f : Keys) (c : UInt8) : Quiet (k.key f c) := by
  obtain ⟨-, hwrite, hkb⟩ := key_flags k f c
  exact ⟨fun t => by rw [hwrite, h.write t], hkb⟩

/-- What a key to show does in a read of the displayed terminal. -/
theorem putcAs_heard_acts (hs : Shows k k.dispTerm s) (hread : k.readFlag k.dispTerm = true) (c : UInt8)
    (hhome : ¬(c = backspaceASCII ∧ k.currIdx k.dispTerm > 0 ∧ s.AtHome)) :
    Acts (heard k) ((heard k).putcAs c 1) k.dispTerm
      (if c = backspaceASCII then if k.currIdx k.dispTerm > 0 then s.erasePrev blankCell else s else printChar s c) := by
  have hs' : Shows (heard k) (heard k).dispTerm s := (sameScreens_heard k).shows hs
  unfold Console.putcAs
  by_cases hback : c = backspaceASCII
  · rw [if_neg (by rw [hback]; decide), if_pos ⟨hback, rfl, hread⟩, if_pos hback]
    by_cases hidx : k.currIdx k.dispTerm > 0
    · have hne : ¬s.AtHome := fun hh => hhome ⟨hback, hidx, hh⟩
      rw [if_pos hidx]
      unfold Screen.erasePrev
      rw [if_neg hne]
      exact backspaceChar_acts hs' hread hidx
    · have hnone : backspaceChar (heard k) = heard k := if_neg (fun hc => hidx hc.2)
      rw [if_neg hidx, hnone]
      exact Acts.refl hs'
  · rw [if_neg hback]
    unfold printChar
    by_cases hnl : c = 0x0A ∨ c = 0x0D
    · rw [if_pos hnl, if_pos hnl]
      exact newLineChar_one_acts hs'
    · rw [if_neg hnl, if_neg hnl, if_neg (fun hc => hback hc.1)]
      exact allChar_one_acts hs' c

/-- A key acts on the screen of the displayed terminal as the reference does, unless it erases with the cursor on the first cell. -/
theorem key_acts (hs : Shows k k.dispTerm s) (f : Keys) (c : UInt8) (h : IsCharacter f c → Listening k)
    (hhome : ¬(Erases f c k ∧ s.AtHome)) :
    Acts k (k.key f c) k.dispTerm (keyScreen f c (k.readFlag k.dispTerm) (k.currIdx k.dispTerm) s) := by
  have hs' : Shows (heard k) k.dispTerm s := (sameScreens_heard k).shows hs
  suffices hresp : Acts (heard k) ((heard k).respond f c) k.dispTerm
      (keyScreen f c (k.readFlag k.dispTerm) (k.currIdx k.dispTerm) s) by
    rw [key_eq]
    exact (((sameScreens_heard k).acts hs).trans hresp).same ⟨⟨rfl, rfl⟩, rfl, rfl, rfl⟩
  unfold Console.respond keyScreen
  by_cases hr : responds c = true
  · rw [if_pos hr, if_pos hr]
    by_cases hctrl : f.ctrl = true
    · rw [if_pos hctrl, if_pos hctrl]
      by_cases hl : scanToAscii false c = 0x6C
      · rw [if_pos hl, if_pos hl]
        exact terminalClear_acts hs'
      · rw [if_neg hl, if_neg hl]
        exact Acts.refl hs'
    · rw [if_neg hctrl, if_neg hctrl]
      by_cases hd : displayChar f c ≠ 0
      · rw [if_pos hd, terminalPutc_heard (h ⟨hr, Bool.not_eq_true _ ▸ hctrl, hd⟩)]
        by_cases hread : k.readFlag k.dispTerm = true
        · rw [if_pos hread, if_pos ⟨hd, hread⟩]
          refine Acts.same (putcAs_heard_acts hs hread _ ?_) ⟨⟨rfl, rfl⟩, rfl, rfl, rfl⟩
          rintro ⟨hback, hidx, hh⟩
          exact hhome ⟨⟨hr, by simpa using hctrl, hback, hread, hidx⟩, hh⟩
        · rw [if_neg hread, if_neg (fun hc => hread hc.2)]
          exact Acts.same (Acts.refl hs') ⟨⟨rfl, rfl⟩, rfl, rfl, rfl⟩
      · rw [if_neg hd, if_neg (fun hc => hd hc.1)]
        exact Acts.refl hs'
  · rw [if_neg hr, if_neg hr]
    exact Acts.refl hs'

/-- A key that erases moves the cursor back, also from the first cell. -/
theorem key_erases_acts (h : Listening k) (hs : Shows k k.dispTerm s) {f : Keys} {c : UInt8} (he : Erases f c k) :
    Acts k (k.key f c) k.dispTerm (s.back.setCell blankCell) := by
  obtain ⟨hr, hctrl, hback, hread, hidx⟩ := he
  have hs' : Shows (heard k) (heard k).dispTerm s := (sameScreens_heard k).shows hs
  have hputc : (heard k).putcAs (displayChar f c) 1 = backspaceChar (heard k) := by
    unfold Console.putcAs
    rw [if_neg (by rw [hback]; decide), if_pos ⟨hback, rfl, hread⟩]
  have hresp : (heard k).respond f c = { backspaceChar (heard k) with charFromKB := false } := by
    unfold Console.respond
    rw [if_pos hr, if_neg (by simp [hctrl]), if_pos (by rw [hback]; decide), terminalPutc_heard h, if_pos hread, hputc]
  have hact := ((sameScreens_heard k).acts hs).trans (backspaceChar_acts hs' hread hidx)
  rw [key_eq, hresp]
  exact hact.same ⟨⟨rfl, rfl⟩, rfl, rfl, rfl⟩

/-- A character typed while the displayed terminal runs and writes is printed there as output is, a backspace as a glyph. -/
theorem key_echoes_acts (heq : k.currTerm = k.dispTerm) (hw : k.writeFlag k.dispTerm = true) (hread : k.readFlag k.dispTerm = false)
    (hs : Shows k k.dispTerm s) {f : Keys} {c : UInt8} (hc : IsCharacter f c) :
    Acts k (k.key f c) k.dispTerm (printChar s (displayChar f c)) := by
  obtain ⟨hr, hctrl, hd⟩ := hc
  have hs' : Shows (heard k) (heard k).dispTerm s := (sameScreens_heard k).shows hs
  have hresp : (heard k).respond f c = { (heard k).putcAs (displayChar f c) 1 with charFromKB := false } := by
    unfold Console.respond
    rw [if_pos hr, if_neg (by simp [hctrl]), if_pos hd, terminalPutc_heard_writing heq hw]
  have hact : Acts (heard k) ((heard k).putcAs (displayChar f c) 1) k.dispTerm (printChar s (displayChar f c)) := by
    have hnone : ¬(displayChar f c = backspaceASCII ∧ (heard k).charFromKB = true ∧
        (heard k).readFlag (heard k).dispTerm = true) := fun hb => Bool.false_ne_true (hread.symm.trans hb.2.2)
    unfold Console.putcAs printChar
    by_cases hnl : displayChar f c = 0x0A ∨ displayChar f c = 0x0D
    · rw [if_pos hnl, if_pos hnl]
      exact newLineChar_one_acts hs'
    · rw [if_neg hnl, if_neg hnl, if_neg hnone]
      exact allChar_one_acts hs' _
  rw [key_eq, hresp]
  exact (((sameScreens_heard k).acts hs).trans hact).same ⟨⟨rfl, rfl⟩, rfl, rfl, rfl⟩

/-- A key acts on the screen of the displayed terminal in some way. -/
theorem exists_key_acts (hapart : ∀ t, k.readFlag t = true → k.writeFlag t = false) (hkb : k.charFromKB = false)
    (hs : Shows k k.dispTerm s) (f : Keys) (c : UInt8) : ∃ s', Acts k (k.key f c) k.dispTerm s' := by
  by_cases hecho : k.currTerm = k.dispTerm ∧ k.writeFlag k.dispTerm = true
  · obtain ⟨heq, hw⟩ := hecho
    have hread : k.readFlag k.dispTerm = false := by
      by_contra hr
      exact Bool.false_ne_true ((hapart _ (Bool.not_eq_false _ ▸ hr)).symm.trans hw)
    by_cases hc : IsCharacter f c
    · exact ⟨_, key_echoes_acts heq hw hread hs hc⟩
    · exact ⟨_, key_acts hs f c (fun hc' => absurd hc' hc) (fun he => Bool.false_ne_true (hread.symm.trans he.1.2.2.2.1))⟩
  · have h : Listening k := ⟨hapart, fun heq => Bool.not_eq_true _ ▸ fun hw => hecho ⟨heq, hw⟩, hkb⟩
    by_cases hhome : Erases f c k ∧ s.AtHome
    · exact ⟨_, key_erases_acts h hs hhome.1⟩
    · exact ⟨_, key_acts hs f c (fun _ => h) hhome⟩

end OutputAux

end ThreeTermOS
