import ThreeTermOS.Lemmas.Terminal

/-!
# The flags of the terminals

Between whole calls no terminal has its write flag set and no character comes from the keyboard: `Quiet`. Within an output function
the running terminal has its write flag set and its read flag cleared: `Writing`; a character goes to it, whatever the other
terminals do. A key goes to the displayed terminal if that is in a read, and to no other, unless the displayed terminal runs and
writes: `Listening`. Everything else in the bitmap of `terminal_putc` plays no part.
-/

namespace ThreeTermOS

/-- No output is under way. -/
structure Quiet (k : Console) : Prop where
  write : ∀ t, k.writeFlag t = false
  fromKB : k.charFromKB = false

/-- The running terminal writes. -/
structure Writing (k : Console) : Prop where
  read : k.readFlag k.currTerm = false
  write : k.writeFlag k.currTerm = true
  fromKB : k.charFromKB = false

/-- No key is being handled: an output function may start. -/
structure Ready (k : Console) : Prop where
  fromKB : k.charFromKB = false

/-- No key is being handled, no terminal is in a read and in an output at once, and the running terminal, when it is displayed, is
not in an output. -/
structure Listening (k : Console) : Prop where
  apart : ∀ t, k.readFlag t = true → k.writeFlag t = false
  write : k.currTerm = k.dispTerm → k.writeFlag k.dispTerm = false
  fromKB : k.charFromKB = false

/-- Two consoles with the same terminals and the same flags. -/
structure SameFlags (k k' : Console) : Prop where
  terms : k.SameTerms k'
  read : k'.readFlag = k.readFlag
  write : k'.writeFlag = k.writeFlag
  fromKB : k'.charFromKB = k.charFromKB

/-- The flags of a console are its own. -/
theorem SameFlags.refl (k : Console) : SameFlags k k := ⟨Console.SameTerms.refl k, rfl, rfl, rfl⟩

/-- They stay over two changes in a row. -/
theorem SameFlags.trans {k k' k'' : Console} (h : SameFlags k k') (h' : SameFlags k' k'') : SameFlags k k'' :=
  ⟨h.terms.trans h'.terms, h'.read.trans h.read, h'.write.trans h.write, h'.fromKB.trans h.fromKB⟩

/-- Between calls no key is being handled. -/
theorem Quiet.ready {k : Console} (h : Quiet k) : Ready k := ⟨h.fromKB⟩

/-- Between calls a key is heard. -/
theorem Quiet.listening {k : Console} (h : Quiet k) : Listening k := ⟨fun t _ => h.write t, fun _ => h.write _, h.fromKB⟩

/-- Nor is one within an output call. -/
theorem Writing.ready {k : Console} (h : Writing k) : Ready k := ⟨h.fromKB⟩

/-- The flags are all that quiet asks for. -/
theorem Quiet.congr {k k' : Console} (h : Quiet k) (hf : SameFlags k k') : Quiet k' := by
  refine ⟨fun t => ?_, ?_⟩
  · rw [hf.write, h.write t]
  · rw [hf.fromKB, h.fromKB]

/-- The flags are all that an output call asks for. -/
theorem Writing.congr {k k' : Console} (h : Writing k) (hf : SameFlags k k') : Writing k' := by
  refine ⟨?_, ?_, ?_⟩
  · rw [hf.read, hf.terms.curr, h.read]
  · rw [hf.write, hf.terms.curr, h.write]
  · rw [hf.fromKB, h.fromKB]

namespace RoutingAux

variable {k k' : Console}

/-! ### What keeps the flags -/

/-- `all_char` leaves the flags. -/
theorem allChar_sameFlags (k : Console) (c : UInt8) (flag : Nat) : SameFlags k (allChar k c flag) := by
  refine ⟨TerminalAux.allChar_sameTerms k c flag, ?_, ?_, ?_⟩ <;>
  · unfold allChar
    split
    · dsimp only
      split <;> rfl
    · dsimp only
      split <;> rfl
    · rfl

/-- `new_line_char` leaves them. -/
theorem newLineChar_sameFlags (k : Console) (flag : Nat) : SameFlags k (newLineChar k flag) := by
  refine ⟨TerminalAux.newLineChar_sameTerms k flag, ?_, ?_, ?_⟩ <;>
  · unfold newLineChar
    split
    · dsimp only
      split <;> split <;> rfl
    · dsimp only
      split <;> rfl
    · rfl

/-- `backspace_char` leaves them. -/
theorem backspaceChar_sameFlags (k : Console) : SameFlags k (backspaceChar k) := by
  unfold backspaceChar
  dsimp only
  split <;> exact ⟨⟨rfl, rfl⟩, rfl, rfl, rfl⟩

/-- A character put out leaves them, whatever character it is. -/
theorem putcAs_sameFlags (k : Console) (c : UInt8) (flag : Nat) : SameFlags k (k.putcAs c flag) := by
  unfold Console.putcAs
  split
  · exact newLineChar_sameFlags k flag
  · split
    · exact backspaceChar_sameFlags k
    · exact allChar_sameFlags k c flag

/-- `terminal_reset_buffer` leaves them. -/
theorem terminalResetBuffer_sameFlags (k : Console) : SameFlags k (terminalResetBuffer k) := ⟨⟨rfl, rfl⟩, rfl, rfl, rfl⟩

/-! ### The bitmap -/

/-- A terminal that writes in the background is served as such, whether the displayed one reads or not. -/
theorem bitmapFlag_output : ∀ readDisp : Bool, bitmapFlag (bitmap (bmapVal readDisp false false true false)) = 2 := by decide

/-- A key is served when the displayed terminal reads, whether it or the running one reads, writes or does neither. -/
theorem bitmapFlag_key : ∀ readDisp writeDisp readCurr writeCurr : Bool, (readDisp = true → writeDisp = false) →
    (readCurr = true → writeCurr = false) →
    bitmapFlag (bitmap (bmapVal readDisp writeDisp readCurr writeCurr true)) = if readDisp then 1 else 0 := by decide

/-- A background terminal that writes is served also when the displayed one writes. -/
theorem putcFlag_writing (h : Writing k) (hne : k.dispTerm ≠ k.currTerm) : k.putcFlag = 2 := by
  unfold Console.putcFlag
  dsimp only
  cases hw : k.writeFlag k.dispTerm with
  | true => rw [if_pos ⟨hne, rfl, h.write, h.fromKB⟩]
  | false => rw [h.read, h.write, h.fromKB, bitmapFlag_output, if_neg (by simp)]

/-- A typed character goes to the displayed terminal if that is in a read, and nowhere if not. -/
theorem putcFlag_key (hapart : ∀ t, k.readFlag t = true → k.writeFlag t = false) (hkb : k.charFromKB = true) :
    k.putcFlag = if k.readFlag k.dispTerm then 1 else 0 := by
  unfold Console.putcFlag
  rw [hkb, bitmapFlag_key _ _ _ _ (hapart k.dispTerm) (hapart k.currTerm), if_neg (by simp)]

/-- A character put out leaves the flags, wherever it goes. -/
theorem terminalPutc_flags (k : Console) (c : UInt8) :
    (terminalPutc k c).readFlag = k.readFlag ∧ (terminalPutc k c).writeFlag = k.writeFlag := by
  have hput : ∀ flag, (k.putcAs c flag).readFlag = k.readFlag ∧ (k.putcAs c flag).writeFlag = k.writeFlag :=
    fun flag => ⟨(putcAs_sameFlags _ _ _).read, (putcAs_sameFlags _ _ _).write⟩
  unfold terminalPutc
  dsimp only
  split
  · split
    · exact hput 1
    · exact ⟨rfl, rfl⟩
  · split
    · exact hput _
    · exact ⟨rfl, rfl⟩

/-- While the running terminal writes, every character goes to it: to both copies of its screen when it is displayed. -/
theorem terminalPutc_writing (h : Writing k) (c : UInt8) :
    terminalPutc k c = { k.putcAs c (if k.currTerm = k.dispTerm then 1 else 2) with charFromKB := false } := by
  unfold terminalPutc
  dsimp only
  by_cases heq : k.currTerm = k.dispTerm
  · rw [if_pos heq, if_pos heq, h.write, Bool.or_true, if_pos rfl]
  · rw [if_neg heq, if_neg heq, putcFlag_writing h (fun he => heq he.symm), if_pos (Or.inr rfl)]

/-- A console with a character from the keyboard to handle. -/
def heard (k : Console) : Console := { k with charFromKB := true }

/-- A key goes to the displayed terminal if that is in a read, and nowhere else, whichever terminal runs. -/
theorem terminalPutc_heard (h : Listening k) (c : UInt8) :
    terminalPutc (heard k) c = { (if k.readFlag k.dispTerm then (heard k).putcAs c 1 else heard k) with charFromKB := false } := by
  have hflag := putcFlag_key (k := heard k) h.apart rfl
  unfold terminalPutc
  dsimp only
  rw [hflag]
  unfold heard
  dsimp only
  by_cases heq : k.currTerm = k.dispTerm
  · rw [if_pos heq, heq, h.write heq, Bool.or_false]
  · rw [if_neg heq]
    by_cases hr : k.readFlag k.dispTerm = true
    · rw [if_pos hr, if_pos hr, if_pos (Or.inl rfl)]
    · rw [if_neg hr, if_neg hr, if_neg (by omega)]

/-- A key pressed while the displayed terminal runs and writes is shown there, though the terminal is in no read. -/
theorem terminalPutc_heard_writing (heq : k.currTerm = k.dispTerm) (hw : k.writeFlag k.dispTerm = true) (c : UInt8) :
    terminalPutc (heard k) c = { (heard k).putcAs c 1 with charFromKB := false } := by
  have hflag : ((heard k).readFlag (heard k).currTerm || (heard k).writeFlag (heard k).currTerm) = true := by
    unfold heard
    dsimp only
    rw [heq, hw, Bool.or_true]
  have hcurr : (heard k).currTerm = (heard k).dispTerm := heq
  unfold terminalPutc
  dsimp only
  rw [if_pos hcurr, if_pos hflag]

/-- A character of an output call leaves the flags. -/
theorem terminalPutc_sameFlags (h : Writing k) (c : UInt8) : SameFlags k (terminalPutc k c) := by
  have hput := putcAs_sameFlags k c (if k.currTerm = k.dispTerm then 1 else 2)
  rw [terminalPutc_writing h]
  exact ⟨⟨hput.terms.curr, hput.terms.disp⟩, hput.read, hput.write, h.fromKB.symm⟩

/-- An output function sets the flags of the running terminal. -/
theorem writing_setFlags (h : Ready k) : Writing (k.setFlags false true) := by
  unfold Console.setFlags
  exact ⟨Function.update_self _ _ _, Function.update_self _ _ _, h.fromKB⟩

/-- The flags set and, after something that keeps them, set back. -/
theorem sameFlags_restored (k : Console) (hf : SameFlags (k.setFlags false true) k') :
    SameFlags k (k'.setFlags (k.readFlag k.currTerm) (k.writeFlag k.currTerm)) := by
  obtain ⟨⟨hcurr, hdisp⟩, hread, hwrite, hkb⟩ := hf
  unfold Console.setFlags at hcurr hdisp hread hwrite hkb ⊢
  dsimp only at hcurr hdisp hread hwrite hkb
  refine ⟨⟨hcurr, hdisp⟩, ?_, ?_, hkb⟩
  · dsimp only
    rw [hread, hcurr, Function.update_idem, Function.update_eq_self]
  · dsimp only
    rw [hwrite, hcurr, Function.update_idem, Function.update_eq_self]

end RoutingAux

end ThreeTermOS
