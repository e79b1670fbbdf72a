import ThreeTermOS.Keyboard

/-!
# What the console functions keep

The terminal numbers are nobody's to change here: every function of `terminal.c` keeps `curr_term` and `disp_term`. A fact that
`terminal_putc` and `terminal_reset_buffer` keep, whatever the flags, is kept by the output functions.
-/

namespace ThreeTermOS

open Bytes

/-- Where the logical screen of a terminal is: the video memory when it is displayed, its buffer otherwise. -/
def Console.screenBase (k : Console) (t : Term) : Nat := if t = k.dispTerm then video else videoBuffer t

/-- The three buffers lie a page apart. -/
theorem videoBuffer_eq (t : Term) : videoBuffer t = 0xB9000 + 0x1000 * t.val := by
  unfold videoBuffer pageTable vidMemidx hex4KB
  dsimp only
  omega

/-- Two consoles with the same terminals running and displayed. -/
structure Console.SameTerms (k k' : Console) : Prop where
  curr : k'.currTerm = k.currTerm
  disp : k'.dispTerm = k.dispTerm

/-- The terminals shown and running are those they are. -/
theorem Console.SameTerms.refl (k : Console) : k.SameTerms k := ⟨rfl, rfl⟩

/-- The terminals shown and running stay over two changes in a row. -/
theorem Console.SameTerms.trans {k k' k'' : Console} (h : k.SameTerms k') (h' : k'.SameTerms k'') : k.SameTerms k'' :=
  ⟨h'.curr.trans h.curr, h'.disp.trans h.disp⟩

namespace TerminalAux

/-! ### Loops of output -/

section Loops

variable {P : Console → Prop} (hputc : ∀ k c, P k → P (terminalPutc k c)) (hreset : ∀ k, P k → P (terminalResetBuffer k))

include hputc hreset in
/-- What one character and a reset keep, the loop of `terminal_write` keeps. -/
theorem terminalWriteLoop_invariant (bytes : List UInt8) : ∀ {k}, P k → P (terminalWriteLoop k bytes) := by
  induction bytes with
  | nil => exact fun h => h
  | cons c bytes ih =>
    intro k h
    rw [terminalWriteLoop]
    apply ih
    apply hputc
    split
    · exact hreset k h
    · exact h

include hputc hreset in
/-- What one character and a reset keep, the loop of `terminal_puts` keeps. -/
theorem terminalPutsLoop_invariant (s : List UInt8) : ∀ {k} index, P k → P (terminalPutsLoop k s index) := by
  induction s with
  | nil => exact fun _ h => h
  | cons c s ih =>
    intro k index h
    rw [terminalPutsLoop]
    apply ih
    apply hputc
    split
    · exact hreset k h
    · exact h

include hputc hreset in
/-- What one character, a reset and a string keep, the loop of `terminal_printf` keeps. -/
theorem terminalPrintfLoop_invariant (hputs : ∀ k s, P k → P (terminalPuts k s)) (format : CPtr) (args : Nat → PrintfArg)
    (fuel : Nat) : ∀ {k} conv buf esp, P k → P (terminalPrintfLoop format args fuel k conv buf esp).1 := by
  induction fuel with
  | zero => exact fun _ _ _ h => h
  | succ fuel ih =>
    intro k conv buf esp h
    cases conv with
    | none =>
      rw [terminalPrintfLoop]
      split
      · exact h
      · have hk : P (if buf % lineBufferSize = lineBufferSize - 1 then terminalResetBuffer k else k) := by
          split
          · exact hreset k h
          · exact h
        generalize (if buf % lineBufferSize = lineBufferSize - 1 then terminalResetBuffer k else k) = k₁ at hk ⊢
        dsimp only
        split
        · exact ih _ _ _ hk
        · exact ih _ _ _ (hputc _ _ hk)
    | some alternate =>
      rw [terminalPrintfLoop]
      split
      · exact ih _ _ _ (hputc _ _ h)
      · split
        · exact ih _ _ _ h
        · split
          · exact ih _ _ _ (hputs _ _ h)
          · split
            · exact ih _ _ _ (hputc _ _ h)
            · exact ih _ _ _ h

end Loops

/-! ### The terminal numbers -/

/-- `all_char` keeps the terminals shown and running. -/
theorem allChar_sameTerms (k : Console) (c : UInt8) (flag : Nat) : k.SameTerms (allChar k c flag) := by
  unfold allChar
  split
  · dsimp only
    split <;> exact ⟨rfl, rfl⟩
  · dsimp only
    split <;> exact ⟨rfl, rfl⟩
  · exact Console.SameTerms.refl k

/-- `new_line_char` keeps them. -/
theorem newLineChar_sameTerms (k : Console) (flag : Nat) : k.SameTerms (newLineChar k flag) := by
  unfold newLineChar
  split
  · dsimp only
    split <;> split <;> exact ⟨rfl, rfl⟩
  · dsimp only
    split <;> exact ⟨rfl, rfl⟩
  · exact Console.SameTerms.refl k

/-- `backspace_char` keeps them. -/
theorem backspaceChar_sameTerms (k : Console) : k.SameTerms (backspaceChar k) := by
  unfold backspaceChar
  dsimp only
  split <;> exact ⟨rfl, rfl⟩

/-- A character put out keeps them, whatever character it is. -/
theorem putcAs_sameTerms (k : Console) (c : UInt8) (flag : Nat) : k.SameTerms (k.putcAs c flag) := by
  unfold Console.putcAs
  split
  · exact newLineChar_sameTerms k flag
  · split
    · exact backspaceChar_sameTerms k
    · exact allChar_sameTerms k c flag

/-- `terminal_putc` keeps them, whichever way the bitmap sends the character. -/
theorem terminalPutc_sameTerms (k : Console) (c : UInt8) : k.SameTerms (terminalPutc k c) := by
  unfold terminalPutc
  dsimp only
  split
  · split
    · exact ⟨(putcAs_sameTerms k c 1).curr, (putcAs_sameTerms k c 1).disp⟩
    · exact ⟨rfl, rfl⟩
  · split
    · exact ⟨(putcAs_sameTerms k c _).curr, (putcAs_sameTerms k c _).disp⟩
    · exact ⟨rfl, rfl⟩

/-- `terminal_puts` keeps them. -/
theorem terminalPuts_sameTerms (k : Console) (s : List UInt8) : k.SameTerms (terminalPuts k s) := by
  have h := terminalPutsLoop_invariant (P := (k.setFlags false true).SameTerms)
    (fun k' c h => h.trans (terminalPutc_sameTerms k' c)) (fun k' h => ⟨h.curr, h.disp⟩) s 0 (Console.SameTerms.refl _)
  exact ⟨h.curr, h.disp⟩

/-- `terminal_printf` keeps them. -/
theorem terminalPrintf_sameTerms (k : Console) (format : CPtr) (args : Nat → PrintfArg) :
    k.SameTerms (terminalPrintf k format args).1 := by
  have h := terminalPrintfLoop_invariant (P := (k.setFlags false true).SameTerms)
    (fun k' c h => h.trans (terminalPutc_sameTerms k' c)) (fun k' h => ⟨h.curr, h.disp⟩) (fun k' s h => h.trans (terminalPuts_sameTerms k' s))
    format args addressSpace none 0 0 (Console.SameTerms.refl _)
  exact ⟨h.curr, h.disp⟩

/-- `terminal_write` keeps them. -/
theorem terminalWrite_sameTerms (k : Console) (bytes : List UInt8) : k.SameTerms (terminalWrite k bytes) := by
  have h := terminalWriteLoop_invariant (P := (k.setFlags false true).SameTerms)
    (fun k' c h => h.trans (terminalPutc_sameTerms k' c)) (fun k' h => ⟨h.curr, h.disp⟩) bytes (Console.SameTerms.refl _)
  exact ⟨h.curr, h.disp⟩

/-- The response to a scan code keeps them; the switches of terminals come after it. -/
theorem respond_sameTerms (k : Console) (f : Keys) (c : UInt8) : k.SameTerms (k.respond f c) := by
  unfold Console.respond
  split
  · split
    · split
      · exact ⟨rfl, rfl⟩
      · exact Console.SameTerms.refl k
    · split
      · exact terminalPutc_sameTerms k _
      · exact Console.SameTerms.refl k
  · exact Console.SameTerms.refl k

/-- A key keeps them, until it switches terminals. -/
theorem key_sameTerms (k : Console) (f : Keys) (c : UInt8) : k.SameTerms (k.key f c) := by
  have h := respond_sameTerms { k with charFromKB := true } f c
  exact ⟨h.curr, h.disp⟩

end TerminalAux

end ThreeTermOS
