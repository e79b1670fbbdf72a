import ThreeTermOS.Lemmas.Input
import ThreeTermOS.Lemmas.Launch
import ThreeTermOS.Lemmas.OutputCalls

/-!
# Keystrokes stay with the displayed terminal

A key that switches nothing acts on the displayed terminal, whichever terminal runs, but for two kinds: Ctrl+L clears the displayed
screen and, through `terminal_reset_buffer`, the line being typed on the running terminal; and a character typed while the program of
the displayed terminal is within an output call is shown and stored if that program runs, and dropped if another does. `Isolates` says
what a key should do over all the terminals that may be running; the states are those between any two pieces of an output call.
-/

namespace ThreeTermOS

open Bytes Runs Screens

/-- What a terminal shows and has read is the same in two consoles. -/
structure SameTerminal (k k' : Console) (t : Term) : Prop where
  input : SameInput k k' t
  x : k'.termX t = k.termX t
  y : k'.termY t = k.termY t
  cursor : k'.cursor = k.cursor
  screen : ∀ a, InArea (k.screenBase t) a → k'.mem a = k.mem a

/-- A terminal is as it is. -/
theorem SameTerminal.refl (k : Console) (t : Term) : SameTerminal k k t := ⟨SameInput.refl k t, rfl, rfl, rfl, fun _ _ => rfl⟩

/-- Two consoles in which a terminal is as in a third, with the same terminal displayed. -/
theorem SameTerminal.of_both {k k' k'' : Console} {t : Term} (hdisp : k'.dispTerm = k.dispTerm) (h : SameTerminal k k' t)
    (h' : SameTerminal k k'' t) : SameTerminal k' k'' t := by
  have hbase : k'.screenBase t = k.screenBase t := by
    unfold Console.screenBase
    rw [hdisp]
  refine ⟨⟨fun i hi => ?_, h'.input.idx.trans h.input.idx.symm, h'.input.enter.trans h.input.enter.symm,
    h'.input.read.trans h.input.read.symm, h'.input.write.trans h.input.write.symm⟩, h'.x.trans h.x.symm, h'.y.trans h.y.symm,
    h'.cursor.trans h.cursor.symm, fun a ha => ?_⟩
  · exact (h'.input.buffer i hi).trans (h.input.buffer i hi).symm
  · rw [hbase] at ha
    exact (h'.screen a ha).trans (h.screen a ha).symm

/-- The kernel with another terminal running, as far as the console is concerned. -/
def runningOn (k : Kernel) (t : Term) : Kernel := { k with currTerm := t }

/-- A step that goes on to display another terminal. -/
def Switches (k : Kernel) (e : Event) : Prop :=
  ∃ t r, switchRequest k e = some (Fin.val t, r) ∧ k.dispTerm ≠ t ∧ k.switchLock = false

/-- A key is isolated: whichever terminal with a program runs, the input state of the terminals not displayed stays, and what
becomes of the displayed one is the same. -/
def Isolates (img : Image) (k : Kernel) (c : UInt8) (r : Residue) : Prop :=
  ∀ u k', k.activeProgs u ≠ none → step img (runningOn k u) (.key c r) = .ok k' →
    (∀ t, t ≠ k.dispTerm → SameInput k.toConsole k'.toConsole t) ∧
      ∀ v k'', k.activeProgs v ≠ none → step img (runningOn k v) (.key c r) = .ok k'' →
        SameTerminal k'.toConsole k''.toConsole k.dispTerm

/-- A new line leaves the terminal as it is: on an empty screen, with the cursor at the start of the last row, an empty line was entered
last and nothing has been typed since. -/
structure NewLineIdle (k : Console) (t : Term) : Prop where
  idx : k.currIdx t = 0
  curr : ∀ i < lineBufferSize, k.inputBuffer (inputIndex t currLine i) = 0
  entered : ∀ i < lineBufferSize, k.inputBuffer (inputIndex t enteredLine i) = ([0x0A] : List UInt8).getD i 0
  x : k.termX t = 0
  y : k.termY t = 24
  cursor : k.cursor = 24 * 80
  blank : ∀ r c, cells k.mem (k.screenBase t) r c = blankCell

namespace KeystrokeIsolationAux

open ProcessAux VideoMapAux RoutingAux ScreensAux OutputAux ConsoleInvAux InputAux OutputCallsAux

variable {k k' : Console} {t u : Term}

/-! ### What a key does, whichever terminal runs -/

/-- The console with another terminal running. -/
def running (k : Console) (u : Term) : Console := { k with currTerm := u }

/-- The move of the cursor on the displayed terminal does not look at the running one. -/
theorem settled_running (k : Console) (u d : Term) (xy : Nat × Nat) :
    settled terminalScrollDownDisp (running k u) d xy = running (settled terminalScrollDownDisp k d xy) u := by
  unfold settled
  dsimp only
  by_cases hrow : (k.setCoords d xy).termY d ≥ numRows
  · rw [if_pos hrow]
    exact if_pos hrow
  · rw [if_neg hrow]
    exact if_neg hrow

/-- Nor does `new_line_char` on the displayed terminal. -/
theorem newLineChar_running (k : Console) (u : Term) : newLineChar (running k u) 1 = running (newLineChar k 1) u := by
  have henter : (running k u).enterLine k.dispTerm = running (k.enterLine k.dispTerm) u := rfl
  have htaken : ∀ k₁ : Console, lineTaken (running k₁ u) k.dispTerm = running (lineTaken k₁ k.dispTerm) u := by
    intro k₁
    unfold lineTaken running terminalUpdateCursor
    dsimp only
    split
    · rfl
    · rfl
  rw [newLineChar_one_eq, newLineChar_one_eq, ← htaken, ← settled_running, ← henter]
  rfl

/-- Nor does `backspace_char`. -/
theorem backspaceChar_running (k : Console) (u : Term) : backspaceChar (running k u) = running (backspaceChar k) u := by
  unfold backspaceChar running
  dsimp only
  split
  · rfl
  · rfl

/-- Nor does `all_char` on the displayed terminal. -/
theorem allChar_running (k : Console) (u : Term) (c : UInt8) : allChar (running k u) c 1 = running (allChar k c 1) u := by
  have hset := settled_running (drawn k c) u k.dispTerm (updateCoordsForward (k.termX k.dispTerm) (k.termY k.dispTerm))
  rw [allChar_one_eq, allChar_one_eq]
  exact congrArg (fun k₁ => (terminalUpdateCursor k₁).appendChar k.dispTerm c) hset

/-- Nor does a character put out there. -/
theorem putcAs_running (k : Console) (u : Term) (c : UInt8) : (running k u).putcAs c 1 = running (k.putcAs c 1) u := by
  unfold Console.putcAs
  rw [newLineChar_running, backspaceChar_running, allChar_running]
  by_cases hnl : c = 0x0A ∨ c = 0x0D
  · rw [if_pos hnl, if_pos hnl]
  · rw [if_neg hnl, if_neg hnl]
    by_cases hback : c = backspaceASCII ∧ k.charFromKB = true ∧ k.readFlag k.dispTerm = true
    · rw [if_pos hback]
      exact if_pos hback
    · rw [if_neg hback]
      exact if_neg hback

/-- A key that does not clear the screen, as a whole. -/
theorem key_running {f : Keys} {c : UInt8} (h : IsCharacter f c → ∀ u, Listening (running k u))
    (hclear : ¬(responds c = true ∧ f.ctrl = true ∧ scanToAscii false c = 0x6C)) (u : Term) :
    (running k u).key f c = running (k.key f c) u := by
  rw [key_eq, key_eq]
  unfold Console.respond
  by_cases hr : responds c = true
  · rw [if_pos hr, if_pos hr]
    by_cases hctrl : f.ctrl = true
    · have hl : scanToAscii false c ≠ 0x6C := fun hl => hclear ⟨hr, hctrl, hl⟩
      rw [if_pos hctrl, if_pos hctrl, if_neg hl, if_neg hl]
      rfl
    · rw [if_neg hctrl, if_neg hctrl]
      by_cases hd : displayChar f c ≠ 0
      · have hputc := putcAs_running (heard k) u (displayChar f c)
        have hlistening := h ⟨hr, Bool.not_eq_true _ ▸ hctrl, hd⟩
        have hself : Listening k := hlistening k.currTerm
        rw [if_pos hd, if_pos hd, terminalPutc_heard hself, terminalPutc_heard (hlistening u)]
        by_cases hread : k.readFlag k.dispTerm = true
        · rw [if_pos hread]
          refine Eq.trans ?_ (congrArg (fun k₁ : Console => { k₁ with charFromKB := false }) hputc)
          rw [show (running k u).readFlag (running k u).dispTerm = k.readFlag k.dispTerm from rfl, if_pos hread]
          rfl
        · rw [if_neg hread]
          rw [show (running k u).readFlag (running k u).dispTerm = k.readFlag k.dispTerm from rfl, if_neg hread]
          rfl
      · rw [if_neg hd, if_neg hd]
        rfl
  · rw [if_neg hr, if_neg hr]
    rfl

/-- Such a key leaves the input state of the other terminals. -/
theorem sameInput_key {f : Keys} {c : UInt8} (h : IsCharacter f c → Listening k)
    (hclear : ¬(responds c = true ∧ f.ctrl = true ∧ scanToAscii false c = 0x6C)) (hne : t ≠ k.dispTerm)
    (hidx : k.currIdx k.dispTerm ≤ lineBufferSize) : SameInput k (k.key f c) t := by
  have hlt : k.currIdx k.dispTerm < 2 * lineBufferSize := by
    unfold lineBufferSize at hidx ⊢
    omega
  refine sameInput_of_keyLines (key_lines f c h) ?_ hclear hne (fun _ => ⟨not_inRows_of_ne hne hlt, not_inRows_of_ne hne (by omega)⟩)
  rw [(key_flags k f c).2.1]

/-! ### A character typed into an output call -/

/-- The console after a character typed while the displayed terminal runs and is within an output call. -/
def echoed (k : Console) (c : UInt8) : Console := { (heard (running k k.dispTerm)).putcAs c 1 with charFromKB := false }

/-- A character typed into an output call of the running terminal is shown and stored there. -/
theorem key_echoed {f : Keys} {c : UInt8} (hw : k.writeFlag k.dispTerm = true) (hc : IsCharacter f c) :
    (running k k.dispTerm).key f c = echoed k (displayChar f c) := by
  have hputc := terminalPutc_heard_writing (k := running k k.dispTerm) rfl hw (displayChar f c)
  rw [key_eq]
  unfold Console.respond
  rw [if_pos hc.1, if_neg (by simp [hc.2.1]), if_pos hc.2.2, hputc]
  rfl

/-- With another terminal running, the character is dropped. -/
theorem key_dropped (hapart : ∀ t, k.readFlag t = true → k.writeFlag t = false) (hkb : k.charFromKB = false)
    (hread : k.readFlag k.dispTerm = false) {f : Keys} {c : UInt8} (hc : IsCharacter f c) (hne : u ≠ k.dispTerm) :
    (running k u).key f c = running k u := by
  have hlistening : Listening (running k u) := ⟨hapart, fun he => absurd he hne, hkb⟩
  have hreading : ¬(running k u).readFlag (running k u).dispTerm = true := fun hr => Bool.false_ne_true (hread.symm.trans hr)
  rw [key_eq]
  unfold Console.respond
  rw [if_pos hc.1, if_neg (by simp [hc.2.1]), if_pos hc.2.2, terminalPutc_heard hlistening, if_neg hreading]
  unfold heard running
  dsimp only
  rw [← hkb]

/-- What it does to the lines: it is stored, or the line is entered. -/
theorem sameLines_echoed (hread : k.readFlag k.dispTerm = false) (c : UInt8) :
    SameLines (if c = 0x0A ∨ c = 0x0D then { k.enterLine k.dispTerm with currIdx := Function.update k.currIdx k.dispTerm 0 }
      else k.appendChar k.dispTerm c) (echoed k c) := by
  have hreading : ¬(heard (running k k.dispTerm)).readFlag (heard (running k k.dispTerm)).dispTerm = true :=
    fun hr => Bool.false_ne_true (hread.symm.trans hr)
  unfold echoed Console.putcAs
  by_cases hnl : c = 0x0A ∨ c = 0x0D
  · have hline := sameLines_newLineChar_one (heard (running k k.dispTerm))
    rw [if_neg hreading] at hline
    rw [if_pos hnl, if_pos hnl]
    exact ⟨hline.buffer, hline.idx, hline.enter, hline.read⟩
  · have hline := sameLines_allChar_one (heard (running k k.dispTerm)) c
    rw [if_neg hnl, if_neg hnl, if_neg (fun hb => hreading hb.2.2)]
    exact ⟨hline.buffer, hline.idx, hline.enter, hline.read⟩

/-- It leaves the flag of output. -/
theorem echoed_writeFlag (k : Console) (c : UInt8) : (echoed k c).writeFlag = k.writeFlag := (putcAs_sameFlags _ _ _).write

/-- The input state of the other terminals stays. -/
theorem sameInput_echoed (hread : k.readFlag k.dispTerm = false) (c : UInt8) (hne : t ≠ k.dispTerm)
    (hidx : k.currIdx k.dispTerm ≤ lineBufferSize) : SameInput k (echoed k c) t := by
  have hlt : k.currIdx k.dispTerm < 2 * lineBufferSize := by
    unfold lineBufferSize at hidx ⊢
    omega
  have hout := not_inRows_of_ne hne hlt
  have hline := sameLines_echoed hread c
  have hw : (echoed k c).writeFlag t = k.writeFlag t := by rw [echoed_writeFlag]
  by_cases hnl : c = 0x0A ∨ c = 0x0D
  · rw [if_pos hnl] at hline
    have henter := sameInput_enterLine hne hout
    have hnext : SameInput k { k.enterLine k.dispTerm with currIdx := Function.update k.currIdx k.dispTerm 0 } t :=
      ⟨henter.buffer, Function.update_of_ne hne _ _, rfl, rfl, rfl⟩
    exact hnext.trans (sameInput_of_sameLines hline hw)
  · rw [if_neg hnl] at hline
    exact (sameInput_appendChar hne hout c).trans (sameInput_of_sameLines hline hw)

/-- `new_line_char` moves the hardware cursor to that of the displayed terminal. -/
theorem newLineChar_cursor (k : Console) : (newLineChar k 1).cursor =
    ((newLineChar k 1).termY k.dispTerm * numCols + (newLineChar k 1).termX k.dispTerm) % 2 ^ 16 := by
  obtain ⟨m, x, y, hsettled⟩ := settled_input scrollDownDisp_mem (k.enterLine k.dispTerm) k.dispTerm (0, k.termY k.dispTerm + 1)
  rw [newLineChar_one_eq, hsettled]
  unfold lineTaken terminalUpdateCursor Console.enterLine
  dsimp only
  split
  · rfl
  · rfl

/-- Enter changes the displayed terminal, unless a new line leaves it as it is. -/
theorem sameTerminal_newLine_iff {s : TextScreen} (hs : Shows k k.dispTerm s) (hread : k.readFlag k.dispTerm = false) {c : UInt8}
    (hnl : c = 0x0A ∨ c = 0x0D) : SameTerminal k (echoed k c) k.dispTerm ↔ NewLineIdle k k.dispTerm := by
  have hline := sameLines_echoed hread c
  rw [if_pos hnl] at hline
  have hline_idx : (echoed k c).currIdx k.dispTerm = 0 := by
    rw [hline.idx]
    exact Function.update_self _ _ _
  have hputc : (heard (running k k.dispTerm)).putcAs c 1 = newLineChar (heard (running k k.dispTerm)) 1 := if_pos hnl
  have hacts := newLineChar_one_acts (k := heard (running k k.dispTerm)) (s := s) ⟨hs.cell, hs.x, hs.y⟩
  have hown : Shows (echoed k c) k.dispTerm (s.newline blankCell) := by
    unfold echoed
    rw [hputc]
    exact ⟨hacts.own.cell, hacts.own.x, hacts.own.y⟩
  have hcursor : (echoed k c).cursor = ((echoed k c).termY k.dispTerm * numCols + (echoed k c).termX k.dispTerm) % 2 ^ 16 := by
    unfold echoed
    rw [hputc]
    exact newLineChar_cursor _
  have hbase : (echoed k c).screenBase k.dispTerm = k.screenBase k.dispTerm := by
    unfold echoed
    rw [hputc]
    exact hacts.terms.screenBase k.dispTerm
  constructor
  · rintro ⟨hinput, hx, hy, hcur, hscreen⟩
    have hidx : k.currIdx k.dispTerm = 0 := hinput.idx.symm.trans hline_idx
    have hpos : (s.newline blankCell).pos = s.pos := by
      unfold Screen.pos
      rw [← hown.x, ← hown.y, hx, hy, hs.x, hs.y]
    obtain ⟨hx₀, hy₀⟩ := Screen.newline_pos_eq hpos
    have hkx : k.termX k.dispTerm = 0 := hs.x.trans hx₀
    have hky : k.termY k.dispTerm = 24 := hs.y.trans (Nat.succ.inj hy₀)
    have hcells : (s.newline blankCell).cell = s.cell := by
      rw [← hown.cell, hbase, cells_congr hscreen, hs.cell]
    have hscroll : (s.scroll blankCell).cell = s.cell := by
      refine Eq.trans ?_ hcells
      unfold Screen.newline Screen.lineFeed
      rw [dif_neg (by dsimp only; omega)]
      rfl
    refine ⟨hidx, fun i hi => ?_, fun i hi => ?_, hkx, hky, ?_, fun r c => ?_⟩
    · rw [← hinput.buffer i (by omega), hline.buffer]
      exact enterLine_curr k k.dispTerm hi
    · have hentered := enterLine_entered k k.dispTerm hi
      rw [typedLine_of_idx_zero hidx] at hentered
      have hkept := hinput.buffer (lineBufferSize + i) (by omega)
      rw [← enteredLine_eq, hline.buffer] at hkept
      exact hkept.symm.trans hentered
    · rw [← hcur, hcursor, hx, hy, hkx, hky]
      rfl
    · rw [hs.cell]
      exact Screen.eq_blank_of_scroll hscroll r c
  · rintro ⟨hidx, hcurr, hentered, hx, hy, hcur, hblank⟩
    have hblank' : ∀ r c, s.cell r c = blankCell := fun r c => by rw [← hs.cell]; exact hblank r c
    have hy₀ : ¬s.y.val + 1 < 25 := by
      rw [← hs.y, hy]
      decide
    have hnew : s.newline blankCell = Screen.scroll blankCell { s with x := s.col0 } := by
      unfold Screen.newline Screen.lineFeed
      exact dif_neg hy₀
    have hkx : (echoed k c).termX k.dispTerm = k.termX k.dispTerm := by
      rw [hown.x, hnew, hx]
      rfl
    have hky : (echoed k c).termY k.dispTerm = k.termY k.dispTerm := by
      rw [hown.y, hnew, hs.y]
      rfl
    have hcells : cells (echoed k c).mem (k.screenBase k.dispTerm) = cells k.mem (k.screenBase k.dispTerm) := by
      rw [← hbase, hown.cell, hbase, hs.cell, hnew]
      exact Screen.scroll_of_blank (s := { s with x := s.col0 }) hblank'
    refine ⟨⟨fun i hi => ?_, hline_idx.trans hidx.symm, ?_, ?_, ?_⟩, hkx, hky, ?_, fun a ha => eq_of_cells hcells ha⟩
    · rw [hline.buffer]
      by_cases hrow : i < lineBufferSize
      · rw [hcurr i hrow]
        exact enterLine_curr k k.dispTerm hrow
      · obtain ⟨j, rfl⟩ := Nat.exists_eq_add_of_le (Nat.le_of_not_lt hrow)
        have hj : j < lineBufferSize := by omega
        have hnext := enterLine_entered k k.dispTerm hj
        rw [typedLine_of_idx_zero hidx] at hnext
        rw [← enteredLine_eq, hentered j hj]
        exact hnext
    · rw [hline.enter]
      rfl
    · rw [hline.read]
      rfl
    · rw [echoed_writeFlag]
    · rw [hcursor, hkx, hky, hx, hy, hcur]
      rfl

/-- A character other than Enter changes it always. -/
theorem not_sameTerminal_echoed (hread : k.readFlag k.dispTerm = false) {c : UInt8} (hnl : ¬(c = 0x0A ∨ c = 0x0D)) :
    ¬SameTerminal k (echoed k c) k.dispTerm := by
  intro hsame
  have hline := sameLines_echoed hread c
  rw [if_neg hnl] at hline
  have hidx : (echoed k c).currIdx k.dispTerm = k.currIdx k.dispTerm + 1 := by
    rw [hline.idx]
    exact Function.update_self _ _ _
  exact Nat.succ_ne_self _ (hidx.symm.trans hsame.input.idx)

/-! ### The key that clears the screen -/

/-- Lines emptied that are empty stay as they are. -/
theorem sameInput_resetBuffer_clear (h : LineClear k k.currTerm) (t : Term) : SameInput k (terminalResetBuffer k) t := by
  by_cases ht : t = k.currTerm
  · subst ht
    have hreset := lineClear_resetBuffer k
    exact ⟨fun i hi => (hreset.buffer i hi).trans (h.buffer i hi).symm, hreset.idx.trans h.idx.symm, rfl, rfl, rfl⟩
  · exact sameInput_resetBuffer ht

/-- The console after a key that clears, with terminal `u` running. -/
def cleared (k : Console) (u : Term) : Console := { terminalClear (heard (running k u)) with charFromKB := false }

/-- The key that clears takes the entered line of the displayed terminal back. -/
theorem cleared_enterFlag (k : Console) (u : Term) : (cleared k u).enterFlag k.dispTerm = false := Function.update_self _ _ _

/-- It leaves the input of a terminal whose line is not reset. -/
theorem sameInput_cleared (hne : t ≠ k.dispTerm) (h : SameInput k (terminalResetBuffer (running k u)) t) :
    SameInput k (cleared k u) t :=
  ⟨h.buffer, h.idx, (Function.update_of_ne hne _ _).trans h.enter, h.read, h.write⟩

/-- With the lines of the displayed terminal empty, or the same terminal running, it is left the same. -/
theorem sameTerminal_cleared {u v : Term} (h : u ≠ v → LineClear k k.dispTerm) :
    SameTerminal (cleared k u) (cleared k v) k.dispTerm := by
  by_cases huv : u = v
  · subst huv
    exact ⟨SameInput.refl _ _, rfl, rfl, rfl, fun _ _ => rfl⟩
  · have hline := h huv
    have hreset : ∀ w, SameInput k (terminalResetBuffer (running k w)) k.dispTerm := by
      intro w
      by_cases hw : k.dispTerm = w
      · subst hw
        have hclear : LineClear (running k k.dispTerm) k.dispTerm := ⟨hline.buffer, hline.idx⟩
        have hsame := sameInput_resetBuffer_clear hclear k.dispTerm
        exact ⟨hsame.buffer, hsame.idx, rfl, rfl, rfl⟩
      · have hsame : SameInput (running k w) (terminalResetBuffer (running k w)) k.dispTerm := sameInput_resetBuffer hw
        exact ⟨hsame.buffer, hsame.idx, rfl, rfl, rfl⟩
    have hu := hreset u
    have hv := hreset v
    refine ⟨⟨fun i hi => ?_, ?_, ?_, rfl, rfl⟩, rfl, rfl, rfl, fun _ _ => rfl⟩
    · exact (hv.buffer i hi).trans (hu.buffer i hi).symm
    · exact hv.idx.trans hu.idx.symm
    · rw [cleared_enterFlag, cleared_enterFlag]

/-! ### The kernel -/

variable {κ κ' : Kernel} {img : Image} {c : UInt8} {r : Residue} {output : Term → List Piece}

/-- A key that switches nothing ends with the console after the key. -/
theorem step_key_eq (hsw : ¬Switches κ (.key c r)) (u : Term) :
    step img (runningOn κ u) (.key c r) = .ok (keyed (runningOn κ u) c) := by
  have hdisp : (keyed (runningOn κ u) c).dispTerm = κ.dispTerm := (TerminalAux.key_sameTerms _ _ _).disp
  rw [step, getCKeyboard_eq]
  split
  · rename_i hreq
    refine switchTerminals_refused ?_
    rw [hdisp]
    by_contra hno
    push Not at hno
    obtain ⟨hne, hlt, hl⟩ := hno
    refine hsw ⟨⟨_, hlt⟩, r, if_pos hreq, fun he => hne (congrArg Fin.val he), ?_⟩
    exact Bool.eq_false_iff.mpr hl
  · rfl

/-- What the key that clears leaves, with another terminal running. -/
theorem keyed_runningOn_clears (hc : Clears κ c) (u : Term) : (keyed (runningOn κ u) c).toConsole = cleared κ.toConsole u :=
  key_clears hc.1 hc.2.1 hc.2.2

/-- What any other key leaves, with another terminal running. -/
theorem keyed_runningOn (h : IsCharacter (κ.keys.update c) c → ∀ u, Listening (running κ.toConsole u)) (hc : ¬Clears κ c) (u : Term) :
    (keyed (runningOn κ u) c).toConsole = running (κ.toConsole.key (κ.keys.update c) c) u :=
  key_running h hc u

/-- A key other than the one that clears is isolated, if it is no character or the displayed terminal is not in an output call. -/
theorem isolates_of_not_clears (h : IsCharacter (κ.keys.update c) c → ∀ u, Listening (running κ.toConsole u))
    (hidx : κ.currIdx κ.dispTerm ≤ lineBufferSize) (hsw : ¬Switches κ (.key c r)) (hc : ¬Clears κ c) : Isolates img κ c r := by
  intro u κ' _ hs
  rw [step_key_eq hsw, Outcome.ok.injEq] at hs
  subst hs
  rw [keyed_runningOn h hc]
  refine ⟨fun t ht => ?_, fun v κ'' _ hs => ?_⟩
  · have hkey := sameInput_key (f := κ.keys.update c) (fun hchar => h hchar κ.currTerm) hc ht hidx
    exact ⟨hkey.buffer, hkey.idx, hkey.enter, hkey.read, hkey.write⟩
  · rw [step_key_eq hsw, Outcome.ok.injEq] at hs
    subst hs
    rw [keyed_runningOn h hc]
    exact ⟨⟨fun _ _ => rfl, rfl, rfl, rfl, rfl⟩, rfl, rfl, rfl, fun _ _ => rfl⟩

/-- What a character typed into an output call of the displayed terminal leaves: the character shown if that terminal runs, or nothing
new. -/
theorem keyed_typed (h : OutputOk κ.toConsole output) (hw : κ.writeFlag κ.dispTerm = true) (hc : IsCharacter (κ.keys.update c) c)
    (u : Term) : (keyed (runningOn κ u) c).toConsole =
      if u = κ.dispTerm then echoed κ.toConsole (displayChar (κ.keys.update c) c) else running κ.toConsole u := by
  have hread : κ.readFlag κ.dispTerm = false := not_reading h hw
  by_cases hu : u = κ.dispTerm
  · rw [if_pos hu, hu]
    exact key_echoed hw hc
  · rw [if_neg hu]
    exact key_dropped (apart_of_output h) h.fromKB hread hc hu

/-- Such a character is isolated exactly when no other terminal has a program, or it is an Enter that leaves the terminal as it is. -/
theorem isolates_typed_iff (h : OutputOk κ.toConsole output) (hd : DisplayedStarted κ)
    (hidx : κ.currIdx κ.dispTerm ≤ lineBufferSize) (hsw : ¬Switches κ (.key c r)) (hw : κ.writeFlag κ.dispTerm = true)
    (hc : IsCharacter (κ.keys.update c) c) : Isolates img κ c r ↔
      (∀ t, κ.activeProgs t ≠ none → t = κ.dispTerm) ∨
        (displayChar (κ.keys.update c) c = 0x0A ∨ displayChar (κ.keys.update c) c = 0x0D) ∧ NewLineIdle κ.toConsole κ.dispTerm := by
  have hread : κ.readFlag κ.dispTerm = false := not_reading h hw
  obtain ⟨s, hs⟩ := exists_shows h.screen κ.dispTerm
  have hkeyed := keyed_typed h hw hc
  constructor
  · intro hiso
    by_cases hall : ∀ t, κ.activeProgs t ≠ none → t = κ.dispTerm
    · exact Or.inl hall
    · push Not at hall
      obtain ⟨v, hact, hne⟩ := hall
      -- the displayed terminal running, and then terminal `v`
      obtain ⟨-, hrun⟩ := hiso κ.dispTerm _ hd (step_key_eq hsw κ.dispTerm)
      have hsame := hrun v _ hact (step_key_eq hsw v)
      rw [hkeyed, hkeyed, if_pos rfl, if_neg hne] at hsame
      have hdisp : (running κ.toConsole v).dispTerm = (echoed κ.toConsole (displayChar (κ.keys.update c) c)).dispTerm :=
        (putcAs_sameFlags (heard (running κ.toConsole κ.dispTerm)) _ 1).terms.disp.symm
      have hswap := SameTerminal.of_both hdisp hsame (SameTerminal.refl _ _)
      have hback : SameTerminal κ.toConsole (echoed κ.toConsole (displayChar (κ.keys.update c) c)) κ.dispTerm :=
        ⟨⟨hswap.input.buffer, hswap.input.idx, hswap.input.enter, hswap.input.read, hswap.input.write⟩, hswap.x, hswap.y,
          hswap.cursor, hswap.screen⟩
      by_cases hnl : displayChar (κ.keys.update c) c = 0x0A ∨ displayChar (κ.keys.update c) c = 0x0D
      · exact Or.inr ⟨hnl, (sameTerminal_newLine_iff hs hread hnl).mp hback⟩
      · exact absurd hback (not_sameTerminal_echoed hread hnl)
  · intro hcond u κ' hu hs'
    rw [step_key_eq hsw, Outcome.ok.injEq] at hs'
    subst hs'
    rw [hkeyed]
    refine ⟨fun t ht => ?_, fun v κ'' hv hs'' => ?_⟩
    · split
      · exact sameInput_echoed hread _ ht hidx
      · exact ⟨fun _ _ => rfl, rfl, rfl, rfl, rfl⟩
    · rw [step_key_eq hsw, Outcome.ok.injEq] at hs''
      subst hs''
      rw [hkeyed]
      rcases hcond with hall | ⟨hnl, hidle⟩
      · rw [hall u hu, hall v hv]
        exact SameTerminal.refl _ _
      · have hsame : ∀ w, SameTerminal κ.toConsole (if w = κ.dispTerm then echoed κ.toConsole (displayChar (κ.keys.update c) c)
            else running κ.toConsole w) κ.dispTerm := by
          intro w
          split
          · exact (sameTerminal_newLine_iff hs hread hnl).mpr hidle
          · exact ⟨⟨fun _ _ => rfl, rfl, rfl, rfl, rfl⟩, rfl, rfl, rfl, fun _ _ => rfl⟩
        refine SameTerminal.of_both ?_ (hsame u) (hsame v)
        split
        · exact (putcAs_sameFlags _ _ _).terms.disp
        · rfl

/-- The key that clears is isolated when it finds empty lines wherever it may reset them. -/
theorem isolates_of_lineClear (hsw : ¬Switches κ (.key c r)) (hc : Clears κ c)
    (hlines : ∀ t, κ.activeProgs t ≠ none → t ≠ κ.dispTerm → LineClear κ.toConsole t ∧ LineClear κ.toConsole κ.dispTerm) :
    Isolates img κ c r := by
  intro u κ' hu hs
  rw [step_key_eq hsw, Outcome.ok.injEq] at hs
  subst hs
  rw [keyed_runningOn_clears hc]
  refine ⟨fun t ht => sameInput_cleared ht ?_, fun v κ'' hv hs => ?_⟩
  · by_cases htu : t = u
    · subst htu
      have hline := (hlines t hu ht).1
      have hclear : LineClear (running κ.toConsole t) t := ⟨hline.buffer, hline.idx⟩
      have hsame := sameInput_resetBuffer_clear hclear t
      exact ⟨hsame.buffer, hsame.idx, rfl, rfl, rfl⟩
    · have hsame : SameInput (running κ.toConsole u) (terminalResetBuffer (running κ.toConsole u)) t := sameInput_resetBuffer htu
      exact ⟨hsame.buffer, hsame.idx, rfl, rfl, rfl⟩
  · rw [step_key_eq hsw, Outcome.ok.injEq] at hs
    subst hs
    rw [keyed_runningOn_clears hc]
    refine sameTerminal_cleared (fun huv => ?_)
    by_cases hud : u = κ.dispTerm
    · exact (hlines v hv (fun hvd => huv (hud.trans hvd.symm))).2
    · exact (hlines u hu hud).2

/-- The key that clears is not isolated otherwise. -/
theorem lineClear_of_isolates (hd : DisplayedStarted κ) (hsw : ¬Switches κ (.key c r)) (hc : Clears κ c)
    (hiso : Isolates img κ c r) {t : Term} (hact : κ.activeProgs t ≠ none) (ht : t ≠ κ.dispTerm) :
    LineClear κ.toConsole t ∧ LineClear κ.toConsole κ.dispTerm := by
  -- terminal `t` running, and then the displayed one
  obtain ⟨hsame, -⟩ := hiso t _ hact (step_key_eq hsw t)
  obtain ⟨-, hrun⟩ := hiso κ.dispTerm _ hd (step_key_eq hsw κ.dispTerm)
  have hown := hsame t ht
  have hdisp := (hrun t _ hact (step_key_eq hsw t)).input
  rw [keyed_runningOn_clears hc] at hown
  rw [keyed_runningOn_clears hc, keyed_runningOn_clears hc] at hdisp
  have hreset : ∀ w, LineClear (cleared κ.toConsole w) w := by
    intro w
    have hline := lineClear_resetBuffer (heard (running κ.toConsole w))
    exact ⟨hline.buffer, hline.idx⟩
  have hother : SameInput (running κ.toConsole t) (terminalResetBuffer (running κ.toConsole t)) κ.dispTerm :=
    sameInput_resetBuffer (fun he => ht he.symm)
  refine ⟨⟨fun i hi => ?_, ?_⟩, ⟨fun i hi => ?_, ?_⟩⟩
  · exact (hown.buffer i hi).symm.trans ((hreset t).buffer i hi)
  · exact hown.idx.symm.trans (hreset t).idx
  · exact (hother.buffer i hi).symm.trans ((hdisp.buffer i hi).trans ((hreset κ.dispTerm).buffer i hi))
  · exact hother.idx.symm.trans (hdisp.idx.trans (hreset κ.dispTerm).idx)

/-- A tick makes any terminal with a program the running one; of the console a key looks at, that is all it changes. -/
theorem schedule_runningOn (h : ProcInv κ) {u : Term} (hact : κ.activeProgs u ≠ none) (hl : κ.switchLock = false) :
    ∃ κ', schedule img κ u r = .ok κ' ∧ κ'.toConsole = terminalUpdateCursor (runningOn κ u).toConsole ∧ κ'.keys = κ.keys := by
  have hlocked := procInv_congr h (sameProcs_lock κ true)
  cases hn : κ.nextPId u with
  | zero => exact absurd (by rw [h.tops, hn, Chain.top_zero]) hact
  | succ n =>
    have hswitch : doSwitch img { κ with switchLock := true } u r = .ok (switchedTo { κ with switchLock := true } u n) :=
      doSwitch_active hlocked hn
    unfold schedule
    rw [if_pos hact, if_neg (by simp [hl]), hswitch, Outcome.andThen_ok]
    exact ⟨_, rfl, rfl, rfl⟩

end KeystrokeIsolationAux

open OutputAux OutputCallsAux KeystrokeIsolationAux in
/-- In every state the kernel reaches after its first shell is started, also in the middle of output calls, with no line longer than its
buffer, a key that switches nothing is isolated exactly when two conditions hold. If it clears the screen, the lines of the displayed
terminal and of every other one with a program are empty, or there is no other. If it is a character and the displayed terminal is in an
output call, no other terminal has a program, or it is an Enter that leaves the displayed terminal as it is. -/
theorem key_isolates_iff {img : Image} {k₀ : Kernel} (h₀ : FirstShell img k₀) {s : Session}
    (hr : Reachable (sessionStep img) (Session.idle k₀) s) (hlines : ∀ t, s.kernel.currIdx t ≤ lineBufferSize) {c : UInt8} {r : Residue}
    (hsw : ¬Switches s.kernel (.key c r)) :
    Isolates img s.kernel c r ↔
      (Clears s.kernel c → ∀ t, s.kernel.activeProgs t ≠ none → t ≠ s.kernel.dispTerm →
        LineClear s.kernel.toConsole t ∧ LineClear s.kernel.toConsole s.kernel.dispTerm) ∧
      (IsCharacter (s.kernel.keys.update c) c → s.kernel.writeFlag s.kernel.dispTerm = true →
        (∀ t, s.kernel.activeProgs t ≠ none → t = s.kernel.dispTerm) ∨
          (displayChar (s.kernel.keys.update c) c = 0x0A ∨ displayChar (s.kernel.keys.update c) c = 0x0D) ∧
            NewLineIdle s.kernel.toConsole s.kernel.dispTerm) := by
  obtain ⟨-, hd, hout⟩ := sessionOk_running h₀ hr
  have hidx := hlines s.kernel.dispTerm
  have hnever : Clears s.kernel c → ¬IsCharacter (s.kernel.keys.update c) c :=
    fun hc hchar => Bool.false_ne_true (hchar.2.1.symm.trans hc.2.1)
  constructor
  · exact fun hiso => ⟨fun hc t hact ht => lineClear_of_isolates hd hsw hc hiso hact ht,
      fun hchar hw => (isolates_typed_iff hout hd hidx hsw hw hchar).mp hiso⟩
  · rintro ⟨hclear, htyped⟩
    by_cases hc : Clears s.kernel c
    · exact isolates_of_lineClear hsw hc (hclear hc)
    · by_cases hw : s.kernel.writeFlag s.kernel.dispTerm = true
      · by_cases hchar : IsCharacter (s.kernel.keys.update c) c
        · exact (isolates_typed_iff hout hd hidx hsw hw hchar).mpr (htyped hchar hw)
        · exact isolates_of_not_clears (fun h => absurd h hchar) hidx hsw hc
      · refine isolates_of_not_clears (fun _ u => ?_) hidx hsw hc
        exact ⟨fun t => apart_of_output hout t, fun _ => Bool.not_eq_true _ ▸ hw, hout.fromKB⟩

/-- A read on terminal 0 with one character typed, a shell started on terminal 1, a tick back to terminal 0, and the control key
held. -/
def halfTypedRun : Outcome Stop Kernel :=
  run (step shellImage) firstShell
    [.readBegin, .key 0x1E zeroResidue, .switchTerminals 1 zeroResidue, .schedule 0 zeroResidue, .key 0x1D zeroResidue]

/-- The screen of terminal 1 cleared: the character typed on terminal 0 is lost. -/
theorem halfTypedRun_lost :
    halfTypedRun.isOk = true ∧ (∀ t, halfTypedRun.state.currIdx t ≤ lineBufferSize) ∧
      ¬Switches halfTypedRun.state (.key 0x26 zeroResidue) ∧ ¬Isolates shellImage halfTypedRun.state 0x26 zeroResidue := by
  have hok : halfTypedRun.isOk = true := by decide +kernel
  have hlines : ∀ t, halfTypedRun.state.currIdx t ≤ lineBufferSize := by decide +kernel
  have hnone : (switchRequest halfTypedRun.state (.key 0x26 zeroResidue)).isNone = true := by decide +kernel
  have hact : (halfTypedRun.state.activeProgs 0).isSome = true := by decide +kernel
  have hdisp : halfTypedRun.state.dispTerm = 1 := by decide +kernel
  have hidx : halfTypedRun.state.currIdx 0 = 1 := by decide +kernel
  have hstep : (step shellImage (runningOn halfTypedRun.state 0) (.key 0x26 zeroResidue)).isOk = true := by decide +kernel
  have hidx' : (step shellImage (runningOn halfTypedRun.state 0) (.key 0x26 zeroResidue)).state.currIdx 0 = 0 := by decide +kernel
  generalize halfTypedRun.state = k at hlines hnone hact hdisp hidx hstep hidx' ⊢
  refine ⟨hok, hlines, ?_, ?_⟩
  · rintro ⟨t, r, hreq, -⟩
    rw [hreq] at hnone
    cases hnone
  · intro hiso
    have hact' : k.activeProgs 0 ≠ none := by
      intro he
      rw [he] at hact
      cases hact
    obtain ⟨hsame, -⟩ := hiso 0 _ hact' (Outcome.eq_ok_of_isOk hstep)
    have hkept := (hsame 0 (by rw [hdisp]; decide)).idx
    rw [hidx', hidx] at hkept
    cases hkept

/-- A letter typed after the first shell is started is isolated. -/
theorem key_isolates_iff_letter : Isolates shellImage firstShell 0x1E zeroResidue := by
  have hsw : ¬Switches firstShell (.key 0x1E zeroResidue) := by
    rintro ⟨t, r, hreq, -⟩
    cases hreq
  have hwrite : firstShell.writeFlag firstShell.dispTerm = false := by decide +kernel
  refine (key_isolates_iff firstShell_firstShell (Reachable.refl (Session.idle firstShell)) (by decide +kernel) hsw).mpr ⟨?_, ?_⟩
  · rintro ⟨-, hctrl, -⟩
    cases hctrl
  · exact fun _ hw => absurd (hwrite.symm.trans hw) Bool.false_ne_true

end ThreeTermOS
