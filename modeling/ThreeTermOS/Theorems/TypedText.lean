import ThreeTermOS.Lemmas.Input

/-!
# The line being typed and the screen

The characters pending on a terminal in a read are the ones its screen shows up to the cursor, wherever the line began, over the ends of
rows and when the screen scrolls. `lineBegan` follows the cell the line began in: the cursor's after Enter, a row higher after a scroll.
-/

namespace ThreeTermOS

open Bytes Runs Screens

/-- The number of cells before the cursor of a terminal, row by row. -/
def cursorCell (k : Console) (t : Term) : Nat := numCols * k.termY t + k.termX t

/-- The character in a cell of the screen of a terminal. -/
def Console.charAt (k : Console) (t : Term) (n : Nat) : UInt8 := k.mem (k.screenBase t + 2 * n)

/-- The characters pending on a terminal are those its screen shows up to the cursor. -/
structure TextShown (k : Console) (t : Term) : Prop where
  room : k.currIdx t ≤ cursorCell k t
  shown : ∀ i < k.currIdx t, k.charAt t (cursorCell k t - k.currIdx t + i) = k.inputBuffer (inputIndex t currLine i)

/-- The last character pending was removed, and its cell blanked. -/
structure LastBlanked (k k' : Console) (t : Term) : Prop where
  idx : k'.currIdx t + 1 = k.currIdx t
  cell : cursorCell k' t + 1 = cursorCell k t
  removed : k.charAt t (cursorCell k' t) = k.inputBuffer (inputIndex t currLine (k'.currIdx t))
  blank : k'.charAt t (cursorCell k' t) = 0x20

/-- The key is Enter, in a read. -/
def EntersText (f : Keys) (c : UInt8) (k : Console) : Prop := Types f c k ∧ (displayChar f c = 0x0A ∨ displayChar f c = 0x0D)

/-- The key appends a character, in a read. -/
def AppendsText (f : Keys) (c : UInt8) (k : Console) : Prop :=
  Types f c k ∧ ¬(displayChar f c = 0x0A ∨ displayChar f c = 0x0D) ∧ displayChar f c ≠ backspaceASCII

instance (f : Keys) (c : UInt8) (k : Console) : Decidable (EntersText f c k) := inferInstanceAs (Decidable (_ ∧ _))

instance (f : Keys) (c : UInt8) (k : Console) : Decidable (AppendsText f c k) := inferInstanceAs (Decidable (_ ∧ _))

/-- Keys that do not clear the screen and leave 127 characters pending at most, while any terminal runs. -/
def KeysTyped (k : Console) : ConsoleEvent → Prop
  | .key f c =>
    ¬(responds c = true ∧ f.ctrl = true ∧ scanToAscii false c = 0x6C) ∧
      (AppendsText f c k → k.currIdx k.dispTerm + 1 < lineBufferSize)
  | .run _ => True
  | .updateCursor => True
  | _ => False

instance KeysTyped.decidable (k : Console) : (e : ConsoleEvent) → Decidable (KeysTyped k e)
  | .key _ _ => inferInstanceAs (Decidable (_ ∧ (_ → _)))
  | .run _ | .updateCursor => isTrue trivial
  | .write _ | .puts _ | .printf _ _ | .readBegin | .readCopy _ | .display _ | .memory _ => isFalse id

/-- Where the line on the displayed terminal began, after a step from `k` to `k'`. -/
def beganAfter (k k' : Console) (began : Nat) : ConsoleEvent → Nat
  | .key f c =>
    if EntersText f c k then cursorCell k' k.dispTerm
    else if AppendsText f c k ∧ (updateCoordsForward (k.termX k.dispTerm) (k.termY k.dispTerm)).2 ≥ numRows then began - numCols
    else began
  | _ => began

/-- Where the line on the displayed terminal began, after a run. -/
def lineBegan : Console → Nat → List ConsoleEvent → Nat
  | _, began, [] => began
  | k, began, e :: es => lineBegan (consoleStep k e).state (beganAfter k (consoleStep k e).state began e) es

namespace TypedTextAux

open RoutingAux OutputAux InputAux ScreensAux ConsoleInvAux

variable {k k' : Console} {t : Term} {s : TextScreen} {f : Keys} {c : UInt8}

/-! ### Screens -/

/-- The line being typed, as cells. -/
def typedCells (k : Console) (t : Term) : List Cell := (typedLine k t).map (fun c => (c, attrib))

/-- A typed line has as many cells as characters. -/
theorem typedCells_length (k : Console) (t : Term) : (typedCells k t).length = k.currIdx t := by
  unfold typedCells
  rw [List.length_map, typedLine_length]

/-- The cursor's cell is the position on the screen shown. -/
theorem cursorCell_eq (hs : Shows k t s) : cursorCell k t = s.pos := by
  unfold cursorCell Screen.pos numCols
  rw [hs.x, hs.y]

/-- A cell by its number. -/
theorem charAt_eq (hs : Shows k t s) (r : Fin 25) (x : Fin 80) : k.charAt t (80 * r.val + x.val) = (s.cell r x).1 := by
  rw [← hs.cell]
  rfl

/-- A screen that ends with the typed cells before the cursor shows the text. -/
theorem textShown_of_endsWith (hs : Shows k t s) (h : s.EndsWith (typedCells k t)) : TextShown k t := by
  have hroom := h.room
  have hlt := s.pos_lt
  rw [typedCells_length, ← cursorCell_eq hs] at hroom
  rw [← cursorCell_eq hs] at hlt
  refine ⟨hroom, fun i hi => ?_⟩
  have hlen : i < (typedCells k t).length := by
    rw [typedCells_length]
    exact hi
  have hn : cursorCell k t - k.currIdx t + i < 2000 := by omega
  generalize hnum : cursorCell k t - k.currIdx t + i = n at hn ⊢
  have hsplit : 80 * (n / 80) + n % 80 = n := Nat.div_add_mod n 80
  have hcell := h.shown ⟨n / 80, by omega⟩ ⟨n % 80, Nat.mod_lt _ (by decide)⟩ i hlen (by
    rw [typedCells_length, ← cursorCell_eq hs]
    dsimp only
    omega)
  have hchar := charAt_eq hs ⟨n / 80, by omega⟩ ⟨n % 80, Nat.mod_lt _ (by decide)⟩
  dsimp only at hchar
  rw [hsplit, hcell] at hchar
  rw [hchar]
  unfold typedCells typedLine
  simp

/-! ### Keys -/

/-- A line being typed on a displayed terminal that is in a read, as its screen shows it; it began at a cell of the screen. -/
structure Typing (t : Term) (began : Nat) (k : Console) : Prop where
  ok : ConsoleOk k
  disp : k.dispTerm = t
  read : k.readFlag t = true
  bound : k.currIdx t < lineBufferSize
  began : cursorCell k t = began + k.currIdx t
  shown : ∃ s, Shows k t s ∧ s.EndsWith (typedCells k t)

/-- A key that types nothing and does not clear leaves the screen. -/
theorem keyScreen_idle (hno : ¬Types f c k) (hclear : ¬(responds c = true ∧ f.ctrl = true ∧ scanToAscii false c = 0x6C)) (n : Nat) :
    keyScreen f c (k.readFlag k.dispTerm) n s = s := by
  unfold keyScreen
  by_cases hr : responds c = true
  · rw [if_pos hr]
    by_cases hctrl : f.ctrl = true
    · rw [if_pos hctrl, if_neg (fun hl => hclear ⟨hr, hctrl, hl⟩)]
    · rw [if_neg hctrl, if_neg (fun hd => hno ⟨hr, Bool.not_eq_true _ ▸ hctrl, hd.1, hd.2⟩)]
  · rw [if_neg hr]

/-- A key that types puts its character on the screen, or erases the one before. -/
theorem keyScreen_types (ht : Types f c k) (n : Nat) : keyScreen f c (k.readFlag k.dispTerm) n s =
    if displayChar f c = backspaceASCII then if n > 0 then s.erasePrev blankCell else s else printChar s (displayChar f c) := by
  unfold keyScreen
  rw [if_pos ht.responds, if_neg (by rw [ht.ctrl]; decide), if_pos ⟨ht.char, ht.read⟩]

/-- The cells of a line depend on the line alone. -/
theorem typedCells_congr (h : SameLines k k') (t : Term) : typedCells k' t = typedCells k t := by
  unfold typedCells
  rw [typedLine_congr h]

/-- A key that changes neither the line nor the screen. -/
theorem typing_idle {began : Nat} (h : Typing t began k) (hs : Shows k k.dispTerm s) (hend : s.EndsWith (typedCells k t))
    (hact : Acts k (k.key f c) k.dispTerm s) (hlines : SameLines k (k.key f c)) : Typing t began (k.key f c) := by
  obtain ⟨hok, hdisp, hread, hbound, hbegan, -⟩ := h
  subst hdisp
  refine ⟨consoleOk_key hok f c, hact.terms.disp, ?_, ?_, ?_, s, hact.own, ?_⟩
  · rw [hlines.read, hread]
  · rw [hlines.idx]
    exact hbound
  · rw [cursorCell_eq hact.own, hlines.idx, ← hbegan, cursorCell_eq hs]
  · rw [typedCells_congr hlines]
    exact hend

/-- Enter starts the text anew at the cell of the cursor. -/
theorem typing_enters {began : Nat} (h : Typing t began k) (he : EntersText f c k) :
    Typing t (cursorCell (k.key f c) k.dispTerm) (k.key f c) := by
  obtain ⟨hok, hdisp, hread, -, -, -⟩ := h
  subst hdisp
  have hlines := key_enters hok.quiet.listening he.1 he.2
  have hok' := consoleOk_key hok f c
  obtain ⟨s', hs'⟩ := exists_shows hok'.onScreen k.dispTerm
  have hidx : (k.key f c).currIdx k.dispTerm = 0 := by
    rw [hlines.idx]
    exact Function.update_self k.dispTerm _ k.currIdx
  refine ⟨hok', (TerminalAux.key_sameTerms k f c).disp, ?_, ?_, ?_, s', hs', ?_⟩
  · rw [hlines.read]
    exact hread
  · rw [hidx]
    decide
  · rw [hidx, Nat.add_zero]
  · unfold typedCells
    rw [typedLine_of_idx_zero hidx]
    exact Screen.endsWith_nil s'

/-- What a key that erases leaves. -/
theorem key_lastBlanked (hok : ConsoleOk k) (hs : Shows k k.dispTerm s) (hend : s.EndsWith (typedCells k k.dispTerm))
    (he : Erases f c k) : LastBlanked k (k.key f c) k.dispTerm ∧ SameLines (lineErased k k.dispTerm) (k.key f c) ∧
      Acts k (k.key f c) k.dispTerm (s.back.setCell blankCell) ∧
      (s.back.setCell blankCell).EndsWith (typedCells (k.key f c) k.dispTerm) := by
  obtain ⟨hr, hctrl, hback, hread, hidx⟩ := he
  have ht : Types f c k := ⟨hr, hctrl, by rw [hback]; decide, hread⟩
  have hlines := key_edits hok.quiet.listening ht (by rw [hback]; decide)
  rw [if_pos hback, if_pos hidx] at hlines
  have hact := key_erases_acts hok.quiet.listening hs (f := f) (c := c) ⟨hr, hctrl, hback, hread, hidx⟩
  have hcells : typedCells k k.dispTerm =
      typedCells (k.key f c) k.dispTerm ++ [(k.inputBuffer (inputIndex k.dispTerm currLine (k.currIdx k.dispTerm - 1)), attrib)] := by
    rw [typedCells_congr hlines]
    unfold typedCells
    rw [typedLine_lineErased hidx, List.map_append, List.map_singleton]
  rw [hcells] at hend
  obtain ⟨hpos, hcell, hend'⟩ := hend.erase blankCell
  have hidx' : (k.key f c).currIdx k.dispTerm = k.currIdx k.dispTerm - 1 := by
    rw [hlines.idx]
    exact Function.update_self k.dispTerm _ k.currIdx
  have hcursor : cursorCell (k.key f c) k.dispTerm = s.back.pos := by
    rw [cursorCell_eq hact.own]
    rfl
  refine ⟨⟨by omega, ?_, ?_, ?_⟩, hlines, hact, hend'⟩
  · rw [hcursor, cursorCell_eq hs]
    exact hpos
  · rw [hcursor, Screen.pos, charAt_eq hs, hcell, hidx']
  · rw [hcursor, Screen.pos, charAt_eq hact.own]
    unfold Screen.setCell
    dsimp only
    rw [if_pos ⟨rfl, rfl⟩]
    rfl

/-- A backspace shortens the text by its last cell. -/
theorem typing_erases {began : Nat} (h : Typing t began k) (he : Erases f c k) : Typing t began (k.key f c) := by
  obtain ⟨hok, hdisp, hread, hbound, hbegan, s, hs, hend⟩ := h
  subst hdisp
  obtain ⟨hblanked, hlines, hact, hend'⟩ := key_lastBlanked hok hs hend he
  have hidx := hblanked.idx
  have hcell := hblanked.cell
  refine ⟨consoleOk_key hok f c, hact.terms.disp, ?_, by omega, by omega, _, hact.own, hend'⟩
  rw [hlines.read]
  exact hread

/-- A character goes behind the text, which moves up a row if the screen scrolls. -/
theorem typing_appends {began : Nat} (h : Typing t began k) (ha : AppendsText f c k) (hroom : k.currIdx k.dispTerm + 1 < lineBufferSize) :
    Typing t (if (updateCoordsForward (k.termX k.dispTerm) (k.termY k.dispTerm)).2 ≥ numRows then began - numCols else began)
      (k.key f c) := by
  obtain ⟨hok, hdisp, hread, hbound, hbegan, s, hs, hend⟩ := h
  subst hdisp
  obtain ⟨ht, hnl, hback⟩ := ha
  have hlines := key_edits hok.quiet.listening ht hnl
  rw [if_neg hback] at hlines
  have hact := key_acts hs f c (fun _ => hok.quiet.listening) (fun he => hback he.1.2.2.1)
  rw [keyScreen_types ht, if_neg hback] at hact
  unfold printChar at hact
  rw [if_neg hnl] at hact
  have hcells : typedCells (k.key f c) k.dispTerm = typedCells k k.dispTerm ++ [(displayChar f c, attrib)] := by
    rw [typedCells_congr hlines]
    unfold typedCells
    rw [typedLine_appendChar, List.map_append, List.map_singleton]
  have hidx : (k.key f c).currIdx k.dispTerm = k.currIdx k.dispTerm + 1 := by
    rw [hlines.idx]
    exact Function.update_self k.dispTerm _ k.currIdx
  have hcursor := cursorCell_eq hs
  have hlast : s.AtEnd → s.pos = 1999 := by
    rintro ⟨hx, hy⟩
    unfold Screen.pos
    omega
  have hput : (s.put blankCell (displayChar f c, attrib)).EndsWith (typedCells (k.key f c) k.dispTerm) := by
    rw [hcells]
    refine hend.put blankCell _ (fun hlastCell => ?_)
    rw [typedCells_length, hlast hlastCell]
    unfold lineBufferSize at hroom
    omega
  -- the source's test for a scroll is that the cursor is on the last cell
  have hscrolls : (updateCoordsForward (k.termX k.dispTerm) (k.termY k.dispTerm)).2 ≥ numRows ↔ s.AtEnd := by
    have hx := s.x.isLt
    have hy := s.y.isLt
    rw [hs.x, hs.y]
    unfold updateCoordsForward Screen.AtEnd numRows numCols
    split <;> omega
  refine ⟨consoleOk_key hok f c, hact.terms.disp, ?_, by omega, ?_, _, hact.own, hput⟩
  · rw [hlines.read]
    exact hread
  · rw [cursorCell_eq hact.own, hidx]
    by_cases hlastCell : s.AtEnd
    · have hpos := Screen.put_pos_of_atEnd blankCell (displayChar f c, attrib) hlastCell
      have hlastPos := hlast hlastCell
      rw [if_pos (hscrolls.mpr hlastCell)]
      unfold lineBufferSize numCols at *
      omega
    · have hpos := Screen.put_pos_of_not_atEnd blankCell (displayChar f c, attrib) hlastCell
      rw [if_neg (fun he => hlastCell (hscrolls.mp he))]
      omega

/-- Every key of a read keeps the text on the screen. -/
theorem typing_key {began : Nat} (h : Typing t began k) (hkeys : KeysTyped k (.key f c)) :
    Typing t (beganAfter k (k.key f c) began (.key f c)) (k.key f c) := by
  obtain ⟨hclear, hroom⟩ := hkeys
  obtain ⟨s, hs, hend⟩ := h.shown
  have hs' : Shows k k.dispTerm s := by
    rw [h.disp]
    exact hs
  rw [beganAfter]
  by_cases hent : EntersText f c k
  · rw [if_pos hent]
    exact typing_enters h hent
  · rw [if_neg hent]
    by_cases happ : AppendsText f c k
    · have happends := typing_appends h happ (hroom happ)
      simpa only [happ, true_and] using happends
    · rw [if_neg (fun ha => happ ha.1)]
      by_cases ht : Types f c k
      · have hnl : ¬(displayChar f c = 0x0A ∨ displayChar f c = 0x0D) := fun hnl => hent ⟨ht, hnl⟩
        have hback : displayChar f c = backspaceASCII := by
          by_contra hne
          exact happ ⟨ht, hnl, hne⟩
        by_cases hidx : 0 < k.currIdx k.dispTerm
        · exact typing_erases h ⟨ht.responds, ht.ctrl, hback, ht.read, hidx⟩
        · have hact := key_acts hs' f c (fun _ => h.ok.quiet.listening) (fun he => hidx he.1.2.2.2.2)
          rw [keyScreen_types ht, if_pos hback, if_neg hidx] at hact
          have hlines := key_edits h.ok.quiet.listening ht hnl
          rw [if_pos hback, if_neg hidx] at hlines
          exact typing_idle h hs' hend hact hlines
      · have hact := key_acts hs' f c (fun _ => h.ok.quiet.listening) (fun he => ht ⟨he.1.1, he.1.2.1, by rw [he.1.2.2.1]; decide, he.1.2.2.2.1⟩)
        rw [keyScreen_idle ht hclear] at hact
        exact typing_idle h hs' hend hact (key_idle (fun _ => h.ok.quiet.listening) ht hclear)

/-- Every step of the console keeps it there. -/
theorem typing_step {began : Nat} (h : Typing t began k) {e : ConsoleEvent} (hkeys : KeysTyped k e) (hs : consoleStep k e = .ok k') :
    Typing t (beganAfter k k' began e) k' := by
  cases e with
  | key f c =>
    obtain rfl := Outcome.ok.inj hs
    exact typing_key h hkeys
  | run u =>
    obtain rfl := Outcome.ok.inj hs
    exact ⟨consoleOk_consoleStep h.ok hs, h.disp, h.read, h.bound, h.began, h.shown.imp (fun s hs => ⟨⟨hs.1.cell, hs.1.x, hs.1.y⟩, hs.2⟩)⟩
  | updateCursor =>
    obtain rfl := Outcome.ok.inj hs
    exact ⟨consoleOk_consoleStep h.ok hs, h.disp, h.read, h.bound, h.began, h.shown.imp (fun s hs => ⟨⟨hs.1.cell, hs.1.x, hs.1.y⟩, hs.2⟩)⟩
  | write bytes => exact absurd hkeys id
  | puts s => exact absurd hkeys id
  | printf format args => exact absurd hkeys id
  | readBegin => exact absurd hkeys id
  | readCopy nbytes => exact absurd hkeys id
  | display u => exact absurd hkeys id
  | memory m => exact absurd hkeys id

/-- A run of such steps keeps it there, where `lineBegan` says the text begins. -/
theorem typing_run {es : List ConsoleEvent} : ∀ {k began}, Typing t began k → Meets consoleStep KeysTyped k es →
    run consoleStep k es = .ok k' → Typing t (lineBegan k began es) k' := by
  induction es with
  | nil =>
    intro k began h _ hr
    exact Outcome.ok.inj hr ▸ h
  | cons e es ih =>
    intro k began h hkeys hr
    rw [run_cons, Outcome.andThen_eq_ok] at hr
    obtain ⟨k₁, hs, hr⟩ := hr
    have hstep := typing_step h hkeys.1 hs
    rw [lineBegan, show (consoleStep k e).state = k₁ by rw [hs, Outcome.state_ok]]
    exact ih hstep (hkeys.2 k₁ hs) hr

end TypedTextAux

open TypedTextAux ConsoleInvAux in
/-- On a displayed terminal whose read has just begun, the cursor anywhere: after any keys that leave 127 characters pending at most
the characters pending are those shown up to the cursor, a backspace removes the last of them and blanks its cell, and the line began
as many cells before the cursor as there are characters. -/
theorem typed_text_shown (k k' : Console) (es : List ConsoleEvent) (h : ConsoleOk k) (hread : k.readFlag k.dispTerm = true)
    (hidx : k.currIdx k.dispTerm = 0) (hkeys : Meets consoleStep KeysTyped k es) (hr : run consoleStep k es = .ok k') :
    TextShown k' k.dispTerm ∧ (∀ f c, OutputAux.Erases f c k' → LastBlanked k' (k'.key f c) k.dispTerm) ∧
      cursorCell k' k.dispTerm = lineBegan k (cursorCell k k.dispTerm) es + k'.currIdx k.dispTerm := by
  obtain ⟨s₀, hs₀⟩ := exists_shows h.onScreen k.dispTerm
  have hstart : Typing k.dispTerm (cursorCell k k.dispTerm) k := by
    refine ⟨h, rfl, hread, by rw [hidx]; decide, by rw [hidx, Nat.add_zero], s₀, hs₀, ?_⟩
    unfold typedCells
    rw [InputAux.typedLine_of_idx_zero hidx]
    exact Screen.endsWith_nil s₀
  obtain ⟨hok, hdisp, -, -, hbegan, s, hs, hend⟩ := typing_run hstart hkeys hr
  refine ⟨textShown_of_endsWith hs hend, fun f c he => ?_, hbegan⟩
  rw [← hdisp] at hs hend ⊢
  exact (key_lastBlanked hok hs hend he).1

/-- A read on terminal 0 with the cursor on the last cell of the screen, and terminal 1 running. -/
def lastCellRead : Console :=
  { terminalReadBegin (boot (fun _ => 0) (fun _ => rootShellPCB)).toConsole with
    termX := fun _ => 79
    termY := fun _ => 24
    currTerm := 1 }

/-- Two characters over the end of the screen, and a backspace. -/
def typedOverEnd : List ConsoleEvent := [.key noModifiers 0x1E, .key noModifiers 0x30, .key noModifiers 0x0E]

/-- The console after them. -/
def overEndRun : Outcome Empty Console := run consoleStep lastCellRead typedOverEnd

/-- A line typed over the end of a row and erased back. -/
theorem typed_text_shown_overEnd :
    TextShown overEndRun.state 0 ∧ (∀ f c, OutputAux.Erases f c overEndRun.state → LastBlanked overEndRun.state (overEndRun.state.key f c) 0) ∧
      cursorCell overEndRun.state 0 = lineBegan lastCellRead (cursorCell lastCellRead 0) typedOverEnd + overEndRun.state.currIdx 0 := by
  have hok : ConsoleOk lastCellRead := by
    refine ⟨⟨by decide, rfl⟩, by decide, by decide⟩
  have hkeys : Meets consoleStep KeysTyped lastCellRead typedOverEnd := by decide +kernel
  have hrun : overEndRun.isOk = true := by decide +kernel
  exact typed_text_shown lastCellRead overEndRun.state typedOverEnd hok (by decide) (by decide) hkeys (Outcome.eq_ok_of_isOk hrun)

end ThreeTermOS
