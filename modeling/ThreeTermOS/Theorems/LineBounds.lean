import ThreeTermOS.Lemmas.LineStores
import ThreeTermOS.Printf

/-!
# The bound of the line being typed

`curr_idx` is checked nowhere where a character is stored. Output resets the line by the rule of each function: by the count itself
in `terminal_write`, by the position in the string or in the format in `terminal_puts` and `terminal_printf`. Keys do not reset it
at all. `Fits` says of each event whether that is enough, from the number of characters in the line before it. An event is a whole
call or a whole key.
-/

namespace ThreeTermOS

open Bytes Runs

/-- The store is in the line being typed on its terminal: not past its end, in an entered line or in the line of another terminal. -/
structure LineStore.InCurrLine (st : LineStore) : Prop where
  bound : st.idx < lineBufferSize
  entered : ∀ u, ∀ i < lineBufferSize, st.index ≠ inputIndex u enteredLine i
  others : ∀ u, u ≠ st.term → ∀ i < lineBufferSize, st.index ≠ inputIndex u currLine i

/-- The number of characters before the end of the first line of a string. -/
def lineLength (s : List UInt8) : Nat := (s.takeWhile (fun c => !decide (EndsLine c))).length

/-- `terminal_puts` of a string stays in the line: what is stored before the first reset or newline fits after the characters pending. -/
def PutsFits (pending : Nat) (s : List UInt8) : Prop :=
  s = [] ∨ pending + min (lineLength s) (min (s.length - 1) (lineBufferSize - 2)) < lineBufferSize

/-- The pieces stay in the line: every character finds fewer than a line pending, every string fits after those pending. -/
def PiecesFit : Nat → List PrintfPiece → Prop
  | _, [] => True
  | _, .reset :: ps => PiecesFit 0 ps
  | pending, .char c :: ps => pending < lineBufferSize ∧ PiecesFit (if EndsLine c then 0 else pending + 1) ps
  | pending, .string s :: ps => PutsFits pending s ∧ PiecesFit 0 ps

/-- The event stores in bounds. -/
def Fits (k : Console) : ConsoleEvent → Prop
  | .key f c =>
    Types f c k → if displayChar f c = backspaceASCII then k.currIdx k.dispTerm ≤ lineBufferSize else k.currIdx k.dispTerm < lineBufferSize
  | .write bytes =>
    bytes = [] ∨ k.currIdx k.currTerm < lineBufferSize ∨ k.currIdx k.currTerm % lineBufferSize = lineBufferSize - 1
  | .puts s => PutsFits (k.currIdx k.currTerm) (strcpyBytes s)
  | .printf format args => PiecesFit (k.currIdx k.currTerm) (printfPieces format args addressSpace none 0 0)
  | _ => True

namespace LineBoundsAux

open RoutingAux OutputAux InputAux LineStoresAux ConsoleInvAux

variable {k : Console} {c : UInt8} {s : List UInt8} {pending index : Nat}

theorem inCurrLine_iff (st : LineStore) : st.InCurrLine ↔ st.idx < lineBufferSize := by
  refine ⟨fun h => h.bound, fun h => ⟨h, fun u i hi => ?_, fun u hu i hi => ?_⟩⟩
  · unfold LineStore.index inputIndex currLine enteredLine lineBufferSize at *
    omega
  · have hval : u.val ≠ st.term.val := fun he => hu (Fin.ext he)
    unfold LineStore.index inputIndex currLine lineBufferSize at *
    omega

/-! ### Strings -/

theorem lineLength_cons (c : UInt8) (s : List UInt8) : lineLength (c :: s) = if EndsLine c then 0 else lineLength s + 1 := by
  unfold lineLength
  by_cases hends : EndsLine c
  · simp [hends]
  · simp [hends]

/-- `PutsFits` within a string, at an index of the whole. -/
def PutsFitsAt (pending : Nat) (s : List UInt8) (index : Nat) : Prop :=
  s = [] ∨ index % lineBufferSize = lineBufferSize - 1 ∨
    pending + min (lineLength s) (min (s.length - 1) (lineBufferSize - 2 - index % lineBufferSize)) < lineBufferSize

theorem putsFitsAt_zero : PutsFitsAt pending s 0 ↔ PutsFits pending s := by
  unfold PutsFitsAt PutsFits lineBufferSize
  simp

/-- After a reset, the line has room up to the next. -/
theorem putsFitsAt_of_le (hle : pending ≤ index % lineBufferSize + 1) : PutsFitsAt pending s index := by
  unfold PutsFitsAt lineBufferSize at *
  omega

theorem putsFitsAt_cons (hroom : index % lineBufferSize ≠ lineBufferSize - 1) : PutsFitsAt pending (c :: s) index ↔
    pending < lineBufferSize ∧ PutsFitsAt (if EndsLine c then 0 else pending + 1) s (index + 1) := by
  by_cases hends : EndsLine c
  · rw [if_pos hends, and_iff_left (putsFitsAt_of_le (Nat.zero_le _))]
    unfold PutsFitsAt
    rw [lineLength_cons, if_pos hends]
    simp [hroom]
  · rw [if_neg hends]
    unfold PutsFitsAt
    rw [lineLength_cons, if_neg hends]
    cases s with
    | nil => simp [hroom]
    | cons c' s =>
      simp only [List.cons_ne_nil, List.length_cons, false_or]
      unfold lineBufferSize at *
      omega

/-- The loop of `terminal_puts`: the reset before a character empties the line, which then has room. -/
theorem inBounds_putsLoop (s : List UInt8) : ∀ {k} index, Writing k →
    (InBounds (terminalPutsLoopStores k s index) ↔ PutsFitsAt (k.currIdx k.currTerm) s index) := by
  induction s with
  | nil => exact fun _ _ => iff_of_true inBounds_nil (Or.inl rfl)
  | cons c s ih =>
    intro k index h
    rw [terminalPutsLoopStores]
    have hrest : ∀ {k₁}, SameFlags k k₁ → (InBounds (terminalPutcStores k₁ c ++ terminalPutsLoopStores (terminalPutc k₁ c) s (index + 1)) ↔
        k₁.currIdx k₁.currTerm < lineBufferSize ∧
          PutsFitsAt (if EndsLine c then 0 else k₁.currIdx k₁.currTerm + 1) s (index + 1)) := by
      intro k₁ hflags
      have hw := h.congr hflags
      have hputc := terminalPutc_sameFlags hw c
      rw [inBounds_append, inBounds_putc hw, ih (index + 1) (hw.congr hputc), hputc.terms.curr, currIdx_putc hw]
    by_cases hroom : index % lineBufferSize = lineBufferSize - 1
    · rw [if_pos hroom, hrest (terminalResetBuffer_sameFlags k)]
      refine iff_of_true ⟨?_, putsFitsAt_of_le ?_⟩ (Or.inr (Or.inl hroom))
      · rw [show (terminalResetBuffer k).currTerm = k.currTerm from rfl, currIdx_reset]
        decide
      · rw [show (terminalResetBuffer k).currTerm = k.currTerm from rfl, currIdx_reset]
        split <;> omega
    · rw [if_neg hroom, putsFitsAt_cons hroom]
      exact hrest (SameFlags.refl k)

theorem inBounds_puts (h : Ready k) (s : List UInt8) : InBounds (terminalPutsStores k s) ↔ PutsFits (k.currIdx k.currTerm) s := by
  rw [← putsFitsAt_zero]
  exact inBounds_putsLoop s 0 (writing_setFlags h)

/-! ### Bytes -/

/-- The loop of `terminal_write`: once the first byte fits, the reset comes in time for all others. -/
theorem inBounds_writeLoop (bytes : List UInt8) : ∀ {k}, Writing k →
    (InBounds (terminalWriteLoopStores k bytes) ↔
      bytes = [] ∨ k.currIdx k.currTerm < lineBufferSize ∨ k.currIdx k.currTerm % lineBufferSize = lineBufferSize - 1) := by
  induction bytes with
  | nil => exact fun _ => iff_of_true inBounds_nil (Or.inl rfl)
  | cons c bytes ih =>
    intro k h
    rw [terminalWriteLoopStores]
    have hrest : ∀ {k₁}, SameFlags k k₁ → k₁.currIdx k₁.currTerm % lineBufferSize ≠ lineBufferSize - 1 →
        (InBounds (terminalPutcStores k₁ c ++ terminalWriteLoopStores (terminalPutc k₁ c) bytes) ↔
          k₁.currIdx k₁.currTerm < lineBufferSize) := by
      intro k₁ hflags hroom
      have hw := h.congr hflags
      have hputc := terminalPutc_sameFlags hw c
      rw [inBounds_append, inBounds_putc hw, ih (hw.congr hputc), hputc.terms.curr, currIdx_putc hw, and_iff_left_iff_imp]
      intro hlt
      unfold lineBufferSize at *
      right
      left
      split <;> omega
    by_cases hroom : k.currIdx k.currTerm % lineBufferSize = lineBufferSize - 1
    · have hzero : (terminalResetBuffer k).currIdx (terminalResetBuffer k).currTerm = 0 := currIdx_reset k
      rw [if_pos hroom, hrest (terminalResetBuffer_sameFlags k) (by rw [hzero]; decide), hzero]
      exact iff_of_true (by decide) (Or.inr (Or.inr hroom))
    · rw [if_neg hroom, hrest (SameFlags.refl k) hroom]
      simp [hroom]

/-! ### Formats -/

/-- The loop of `terminal_printf`, from any point. -/
theorem inBounds_printfLoop (format : CPtr) (args : Nat → PrintfArg) (fuel : Nat) : ∀ {k} conv buf esp, Writing k →
    (InBounds (terminalPrintfLoopStores format args fuel k conv buf esp) ↔
      PiecesFit (k.currIdx k.currTerm) (printfPieces format args fuel conv buf esp)) := by
  induction fuel with
  | zero => exact fun _ _ _ _ => iff_of_true inBounds_nil trivial
  | succ fuel ih =>
    intro k conv buf esp h
    have hputc : ∀ {k₁} (c : UInt8) (esp' : Nat), Writing k₁ →
        (InBounds (terminalPutcStores k₁ c ++ terminalPrintfLoopStores format args fuel (terminalPutc k₁ c) none (buf + 1) esp') ↔
          PiecesFit (k₁.currIdx k₁.currTerm) (.char c :: printfPieces format args fuel none (buf + 1) esp')) := by
      intro k₁ c esp' hw
      have hflags := terminalPutc_sameFlags hw c
      rw [inBounds_append, inBounds_putc hw, ih none (buf + 1) esp' (hw.congr hflags), hflags.terms.curr, currIdx_putc hw, PiecesFit]
    cases conv with
    | none =>
      rw [terminalPrintfLoopStores, printfPieces]
      by_cases hend : format buf = 0
      · rw [if_pos hend, if_pos hend]
        exact iff_of_true inBounds_nil trivial
      · rw [if_neg hend, if_neg hend]
        -- a character or the start of a conversion, on the line as the reset leaves it
        have hrest : ∀ {k₁}, Writing k₁ →
            (InBounds (if format buf = 0x25 then terminalPrintfLoopStores format args fuel k₁ (some false) (buf + 1) esp
                else terminalPutcStores k₁ (format buf) ++
                  terminalPrintfLoopStores format args fuel (terminalPutc k₁ (format buf)) none (buf + 1) esp) ↔
              PiecesFit (k₁.currIdx k₁.currTerm) (if format buf = 0x25 then printfPieces format args fuel (some false) (buf + 1) esp
                else .char (format buf) :: printfPieces format args fuel none (buf + 1) esp)) := by
          intro k₁ hw
          by_cases hconv : format buf = 0x25
          · rw [if_pos hconv, if_pos hconv]
            exact ih (some false) (buf + 1) esp hw
          · rw [if_neg hconv, if_neg hconv]
            exact hputc (format buf) esp hw
        dsimp only
        by_cases hroom : buf % lineBufferSize = lineBufferSize - 1
        · have hzero : (terminalResetBuffer k).currIdx (terminalResetBuffer k).currTerm = 0 := currIdx_reset k
          rw [if_pos hroom, if_pos hroom, hrest (h.congr (terminalResetBuffer_sameFlags k)), hzero, PiecesFit]
        · rw [if_neg hroom, if_neg hroom]
          exact hrest h
    | some alternate =>
      rw [terminalPrintfLoopStores, printfPieces]
      dsimp only
      by_cases h1 : format buf = 0x25
      · rw [if_pos h1, if_pos h1]
        exact hputc 0x25 esp h
      · rw [if_neg h1, if_neg h1]
        by_cases h2 : format buf = 0x23
        · rw [if_pos h2, if_pos h2]
          exact ih (some true) (buf + 1) esp h
        · rw [if_neg h2, if_neg h2]
          by_cases h3 : format buf = 0x78 ∨ format buf = 0x75 ∨ format buf = 0x64 ∨ format buf = 0x73
          · have hflags := (prints_puts h.ready (convert alternate (format buf) (args esp))).flags
            rw [if_pos h3, if_pos h3, inBounds_append, inBounds_puts h.ready, ih none (buf + 1) (esp + 1) (h.congr hflags),
              hflags.terms.curr, currIdx_puts h.ready, PiecesFit]
          · rw [if_neg h3, if_neg h3]
            by_cases h4 : format buf = 0x63
            · rw [if_pos h4, if_pos h4]
              exact hputc _ (esp + 1) h
            · rw [if_neg h4, if_neg h4]
              exact ih none (buf + 1) esp h

/-! ### Keys -/

theorem putcStores_heard (h : Quiet k) (c : UInt8) :
    terminalPutcStores (heard k) c = if k.readFlag k.dispTerm then (heard k).putcAsStores c 1 else [] := by
  have hflag := putcFlag_key (k := heard k) h.listening.apart rfl
  unfold terminalPutcStores
  dsimp only
  rw [hflag]
  unfold heard
  dsimp only
  by_cases heq : k.currTerm = k.dispTerm
  · rw [if_pos heq, heq, h.write, Bool.or_false]
  · rw [if_neg heq]
    by_cases hr : k.readFlag k.dispTerm = true
    · rw [if_pos hr, if_pos hr, if_pos (Or.inl rfl)]
    · rw [if_neg hr, if_neg hr, if_neg (by omega)]

/-- A key stores only when it shows a character in a read. -/
theorem keyStores_eq (h : Quiet k) (f : Keys) (c : UInt8) :
    lineStores k (.key f c) = if Types f c k then (heard k).putcAsStores (displayChar f c) 1 else [] := by
  have hkey : lineStores k (.key f c) = (heard k).respondStores f c := rfl
  rw [hkey]
  unfold Console.respondStores
  by_cases ht : Types f c k
  · rw [if_pos ht, if_pos ht.responds, if_neg (by rw [ht.ctrl]; decide), if_pos ht.char, putcStores_heard h, if_pos ht.read]
  · rw [if_neg ht]
    by_cases hr : responds c = true
    · rw [if_pos hr]
      by_cases hctrl : f.ctrl = true
      · rw [if_pos hctrl]
      · rw [if_neg hctrl]
        by_cases hd : displayChar f c ≠ 0
        · have hread : ¬k.readFlag k.dispTerm = true := fun hread => ht ⟨hr, Bool.not_eq_true _ ▸ hctrl, hd, hread⟩
          rw [if_pos hd, putcStores_heard h, if_neg hread]
        · rw [if_neg hd]
    · rw [if_neg hr]

theorem inBounds_key (h : Quiet k) (f : Keys) (c : UInt8) : InBounds (lineStores k (.key f c)) ↔ Fits k (.key f c) := by
  rw [keyStores_eq h, Fits]
  by_cases ht : Types f c k
  · rw [if_pos ht, forall_prop_of_true ht]
    have hread : (heard k).readFlag (heard k).dispTerm = true := ht.read
    unfold Console.putcAsStores
    by_cases hnl : displayChar f c = 0x0A ∨ displayChar f c = 0x0D
    · have hback : displayChar f c ≠ backspaceASCII := by
        rcases hnl with hnl | hnl <;> rw [hnl] <;> decide
      rw [if_pos hnl, if_neg hback, newLineCharStores, inBounds_cons, and_iff_left (inBounds_cleared _)]
      rfl
    · rw [if_neg hnl]
      by_cases hback : displayChar f c = backspaceASCII
      · rw [if_pos ⟨hback, rfl, hread⟩, if_pos hback]
        unfold backspaceCharStores
        by_cases hidx : k.currIdx k.dispTerm > 0
        · have herases : (heard k).readFlag (heard k).dispTerm = true ∧ (heard k).currIdx (heard k).dispTerm > 0 := ⟨hread, hidx⟩
          rw [if_pos herases, inBounds_cons, and_iff_left inBounds_nil]
          change k.currIdx k.dispTerm - 1 < lineBufferSize ↔ _
          unfold lineBufferSize
          omega
        · have hidle : ¬((heard k).readFlag (heard k).dispTerm = true ∧ (heard k).currIdx (heard k).dispTerm > 0) :=
            fun hb => hidx hb.2
          rw [if_neg hidle]
          exact iff_of_true inBounds_nil (by omega)
      · rw [if_neg (fun hb => hback hb.1), if_neg hback, allCharStores, inBounds_cons, and_iff_left inBounds_nil]
        rfl
  · rw [if_neg ht]
    exact iff_of_true inBounds_nil (fun htypes => absurd htypes ht)

/-- The stores of one event, with no output under way before it. -/
theorem inBounds_event (h : Quiet k) (e : ConsoleEvent) : InBounds (lineStores k e) ↔ Fits k e := by
  cases e with
  | key f c => exact inBounds_key h f c
  | write bytes => exact inBounds_writeLoop bytes (writing_setFlags h.ready)
  | puts s => exact inBounds_puts h.ready (strcpyBytes s)
  | printf format args => exact inBounds_printfLoop format args addressSpace none 0 0 (writing_setFlags h.ready)
  | readBegin => exact iff_of_true inBounds_nil trivial
  | readCopy nbytes => exact iff_of_true inBounds_nil trivial
  | run t => exact iff_of_true inBounds_nil trivial
  | display t => exact iff_of_true inBounds_nil trivial
  | updateCursor => exact iff_of_true inBounds_nil trivial
  | memory m => exact iff_of_true inBounds_nil trivial

end LineBoundsAux

open LineBoundsAux in
/-- In every run of the console from boot, every character is stored in the line being typed on its terminal exactly when every event
fits. -/
theorem stores_inCurrLine_iff (m : CPtr) (p : Addr → PCB) (es : List ConsoleEvent) :
    (∀ st ∈ collect consoleStep lineStores (boot m p).toConsole es, st.InCurrLine) ↔
      Meets consoleStep Fits (boot m p).toConsole es := by
  simp only [inCurrLine_iff]
  rw [forall_mem_collect_iff]
  exact Meets.iff_of_invariant (I := ConsoleOk) (fun k e k' h hs => ConsoleInvAux.consoleOk_consoleStep h hs)
    (fun k e h => inBounds_event h.quiet e) (ConsoleInvAux.consoleOk_boot m p)

/-- A read, and one more key than the line has room for. -/
def typedTooMuch : List ConsoleEvent := .readBegin :: List.replicate (lineBufferSize + 1) (.key noModifiers 0x1E)

/-- The character after a full line is stored in the line entered. -/
theorem typedTooMuch_overruns :
    ¬∀ st ∈ collect consoleStep lineStores (boot (fun _ => 0) (fun _ => rootShellPCB)).toConsole typedTooMuch, st.InCurrLine := by
  intro h
  have hst : LineStore.mk 0 lineBufferSize ∈
      collect consoleStep lineStores (boot (fun _ => 0) (fun _ => rootShellPCB)).toConsole typedTooMuch := by decide +kernel
  exact Nat.lt_irrefl _ (h _ hst).bound

end ThreeTermOS
