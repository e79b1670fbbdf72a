import Mathlib.Data.List.GetD
import ThreeTermOS.Lemmas.Launch
import ThreeTermOS.Lemmas.Reading

/-!
# A line from Enter to the read

`terminal_read` waits for `ENTER_FLAG` and copies the entered line later, from the displayed terminal and as far as the line being
typed next reaches. What comes in between may overwrite the line, clear it or its flag, add to the copy, or put another terminal in
its place. With none of that, the read gets the line as it was entered. The beginning of a read, its copy and each output call are one
step here: keys and ticks come between these, not within.
-/

namespace ThreeTermOS

open Bytes Runs

/-- A key that puts a character into the line of another terminal stores outside the rows of terminal `t`. -/
def KeepsRows (t : Term) (k : Kernel) : Event → Prop
  | .key c _ => Types (k.keys.update c) c k.toConsole → k.dispTerm ≠ t →
      ¬InRows t (inputIndex k.dispTerm currLine (k.currIdx k.dispTerm)) ∧
        ¬InRows t (inputIndex k.dispTerm currLine (k.currIdx k.dispTerm - 1))
  | _ => True

/-- The step leaves the line entered on terminal `t` to its reader, which has not copied it yet. -/
def KeepsLine (t : Term) (k : Kernel) : Event → Prop
  | .key c _ =>
    (Clears k c → k.currTerm ≠ t ∧ (k.dispTerm = t → k.polled t = true)) ∧
      (Types (k.keys.update c) c k.toConsole → k.dispTerm = t →
        displayChar (k.keys.update c) c ≠ 0x0A ∧ displayChar (k.keys.update c) c ≠ 0x0D ∧
          (displayChar (k.keys.update c) c ≠ backspaceASCII → k.currIdx t < lineBufferSize))
  | .readCopy _ => k.currTerm ≠ t ∧ (k.polled k.currTerm = true → k.dispTerm = t → k.polled t = true)
  | _ => True

instance KeepsRows.decidable (t : Term) (k : Kernel) : (e : Event) → Decidable (KeepsRows t k e)
  | .key _ _ => inferInstanceAs (Decidable (_ → _ → _ ∧ _))
  | .execute _ _ | .halt _ _ | .schedule _ _ | .switchTerminals _ _ | .write _ | .puts _ | .printf _ _ | .readBegin | .readPoll
  | .readCopy _ | .vidmap _ | .lock _ => isTrue trivial

instance KeepsLine.decidable (t : Term) (k : Kernel) : (e : Event) → Decidable (KeepsLine t k e)
  | .key _ _ => inferInstanceAs (Decidable ((_ → _ ∧ _) ∧ (_ → _ → _ ∧ _ ∧ (_ → _))))
  | .readCopy _ => inferInstanceAs (Decidable (_ ∧ (_ → _ → _)))
  | .execute _ _ | .halt _ _ | .schedule _ _ | .switchTerminals _ _ | .write _ | .puts _ | .printf _ _ | .readBegin | .readPoll
  | .vidmap _ | .lock _ => isTrue trivial

/-- Enter, on terminal `t`, which is displayed and in a read. -/
structure EntersLine (t : Term) (k : Kernel) (c : UInt8) : Prop where
  shown : k.dispTerm = t
  types : Types (k.keys.update c) c k.toConsole
  char : displayChar (k.keys.update c) c = 0x0A

namespace EnteredLineAux

open InputAux ReadingAux

variable {k k' : Kernel} {img : Image} {r : Residue} {t : Term} {e : Event}

/-! ### What becomes of one terminal's line -/

/-- A read that is told of a line, or has seen the flag, stays so; it stays in its read. -/
theorem told_step (h : InputStep k k' e) (hkeep : KeepsLine t k e) (hread : k.readFlag t = true)
    (htold : k.enterFlag t = true ∨ k.polled t = true) :
    k'.readFlag t = true ∧ (k'.enterFlag t = true ∨ k'.polled t = true) := by
  have hne : k.readFlag k.currTerm = false → t ≠ k.currTerm := by
    rintro hcurr rfl
    rw [hread] at hcurr
    cases hcurr
  cases h with
  | same e same =>
    have hin := same.input t
    rw [hin.read, hin.enter, same.polled]
    exact ⟨hread, htold⟩
  | key c r k₁ lines write same polled =>
    have hin := same t
    rw [hin.read, hin.enter, polled]
    cases lines with
    | none same =>
      rw [same.read, same.enter]
      exact ⟨hread, htold⟩
    | clear key same =>
      rw [same.read, same.enter]
      refine ⟨hread, ?_⟩
      dsimp only
      by_cases ht : t = k.dispTerm
      · exact Or.inr ((hkeep.1 key).2 ht.symm)
      · rw [Function.update_of_ne ht]
        exact htold
    | enter types char same =>
      rw [same.read, same.enter]
      refine ⟨hread, ?_⟩
      unfold lineEntered
      dsimp only
      by_cases ht : t = k.dispTerm
      · rw [ht, Function.update_self]
        exact Or.inl rfl
      · rw [Function.update_of_ne ht]
        exact htold
    | erase types char idx same =>
      rw [same.read, same.enter]
      exact ⟨hread, htold⟩
    | append types char same =>
      rw [same.read, same.enter]
      exact ⟨hread, htold⟩
  | output e turn key others idx polled =>
    have hin := others t (hne turn)
    rw [hin.read, hin.enter, polled]
    exact ⟨hread, htold⟩
  | poll turn eq =>
    subst eq
    refine ⟨hread, ?_⟩
    dsimp only
    by_cases ht : t = k.currTerm
    · rcases htold with henter | hpolled
      · exact Or.inl henter
      · right
        rw [ht, Function.update_self, ← ht, hpolled, Bool.true_or]
    · rw [Function.update_of_ne ht]
      exact htold
  | begin turn eq =>
    subst eq
    have ht := hne turn
    refine ⟨(Function.update_of_ne ht _ _).trans hread, ?_⟩
    rcases htold with henter | hpolled
    · exact Or.inl ((Function.update_of_ne ht _ _).trans henter)
    · exact Or.inr ((Function.update_of_ne ht _ _).trans hpolled)
  | copy n turn polled eq =>
    subst eq
    obtain ⟨hcurr, hdisp⟩ := hkeep
    have ht : t ≠ k.currTerm := fun he => hcurr he.symm
    refine ⟨(Function.update_of_ne ht _ _).trans hread, ?_⟩
    by_cases htd : t = k.dispTerm
    · exact Or.inr ((Function.update_of_ne ht _ _).trans (hdisp polled htd.symm))
    · rcases htold with henter | hpolled
      · exact Or.inl ((Function.update_of_ne htd _ _).trans henter)
      · exact Or.inr ((Function.update_of_ne ht _ _).trans hpolled)

/-! ### The line before Enter, and after -/

/-- `line` is in the row of the entered line of a terminal in a read, and the row of the line being typed is in order. -/
structure LineStored (line : List UInt8) (t : Term) (k : Kernel) : Prop where
  inv : InputInv k
  read : k.readFlag t = true
  entered : ∀ i < lineBufferSize, k.inputBuffer (inputIndex t enteredLine i) = line.getD i 0
  bound : k.currIdx t ≤ lineBufferSize
  typed : ∀ i < k.currIdx t, k.inputBuffer (inputIndex t currLine i) ≠ 0
  rest : ∀ i < lineBufferSize, k.currIdx t ≤ i → k.inputBuffer (inputIndex t currLine i) = 0

/-- After Enter: the line is stored, and its reader is told. -/
structure LineHeld (line : List UInt8) (t : Term) (k : Kernel) : Prop extends LineStored line t k where
  told : k.enterFlag t = true ∨ k.polled t = true

/-- Enter. -/
theorem lineHeld_enter {c : UInt8} (h : InputInv k) (henters : EntersLine t k c) (hs : step img k (.key c r) = .ok k') :
    LineHeld (typedLine k.toConsole t ++ [0x0A]) t k' := by
  obtain ⟨hdisp, htypes, hchar⟩ := henters
  have hread : k.readFlag t = true := hdisp ▸ htypes.read
  have hinv := inputInv_step h (show InTurn k (.key c r) from trivial) hs
  obtain ⟨-, hsame, -⟩ := sameReads_key h hs
  have hin := hsame t
  have hlines := key_enters h.console.quiet.listening htypes (Or.inl hchar)
  rw [hdisp] at hlines
  have hidx : k'.currIdx t = 0 := by
    rw [hin.idx, hlines.idx]
    exact Function.update_self _ _ _
  refine ⟨⟨hinv, ?_, fun i hi => ?_, ?_, fun i hi => ?_, fun i hi _ => ?_⟩, Or.inl ?_⟩
  · rw [hin.read, hlines.read]
    exact hread
  · rw [enteredLine_eq, hin.buffer _ (by omega), hlines.buffer, ← enteredLine_eq]
    exact enterLine_entered k.toConsole t hi
  · rw [hidx]
    exact Nat.zero_le _
  · rw [hidx] at hi
    exact absurd hi (Nat.not_lt_zero i)
  · rw [hin.buffer _ (by omega), hlines.buffer]
    exact enterLine_curr k.toConsole t hi
  · rw [hin.enter, hlines.enter]
    exact Function.update_self _ _ _

/-- The entered line is copied up to its end, or to the bytes asked for. -/
theorem readLoop_prefix {line : List UInt8} (h : LineStored line t k) (hline : ∀ b ∈ line, b ≠ 0) (hlen : line.length ≤ lineBufferSize)
    (hdisp : k.dispTerm = t) (n : Nat) :
    ∀ i ≤ line.length, terminalReadLoop k.toConsole n i =
      if i + n ≤ line.length then (line.drop i).take n
      else line.drop i ++ terminalReadLoop k.toConsole (i + n - line.length) line.length := by
  induction n with
  | zero =>
    intro i hi
    rw [if_pos (by omega)]
    rfl
  | succ n ih =>
    intro i hi
    by_cases hend : i = line.length
    · subst hend
      rw [if_neg (by omega), List.drop_length, List.nil_append, Nat.add_sub_cancel_left]
    · have hlt : i < line.length := by omega
      have hentered := h.entered i (by omega)
      rw [List.getD_eq_getElem _ _ hlt] at hentered
      have hchar := hline _ (List.getElem_mem hlt)
      rw [terminalReadLoop, hdisp, hentered, if_pos ⟨fun hz => hchar hz.1, by omega⟩, ih (i + 1) (by omega), List.drop_eq_getElem_cons hlt]
      by_cases hfew : i + (n + 1) ≤ line.length
      · rw [if_pos hfew, if_pos (by omega), List.take_succ_cons]
      · rw [if_neg hfew, if_neg (by omega), List.cons_append, show i + 1 + n = i + (n + 1) by omega]

/-- Past the entered line the copy goes on exactly when the line being typed is longer. -/
theorem readLoop_end {line : List UInt8} (h : LineStored line t k) (hlen : line.length ≤ lineBufferSize) (hdisp : k.dispTerm = t) (n : Nat) :
    terminalReadLoop k.toConsole (n + 1) line.length = [] ↔ k.currIdx t ≤ line.length := by
  rw [terminalReadLoop, hdisp]
  have hbound := h.bound
  by_cases hfull : line.length < lineBufferSize
  · have hentered := h.entered line.length hfull
    rw [List.getD_eq_default _ _ (Nat.le_refl _)] at hentered
    constructor
    · intro hnil
      by_contra hlong
      have htyped := h.typed line.length (by omega)
      rw [if_pos ⟨fun hz => htyped hz.2, hfull⟩] at hnil
      cases hnil
    · intro hshort
      rw [if_neg (fun hc => hc.1 ⟨hentered, h.rest line.length hfull hshort⟩)]
  · rw [if_neg (fun hc => hfull hc.2)]
    exact ⟨fun _ => by omega, fun _ => rfl⟩

/-- What `terminal_read` returns of a line stored for it. -/
theorem readCopy_iff {line : List UInt8} (h : LineStored line t k) (hline : ∀ b ∈ line, b ≠ 0) (hlen : line.length ≤ lineBufferSize)
    (hdisp : k.dispTerm = t) (nbytes : Nat) :
    (terminalReadCopy k.toConsole nbytes).1 = line.take nbytes ↔ nbytes ≤ line.length ∨ k.currIdx t ≤ line.length := by
  have hloop := readLoop_prefix h hline hlen hdisp nbytes 0 (Nat.zero_le _)
  rw [Nat.zero_add, List.drop_zero] at hloop
  rw [show (terminalReadCopy k.toConsole nbytes).1 = terminalReadLoop k.toConsole nbytes 0 from rfl, hloop]
  by_cases hfew : nbytes ≤ line.length
  · rw [if_pos hfew]
    exact ⟨fun _ => Or.inl hfew, fun _ => rfl⟩
  · obtain ⟨n, hn⟩ : ∃ n, nbytes - line.length = n + 1 := ⟨nbytes - line.length - 1, by omega⟩
    rw [if_neg hfew, hn, List.take_of_length_le (by omega), List.append_right_eq_self, readLoop_end h hlen hdisp]
    exact ⟨Or.inr, fun hor => hor.resolve_left hfew⟩

end EnteredLineAux

end ThreeTermOS
