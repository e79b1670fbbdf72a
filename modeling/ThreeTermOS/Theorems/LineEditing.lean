import Mathlib.Data.List.GetD
import ThreeTermOS.Theorems.EnteredLine

/-!
# A line edited and read

The characters typed in a read, with each backspace taking one back, are what the read gets, whichever terminal runs while they are
typed: nothing that was erased or typed before comes back. Only the flag that tells the reader of it can be lost, to the read of
another terminal. The beginning of a read, its copy and each output call are one step.
-/

namespace ThreeTermOS

open Bytes Runs

/-- The character a step types on a terminal. -/
def keystroke (t : Term) (k : Kernel) : Event → Option UInt8
  | .key c _ => if k.dispTerm = t ∧ Types (k.keys.update c) c k.toConsole then some (displayChar (k.keys.update c) c) else none
  | _ => none

/-- The characters a run types on a terminal. -/
def keystrokes (img : Image) (t : Term) : Kernel → List Event → List UInt8
  | _, [] => []
  | k, e :: es => (keystroke t k e).toList ++ keystrokes img t (step img k e).state es

/-- One keystroke on a line: a backspace deletes the last character, if there is one. -/
def edit (l : List UInt8) (c : UInt8) : List UInt8 := if c = backspaceASCII then l.dropLast else l ++ [c]

/-- The line that keystrokes make. -/
def edited (keys : List UInt8) : List UInt8 := keys.foldl edit []

/-- The keys that type do it on terminal `t`, and are no Enter; none clears the screen. -/
def EditsOn (t : Term) (k : Kernel) : Event → Prop
  | .key c _ =>
    ¬Clears k c ∧ (Types (k.keys.update c) c k.toConsole →
      k.dispTerm = t ∧ displayChar (k.keys.update c) c ≠ 0x0A ∧ displayChar (k.keys.update c) c ≠ 0x0D)
  | _ => True

/-- No key, and no copy on terminal `t`. -/
def Waits (t : Term) (k : Kernel) : Event → Prop
  | .key _ _ => False
  | .switchTerminals _ _ => False
  | .readCopy _ => k.currTerm ≠ t
  | _ => True

/-- The step is no copy by the read of another terminal, made while `t` is displayed and its reader has not seen the flag. -/
def LeavesFlag (t : Term) (k : Kernel) : Event → Prop
  | .readCopy _ => k.currTerm ≠ t → k.polled k.currTerm = true → k.dispTerm = t → k.polled t = true
  | _ => True

instance EditsOn.decidable (t : Term) (k : Kernel) : (e : Event) → Decidable (EditsOn t k e)
  | .key _ _ => inferInstanceAs (Decidable (¬_ ∧ (_ → _ ∧ _ ∧ _)))
  | .execute _ _ | .halt _ _ | .schedule _ _ | .switchTerminals _ _ | .write _ | .puts _ | .printf _ _ | .readBegin | .readPoll
  | .readCopy _ | .vidmap _ | .lock _ => isTrue trivial

instance Waits.decidable (t : Term) (k : Kernel) : (e : Event) → Decidable (Waits t k e)
  | .key _ _ | .switchTerminals _ _ => isFalse id
  | .readCopy _ => inferInstanceAs (Decidable (_ ≠ _))
  | .execute _ _ | .halt _ _ | .schedule _ _ | .write _ | .puts _ | .printf _ _ | .readBegin | .readPoll | .vidmap _ | .lock _ =>
    isTrue trivial

instance LeavesFlag.decidable (t : Term) (k : Kernel) : (e : Event) → Decidable (LeavesFlag t k e)
  | .readCopy _ => inferInstanceAs (Decidable (_ → _ → _ → _))
  | .key _ _ | .execute _ _ | .halt _ _ | .schedule _ _ | .switchTerminals _ _ | .write _ | .puts _ | .printf _ _ | .readBegin
  | .readPoll | .vidmap _ | .lock _ => isTrue trivial

namespace LineEditingAux

open InputAux ReadingAux EnteredLineAux

variable {k k' : Kernel} {img : Image} {r : Residue} {t : Term} {e : Event} {l : List UInt8}

/-! ### Steps that are no keys -/

/-- What a step leaves of a read in progress: its lines, and a flag that is not set or was not seen. -/
structure Kept (t : Term) (k k' : Kernel) : Prop where
  buffer : ∀ i < 2 * lineBufferSize, k'.inputBuffer (inputIndex t currLine i) = k.inputBuffer (inputIndex t currLine i)
  idx : k'.currIdx t = k.currIdx t
  read : k'.readFlag t = true
  untold : k.enterFlag t = false → k.polled t = false → k'.enterFlag t = false ∧ k'.polled t = false

theorem kept_of_sameInput (h : SameInput k.toConsole k'.toConsole t) (hread : k.readFlag t = true) (hpolled : k'.polled t = k.polled t) :
    Kept t k k' :=
  ⟨h.buffer, h.idx, h.read.trans hread, fun henter hp => ⟨h.enter.trans henter, hpolled.trans hp⟩⟩

/-- Another terminal's lines emptied. -/
theorem kept_reset (k₁ : Console) (hread : k.readFlag t = true) (hne : t ≠ k.currTerm) (hin : k₁.inputBuffer = k.inputBuffer)
    (hidx : k₁.currIdx = k.currIdx) (hcurr : k₁.currTerm = k.currTerm)
    (hbuffer : k'.inputBuffer = (terminalResetBuffer k₁).inputBuffer) (hidx' : k'.currIdx = (terminalResetBuffer k₁).currIdx)
    (hread' : k'.readFlag t = k.readFlag t) (henter : k.enterFlag t = false → k'.enterFlag t = false)
    (hpolled : k'.polled t = k.polled t) : Kept t k k' := by
  have hreset : SameInput k₁ (terminalResetBuffer k₁) t := sameInput_resetBuffer (by rw [hcurr]; exact hne)
  refine ⟨fun i hi => ?_, ?_, hread'.trans hread, fun he hp => ⟨henter he, hpolled.trans hp⟩⟩
  · rw [hbuffer, hreset.buffer i hi, hin]
  · rw [hidx', hreset.idx, hidx]

theorem kept_step (h : InputStep k k' e) (hkey : ∀ c r, e ≠ .key c r) (hread : k.readFlag t = true)
    (hcopy : ∀ n, e = .readCopy n → k.currTerm = t → k.polled t = false) : Kept t k k' := by
  have hne : k.readFlag k.currTerm = false → t ≠ k.currTerm := by
    rintro hcurr rfl
    rw [hread] at hcurr
    cases hcurr
  cases h with
  | same e same => exact kept_of_sameInput (same.input t) hread (by rw [same.polled])
  | key c r => exact absurd rfl (hkey c r)
  | output e turn key others idx polled => exact kept_of_sameInput (others t (hne turn)) hread (by rw [polled])
  | poll turn eq =>
    subst eq
    refine ⟨fun _ _ => rfl, rfl, hread, fun henter hpolled => ⟨henter, ?_⟩⟩
    dsimp only
    by_cases ht : t = k.currTerm
    · subst ht
      rw [Function.update_self, hpolled, Bool.false_or, Console.readPoll, henter, Bool.false_and]
    · rw [Function.update_of_ne ht]
      exact hpolled
  | begin turn eq =>
    subst eq
    have ht := hne turn
    exact kept_reset { k.toConsole.setFlags true false with enterFlag := Function.update k.enterFlag k.currTerm false } hread ht
      rfl rfl rfl rfl rfl (Function.update_of_ne ht _ _) (fun he => (Function.update_of_ne ht _ _).trans he)
      (Function.update_of_ne ht _ _)
  | copy n turn polled eq =>
    subst eq
    have ht : t ≠ k.currTerm := by
      rintro rfl
      rw [hcopy n rfl rfl] at polled
      cases polled
    refine kept_reset k.toConsole hread ht rfl rfl rfl rfl rfl (Function.update_of_ne ht _ _) (fun he => ?_)
      (Function.update_of_ne ht _ _)
    change Function.update k.enterFlag k.dispTerm false t = false
    by_cases htd : t = k.dispTerm
    · rw [htd, Function.update_self]
    · rw [Function.update_of_ne htd]
      exact he

/-! ### The line while it is edited -/

/-- On a terminal in a read that was not told yet, `l` is the line being typed, and the rest of its row is empty. -/
structure Pending (l : List UInt8) (t : Term) (k : Kernel) : Prop where
  inv : InputInv k
  read : k.readFlag t = true
  enter : k.enterFlag t = false
  polled : k.polled t = false
  idx : k.currIdx t = l.length
  typed : ∀ i < lineBufferSize, k.inputBuffer (inputIndex t currLine i) = l.getD i 0
  chars : ∀ c ∈ l, c ≠ 0

theorem pending_begin (h : InputInv k) (hturn : InTurn k .readBegin) (hs : step img k .readBegin = .ok k') : Pending [] k.currTerm k' := by
  have hinv := inputInv_step h hturn hs
  rw [step, Outcome.ok.injEq] at hs
  subst hs
  have hclear := lineClear_resetBuffer { k.toConsole.setFlags true false with enterFlag := Function.update k.enterFlag k.currTerm false }
  refine ⟨hinv, Function.update_self _ _ _, Function.update_self _ _ _, Function.update_self _ _ _, hclear.idx, fun i hi => ?_, ?_⟩
  · rw [List.getD_nil]
    exact hclear.buffer i (by omega)
  · exact fun c hc => absurd hc List.not_mem_nil

/-- A line of which nothing has changed. -/
theorem pending_kept (h : Pending l t k) (hinv : InputInv k') (hkept : Kept t k k') : Pending l t k' := by
  obtain ⟨henter, hpolled⟩ := hkept.untold h.enter h.polled
  exact ⟨hinv, hkept.read, henter, hpolled, hkept.idx.trans h.idx, fun i hi => (hkept.buffer i (by omega)).trans (h.typed i hi), h.chars⟩

theorem dropLast_getD (l : List UInt8) (i : Nat) : l.dropLast.getD i 0 = if i = l.length - 1 then 0 else l.getD i 0 := by
  rw [List.getD_eq_getElem?_getD, List.getD_eq_getElem?_getD, List.getElem?_dropLast]
  by_cases hi : i < l.length - 1
  · rw [if_pos hi, if_neg (by omega)]
  · rw [if_neg hi]
    by_cases hlast : i = l.length - 1
    · rw [if_pos hlast]
      rfl
    · rw [if_neg hlast, List.getElem?_eq_none (by omega)]

theorem append_getD (l : List UInt8) (c : UInt8) (i : Nat) : (l ++ [c]).getD i 0 = if i = l.length then c else l.getD i 0 := by
  rw [List.getD_eq_getElem?_getD, List.getD_eq_getElem?_getD, List.getElem?_append]
  by_cases hi : i < l.length
  · rw [if_pos hi, if_neg (by omega)]
  · rw [if_neg hi, List.getElem?_eq_none (Nat.le_of_not_lt hi)]
    by_cases hlast : i = l.length
    · rw [if_pos hlast, hlast, Nat.sub_self]
      rfl
    · rw [if_neg hlast, List.getElem?_eq_none (by rw [List.length_singleton]; omega)]

/-- A keystroke on the line. -/
theorem pending_types {c : UInt8} (h : Pending l t k) (hdisp : k.dispTerm = t) (ht : Types (k.keys.update c) c k.toConsole)
    (hnl : displayChar (k.keys.update c) c ≠ 0x0A ∧ displayChar (k.keys.update c) c ≠ 0x0D)
    (hs : step img k (.key c r) = .ok k') :
    Pending (edit l (displayChar (k.keys.update c) c)) t k' := by
  have hinv := inputInv_step h.inv (show InTurn k (.key c r) from trivial) hs
  obtain ⟨hwrite, hsame, hpolled⟩ := sameReads_key h.inv hs
  have hin := hsame t
  have hlines := key_edits h.inv.console.quiet.listening ht (not_or.mpr hnl)
  have hidx := h.idx
  have hzero := ht.char
  generalize displayChar (k.keys.update c) c = ch at *
  unfold edit
  rw [hdisp] at hlines
  by_cases hback : ch = backspaceASCII
  · rw [if_pos hback] at hlines ⊢
    by_cases hsome : 0 < k.currIdx t
    · rw [if_pos hsome] at hlines
      refine ⟨hinv, ?_, ?_, hpolled ▸ h.polled, ?_, fun i hi => ?_, fun c' hc' => h.chars c' (List.mem_of_mem_dropLast hc')⟩
      · exact hin.read.trans ((congrFun hlines.read t).trans h.read)
      · exact hin.enter.trans ((congrFun hlines.enter t).trans h.enter)
      · rw [hin.idx, hlines.idx, List.length_dropLast, ← hidx]
        exact Function.update_self _ _ _
      · rw [hin.buffer i (by omega), hlines.buffer, dropLast_getD, ← h.typed i hi, ← hidx]
        exact set_index _ _ _ _
    · have hnil : l = [] := List.length_eq_zero_iff.mp (by omega)
      rw [if_neg hsome] at hlines
      rw [hnil, List.dropLast_nil, ← hnil]
      exact pending_kept h hinv (kept_of_sameInput ((sameInput_of_sameLines hlines (congrFun hwrite t)).trans hin) h.read (by rw [hpolled]))
  · rw [if_neg hback] at hlines ⊢
    refine ⟨hinv, ?_, ?_, hpolled ▸ h.polled, ?_, fun i hi => ?_, fun c' hc' => ?_⟩
    · exact hin.read.trans ((congrFun hlines.read t).trans h.read)
    · exact hin.enter.trans ((congrFun hlines.enter t).trans h.enter)
    · rw [hin.idx, hlines.idx, List.length_append, ← hidx]
      exact Function.update_self _ _ _
    · rw [hin.buffer i (by omega), hlines.buffer, append_getD, ← h.typed i hi, ← hidx]
      exact set_index _ _ _ _
    · rcases List.mem_append.mp hc' with hc' | hc'
      · exact h.chars c' hc'
      · rw [List.mem_singleton.mp hc']
        exact hzero

/-- A step while the line is edited. -/
theorem pending_step (h : Pending l t k) (hturn : InTurn k e) (hedits : EditsOn t k e) (hs : step img k e = .ok k') :
    Pending ((keystroke t k e).toList.foldl edit l) t k' := by
  have hinv := inputInv_step h.inv hturn hs
  by_cases hkey : ∃ c r, e = .key c r
  · obtain ⟨c, r, rfl⟩ := hkey
    obtain ⟨hclear, htypes⟩ := hedits
    by_cases ht : Types (k.keys.update c) c k.toConsole
    · obtain ⟨hdisp, hnl⟩ := htypes ht
      rw [keystroke, if_pos ⟨hdisp, ht⟩]
      exact pending_types h hdisp ht hnl hs
    · rw [keystroke, if_neg (fun hc => ht hc.2)]
      obtain ⟨hwrite, hsame, hpolled⟩ := sameReads_key h.inv hs
      have hlines := key_idle (fun _ => h.inv.console.quiet.listening) ht hclear
      exact pending_kept h hinv
        (kept_of_sameInput ((sameInput_of_sameLines hlines (congrFun hwrite t)).trans (hsame t)) h.read (by rw [hpolled]))
  · push Not at hkey
    have hnone : keystroke t k e = none := by
      cases e with
      | key c r => exact absurd rfl (hkey c r)
      | _ => rfl
    rw [hnone]
    exact pending_kept h hinv (kept_step (inputStep_step h.inv hturn hs) hkey h.read (fun _ _ _ => h.polled))

theorem pending_run {es : List Event} : ∀ {l k}, Pending l t k → Meets (step img) InTurn k es → Meets (step img) (EditsOn t) k es →
    run (step img) k es = .ok k' → Pending ((keystrokes img t k es).foldl edit l) t k' := by
  induction es with
  | nil =>
    intro l k h _ _ hr
    rw [run_nil, Outcome.ok.injEq] at hr
    exact hr ▸ h
  | cons e es ih =>
    intro l k h hturn hedits hr
    rw [run_cons, Outcome.andThen_eq_ok] at hr
    obtain ⟨k₁, hs, hr⟩ := hr
    rw [keystrokes, show (step img k e).state = k₁ by rw [hs, Outcome.state_ok], List.foldl_append]
    exact ih (pending_step h hturn.1 hedits.1 hs) (hturn.2 k₁ hs) (hedits.2 k₁ hs) hr

theorem typedLine_pending (h : Pending l t k) (hfits : l.length < lineBufferSize) : typedLine k.toConsole t = l := by
  apply List.ext_getElem?
  intro i
  by_cases hi : i < l.length
  · rw [List.getElem?_eq_getElem (by rw [typedLine_length, h.idx]; exact hi), List.getElem?_eq_getElem hi]
    have hget := typedLine_getD k.toConsole t (by rw [h.idx]; exact hi) []
    rw [List.append_nil, h.typed i (by omega), List.getD_eq_getElem _ _ hi,
      List.getD_eq_getElem _ _ (by rw [typedLine_length, h.idx]; exact hi)] at hget
    rw [hget]
  · rw [List.getElem?_eq_none (by rw [typedLine_length, h.idx]; omega), List.getElem?_eq_none (by omega)]

/-! ### Between Enter and the copy -/

theorem key_of_waits (h : Waits t k e) (c : UInt8) (r : Residue) : e ≠ .key c r := by
  rintro rfl
  exact h

/-- The line stored for the read, with nothing typed since. -/
theorem stored_step (h : LineStored l t k ∧ k.currIdx t = 0) (hturn : InTurn k e) (hwaits : Waits t k e) (hs : step img k e = .ok k') :
    LineStored l t k' ∧ k'.currIdx t = 0 := by
  obtain ⟨h, hidx⟩ := h
  have hkept := kept_step (inputStep_step h.inv hturn hs) (key_of_waits hwaits) h.read (fun n he hcurr => by
    subst he
    exact absurd hcurr hwaits)
  have hidx' : k'.currIdx t = 0 := hkept.idx.trans hidx
  refine ⟨⟨inputInv_step h.inv hturn hs, hkept.read, fun i hi => ?_, ?_, fun i hi => ?_, fun i hi _ => ?_⟩, hidx'⟩
  · rw [enteredLine_eq, hkept.buffer _ (by omega), ← enteredLine_eq]
    exact h.entered i hi
  · rw [hidx']
    exact Nat.zero_le _
  · rw [hidx'] at hi
    exact absurd hi (Nat.not_lt_zero i)
  · rw [hkept.buffer i (by omega)]
    exact h.rest i hi (by rw [hidx]; exact Nat.zero_le i)

/-- A reader that was told stays so, when its flag is left to it. -/
theorem told_of_leaves (h : InputStep k k' e) (hwaits : Waits t k e) (hleaves : LeavesFlag t k e) (hread : k.readFlag t = true)
    (htold : k.enterFlag t = true ∨ k.polled t = true) : k'.enterFlag t = true ∨ k'.polled t = true := by
  have hkeep : KeepsLine t k e := by
    cases e with
    | key c r => exact absurd hwaits id
    | readCopy n => exact ⟨hwaits, hleaves hwaits⟩
    | _ => trivial
  exact (told_step h hkeep hread htold).2

/-- A reader that has not seen its flag when another read takes it is not told. -/
theorem untold_of_takes (hleaves : ¬LeavesFlag t k e) (hs : step img k e = .ok k') : k'.enterFlag t = false ∧ k'.polled t = false := by
  cases e with
  | readCopy n =>
    unfold LeavesFlag at hleaves
    push Not at hleaves
    obtain ⟨hcurr, hpolled, hdisp, hseen⟩ := hleaves
    rw [step, if_pos hpolled, Outcome.ok.injEq] at hs
    subst hs
    have ht : t ≠ k.currTerm := fun he => hcurr he.symm
    refine ⟨?_, (Function.update_of_ne ht _ _).trans (Bool.not_eq_true _ ▸ hseen)⟩
    change Function.update k.enterFlag k.dispTerm false t = false
    rw [hdisp, Function.update_self]
  | _ => exact absurd trivial hleaves

/-- After Enter the reader is told of the line when no other read takes its flag, and only then. -/
theorem told_iff {after : List Event} (h : LineHeld l t k) (hidx : k.currIdx t = 0) (hturn : Meets (step img) InTurn k after)
    (hwaits : Meets (step img) (Waits t) k after) (hr : run (step img) k after = .ok k') :
    (k'.enterFlag t = true ∨ k'.polled t = true) ↔ Meets (step img) (LeavesFlag t) k after := by
  constructor
  · intro htold
    rcases meets_or_takes (step img) (LeavesFlag t) k after with hmeets | htakes
    · exact hmeets
    · have huntold : (LineStored l t k' ∧ k'.currIdx t = 0) ∧ k'.enterFlag t = false ∧ k'.polled t = false := by
        refine run_of_takes (I := fun s => LineStored l t s ∧ s.currIdx t = 0)
          (J := fun s => (LineStored l t s ∧ s.currIdx t = 0) ∧ s.enterFlag t = false ∧ s.polled t = false)
          (fun s e s' h hw hs => stored_step h hw.1 hw.2 hs)
          (fun s e s' h hw hG hs => ⟨stored_step h hw.1 hw.2 hs, untold_of_takes hG hs⟩) (fun s e s' h hw hs => ?_)
          ⟨h.toLineStored, hidx⟩ (hturn.and hwaits) htakes hr
        refine ⟨stored_step h.1 hw.1 hw.2 hs, ?_⟩
        refine (kept_step (inputStep_step h.1.1.inv hw.1 hs) (key_of_waits hw.2) h.1.1.read (fun n he hcurr => ?_)).untold h.2.1 h.2.2
        subst he
        exact absurd hcurr hw.2
      rw [huntold.2.1, huntold.2.2] at htold
      rcases htold with htrue | htrue
      · cases htrue
      · cases htrue
  · intro hmeets
    have htold : (LineStored l t k' ∧ k'.currIdx t = 0) ∧ (k'.enterFlag t = true ∨ k'.polled t = true) :=
      run_invariant_of_meets (I := fun s => (LineStored l t s ∧ s.currIdx t = 0) ∧ (s.enterFlag t = true ∨ s.polled t = true))
        (fun s e s' h hG hs => ⟨stored_step h.1 hG.1.1 hG.1.2 hs,
          told_of_leaves (inputStep_step h.1.1.inv hG.1.1 hs) hG.1.2 hG.2 h.1.1.read h.2⟩)
        ⟨⟨h.toLineStored, hidx⟩, h.told⟩ ((hturn.and hwaits).and hmeets) hr
    exact htold.2

/-- The prefixes of a list, one for each length. -/
theorem edited_prefix_lt {keys : List UInt8} (h : ∀ n ≤ keys.length, (edited (keys.take n)).length < lineBufferSize) :
    ∀ l, l <+: keys → (edited l).length < lineBufferSize := by
  intro l hl
  rw [List.prefix_iff_eq_take.mp hl]
  exact h _ hl.length_le

end LineEditingAux

open EnteredLineAux LineEditingAux ReadingAux

/-- A line typed on a terminal in a read, in a run from boot with each program in turn, and entered: with no key since, a copy made
while the terminal is displayed has the characters typed, less those taken back, and a newline, cut to the bytes asked for. The reader
comes to that copy exactly when no other read has taken the flag of its line. -/
theorem edited_line_read_iff (img : Image) (m : CPtr) (p : Addr → PCB) {t : Term} {before typing after : List Event} {c : UInt8}
    {r : Residue} {k k₁ k₂ k₃ : Kernel} (hbefore : run (step img) (boot m p) before = .ok k) (hcurr : k.currTerm = t)
    (htyping : run (step img) k (.readBegin :: typing) = .ok k₁) (henters : EntersLine t k₁ c)
    (henter : step img k₁ (.key c r) = .ok k₂) (hafter : run (step img) k₂ after = .ok k₃) (hdisp : k₃.dispTerm = t)
    (hturn : Meets (step img) InTurn (boot m p) (before ++ .readBegin :: (typing ++ .key c r :: after)))
    (hedits : Meets (step img) (EditsOn t) k (.readBegin :: typing))
    (hpending : ∀ keys, keys <+: keystrokes img t k (.readBegin :: typing) → (edited keys).length < lineBufferSize)
    (hwaits : Meets (step img) (Waits t) k₂ after) :
    (∀ nbytes, (terminalReadCopy k₃.toConsole nbytes).1 =
        (edited (keystrokes img t k (.readBegin :: typing)) ++ [0x0A]).take nbytes) ∧
      ((k₃.enterFlag t = true ∨ k₃.polled t = true) ↔ Meets (step img) (LeavesFlag t) k₂ after) := by
  have hinv : InputInv k := run_invariant_of_meets (fun _ _ _ h hG hs => inputInv_step h hG hs) (inputInv_boot m p) hturn.append_left hbefore
  have hturn' := hturn.append_right hbefore
  rw [run_cons, Outcome.andThen_eq_ok] at htyping
  obtain ⟨k₀, hbegin, htyping⟩ := htyping
  have hturnTyping := hturn'.2 k₀ hbegin
  have hstart : Pending [] t k₀ := hcurr ▸ pending_begin hinv hturn'.1 hbegin
  have hline := pending_run hstart hturnTyping.append_left (hedits.2 k₀ hbegin) htyping
  have hfits := hpending _ List.prefix_rfl
  rw [keystrokes, show (step img k .readBegin).state = k₀ by rw [hbegin, Outcome.state_ok]] at hfits ⊢
  change (edited (keystrokes img t k₀ typing)).length < lineBufferSize at hfits
  change Pending (edited (keystrokes img t k₀ typing)) t k₁ at hline
  change (∀ nbytes, _ = (edited (keystrokes img t k₀ typing) ++ [0x0A]).take nbytes) ∧ _
  generalize edited (keystrokes img t k₀ typing) = l at hline hfits ⊢
  -- Enter moves the line
  have hheld := lineHeld_enter hline.inv henters henter
  rw [typedLine_pending hline hfits] at hheld
  have hidx : k₂.currIdx t = 0 := by
    obtain ⟨-, hsame, -⟩ := sameReads_key hline.inv henter
    have hlines := InputAux.key_enters hline.inv.console.quiet.listening henters.types (Or.inl henters.char)
    rw [(hsame t).idx, hlines.idx, henters.shown]
    exact Function.update_self _ _ _
  have hturnAfter := (hturnTyping.append_right htyping).2 k₂ henter
  have hstored : LineStored (l ++ [0x0A]) t k₃ ∧ k₃.currIdx t = 0 :=
    run_invariant_of_meets (I := fun s => LineStored (l ++ [0x0A]) t s ∧ s.currIdx t = 0)
      (fun _ _ _ h hG hs => stored_step h hG.1 hG.2 hs) ⟨hheld.toLineStored, hidx⟩ (hturnAfter.and hwaits) hafter
  refine ⟨fun nbytes => ?_, told_iff hheld hidx hturnAfter hwaits hafter⟩
  have hchars : ∀ b ∈ l ++ [0x0A], b ≠ 0 := by
    intro b hb
    rcases List.mem_append.mp hb with hb | hb
    · exact hline.chars b hb
    · rw [List.mem_singleton.mp hb]
      decide
  have hlen : (l ++ [0x0A]).length = l.length + 1 := by rw [List.length_append, List.length_singleton]
  refine (readCopy_iff hstored.1 hchars (by omega) hdisp nbytes).mpr (Or.inr ?_)
  rw [hstored.2]
  exact Nat.zero_le _

/-- The first shell, about to read. -/
def typingShell : Outcome Stop Kernel := run (step shellImage) (boot (fun _ => 0) (fun _ => rootShellPCB)) [.execute shellCommand zeroResidue]

/-- The keys a, b and Backspace in a read. -/
def typedAB : List Event := [.readBegin, .key 0x1E zeroResidue, .key 0x30 zeroResidue, .key 0x0E zeroResidue]

def typedABRun : Outcome Stop Kernel := run (step shellImage) typingShell.state typedAB

/-- The read gets the a. -/
theorem edited_line_read_iff_typedAB :
    (terminalReadCopy (run (step shellImage) (step shellImage typedABRun.state (.key 0x1C zeroResidue)).state [.readPoll]).state.toConsole
      10).1 = [0x61, 0x0A] := by
  have hbefore : typingShell.isOk = true := by decide +kernel
  have htyping : typedABRun.isOk = true := by decide +kernel
  have henters : EntersLine 0 typedABRun.state 0x1C := ⟨by decide +kernel, by decide +kernel, by decide +kernel⟩
  have henter : (step shellImage typedABRun.state (.key 0x1C zeroResidue)).isOk = true := by decide +kernel
  have hafter : (run (step shellImage) (step shellImage typedABRun.state (.key 0x1C zeroResidue)).state [.readPoll]).isOk = true := by
    decide +kernel
  have hturn : Meets (step shellImage) InTurn (boot (fun _ => 0) (fun _ => rootShellPCB))
      ([.execute shellCommand zeroResidue] ++ typedAB ++ .key 0x1C zeroResidue :: [.readPoll]) := by decide +kernel
  have hedits : Meets (step shellImage) (EditsOn 0) typingShell.state typedAB := by decide +kernel
  have hwaits : Meets (step shellImage) (Waits 0) (step shellImage typedABRun.state (.key 0x1C zeroResidue)).state [.readPoll] := by
    decide +kernel
  have hkeys : keystrokes shellImage 0 typingShell.state typedAB = [0x61, 0x62, 0x08] := by decide +kernel
  have hread := edited_line_read_iff shellImage (fun _ => 0) (fun _ => rootShellPCB) (Outcome.eq_ok_of_isOk hbefore)
    (show typingShell.state.currTerm = 0 by decide +kernel) (Outcome.eq_ok_of_isOk htyping) henters (Outcome.eq_ok_of_isOk henter)
    (Outcome.eq_ok_of_isOk hafter) (by decide +kernel) hturn hedits (edited_prefix_lt (hkeys ▸ by decide)) hwaits
  exact (hread.1 10).trans (congrArg (fun keys => (edited keys ++ [0x0A]).take 10) hkeys)

/-- The shell of terminal 1 has seen its flag, and terminal 0 is displayed and runs. -/
def leftWaiting : List Event :=
  [.execute shellCommand zeroResidue, .switchTerminals 1 zeroResidue, .readBegin, .key 0x1C zeroResidue, .readPoll,
    .schedule 0 zeroResidue, .switchTerminals 0 zeroResidue]

def leftWaitingRun : Outcome Stop Kernel := run (step shellImage) (boot (fun _ => 0) (fun _ => rootShellPCB)) leftWaiting

/-- A line is typed on terminal 0. -/
def typedA0Run : Outcome Stop Kernel := run (step shellImage) leftWaitingRun.state [.readBegin, .key 0x1E zeroResidue]

def enteredA0Run : Outcome Stop Kernel := step shellImage typedA0Run.state (.key 0x1C zeroResidue)

/-- Then the shell of terminal 1 copies, and that of terminal 0 looks for its flag. -/
def copiedAfter : List Event := [.schedule 1 zeroResidue, .readCopy 10, .schedule 0 zeroResidue, .readPoll]

/-- The reader of a line entered is never told of it. -/
theorem edited_line_never_read :
    ¬∀ (img : Image) (m : CPtr) (p : Addr → PCB) (t : Term) (before typing after : List Event) (c : UInt8) (r : Residue)
      (k k₁ k₂ k₃ : Kernel), run (step img) (boot m p) before = .ok k → k.currTerm = t →
      run (step img) k (.readBegin :: typing) = .ok k₁ → EntersLine t k₁ c → step img k₁ (.key c r) = .ok k₂ →
      run (step img) k₂ after = .ok k₃ → k₃.dispTerm = t →
      Meets (step img) InTurn (boot m p) (before ++ .readBegin :: (typing ++ .key c r :: after)) →
      Meets (step img) (EditsOn t) k (.readBegin :: typing) →
      (∀ keys, keys <+: keystrokes img t k (.readBegin :: typing) → (edited keys).length < lineBufferSize) →
      Meets (step img) (Waits t) k₂ after → k₃.enterFlag t = true ∨ k₃.polled t = true := by
  intro hall
  have hbefore : leftWaitingRun.isOk = true := by decide +kernel
  have htyping : typedA0Run.isOk = true := by decide +kernel
  have henters : EntersLine 0 typedA0Run.state 0x1C := ⟨by decide +kernel, by decide +kernel, by decide +kernel⟩
  have henter : enteredA0Run.isOk = true := by decide +kernel
  have hafter : (run (step shellImage) enteredA0Run.state copiedAfter).isOk = true := by decide +kernel
  have hturn : Meets (step shellImage) InTurn (boot (fun _ => 0) (fun _ => rootShellPCB))
      (leftWaiting ++ .readBegin :: ([.key 0x1E zeroResidue] ++ .key 0x1C zeroResidue :: copiedAfter)) := by decide +kernel
  have hedits : Meets (step shellImage) (EditsOn 0) leftWaitingRun.state [.readBegin, .key 0x1E zeroResidue] := by decide +kernel
  have hwaits : Meets (step shellImage) (Waits 0) enteredA0Run.state copiedAfter := by decide +kernel
  have hkeys : keystrokes shellImage 0 leftWaitingRun.state [.readBegin, .key 0x1E zeroResidue] = [0x61] := by decide +kernel
  have hlost : ¬((run (step shellImage) enteredA0Run.state copiedAfter).state.enterFlag 0 = true ∨
      (run (step shellImage) enteredA0Run.state copiedAfter).state.polled 0 = true) := by decide +kernel
  exact hlost (hall shellImage (fun _ => 0) (fun _ => rootShellPCB) 0 leftWaiting [.key 0x1E zeroResidue] copiedAfter 0x1C zeroResidue
    _ _ _ _ (Outcome.eq_ok_of_isOk hbefore) (by decide +kernel) (Outcome.eq_ok_of_isOk htyping) henters (Outcome.eq_ok_of_isOk henter)
    (Outcome.eq_ok_of_isOk hafter) (by decide +kernel) hturn hedits (edited_prefix_lt (hkeys ▸ by decide)) hwaits)

end ThreeTermOS
