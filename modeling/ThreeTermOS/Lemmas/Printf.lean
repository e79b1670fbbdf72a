import ThreeTermOS.Lemmas.BootConsole
import ThreeTermOS.Lemmas.Lib
import ThreeTermOS.Library.Scan
import ThreeTermOS.Printf

/-!
# The scan of a format

Both formatted prints follow one scanner of the format, whatever they print and whatever the arguments are. It ends at a terminator
outside of a conversion, and takes one within a conversion for an unknown one.
-/

namespace ThreeTermOS

open Bytes Runs

/-- A format whose conversions are all closed: characters other than `%`, and conversions of a `%`, any number of `#` and one more
character. -/
inductive CompleteFormat : List UInt8 → Prop where
  | nil : CompleteFormat []
  | char {c : UInt8} {s : List UInt8} : c ≠ 0x25 → CompleteFormat s → CompleteFormat (c :: s)
  | conversion (n : Nat) {c : UInt8} {s : List UInt8} : c ≠ 0x23 → CompleteFormat s →
      CompleteFormat (0x25 :: (List.replicate n 0x23 ++ c :: s))

/-- The control of the scan after a character, or the end of the scan. -/
def formatNext (conv : Option Bool) (c : UInt8) : Option (Option Bool) :=
  match conv with
  | none => if c = 0 then none else some (if c = 0x25 then some false else none)
  | some _ => some (if c = 0x23 then some true else none)

/-- The characters a piece prints. -/
def PrintfPiece.text : PrintfPiece → List UInt8
  | .reset => []
  | .char c => [c]
  | .string s => s

/-- The pieces keep to the range of an `int`: `screen_y`, from `y` on, and the index of `puts` in each. -/
structure PiecesCounted (y : Nat) (ps : List PrintfPiece) : Prop where
  rows : RowsCounted y (ps.flatMap PrintfPiece.text)
  lengths : ∀ p ∈ ps, p.text.length ≤ intMax

namespace PrintfAux

open BootConsoleAux

variable {σ : Type} {reset : Nat → σ → σ} {putc : σ → UInt8 → Outcome BootStop σ} {puts : σ → List UInt8 → Outcome BootStop σ}
  {format : CPtr} {args : Nat → PrintfArg} {l l' : FormatLoop σ} {s : List UInt8} {y n : Nat}

/-! ### The scanner -/

@[simp] theorem formatNext_inside (alternate : Bool) (c : UInt8) :
    formatNext (some alternate) c = some (if c = 0x23 then some true else none) := rfl

theorem formatNext_outside {c : UInt8} (hc : c ≠ 0) : formatNext none c = some (if c = 0x25 then some false else none) := if_neg hc

/-- The scan goes on from every character but the terminator. -/
theorem formatNext_ne_none {c : UInt8} (hc : c ≠ 0) (conv : Option Bool) : formatNext conv c ≠ none := by
  cases conv with
  | none =>
    rw [formatNext_outside hc]
    exact nofun
  | some alternate => exact nofun

/-! ### One turn -/

/-- What the functions of a loop print, stated of the outcome of each: `P k o s` when the outcome of printing `s` from `k` is `o`. -/
structure Outputs (P : σ → Outcome BootStop σ → List UInt8 → Prop) (reset : Nat → σ → σ) (putc : σ → UInt8 → Outcome BootStop σ)
    (puts : σ → List UInt8 → Outcome BootStop σ) : Prop where
  silent : ∀ k, P k (.ok k) []
  reset : ∀ b k o s, P (reset b k) o s → P k o s
  char : ∀ k c, P k (putc k c) [c]
  string : ∀ k s, P k (puts k s) s

/-- A turn that goes on has read a character the scan goes on from, and printed the pieces the format has for it. -/
structure GoesOn (P : σ → Outcome BootStop σ → List UInt8 → Prop) (format : CPtr) (args : Nat → PrintfArg) (l : FormatLoop σ)
    (conv : Option Bool) (esp : Nat) (o : Outcome BootStop σ) (ps : List PrintfPiece) : Prop where
  scan : formatNext l.conv (format l.buf) = some conv
  prints : P l.out o (ps.flatMap PrintfPiece.text)
  lengths : ∀ N, (∀ p ∈ ps, p.text.length ≤ N) ↔ (ps.flatMap PrintfPiece.text).length ≤ N
  pieces : ∀ fuel, printfPieces format args (fuel + 1) l.conv l.buf l.esp = ps ++ printfPieces format args fuel conv (l.buf + 1) esp

/-- The piece for the reset at the end of a row of the line buffer. -/
def resetPiece (buf : Nat) : List PrintfPiece := if buf % lineBufferSize = lineBufferSize - 1 then [.reset] else []

theorem text_resetPiece {buf : Nat} : ∀ p ∈ resetPiece buf, p.text = [] := by
  unfold resetPiece
  split
  · simp [PrintfPiece.text]
  · simp

/-- A turn of the `while` that prints one character, or goes into a conversion. -/
theorem goesOn_outside {P : σ → Outcome BootStop σ → List UInt8 → Prop} {out : σ} {buf esp : Nat} {conv : Option Bool}
    {o : Outcome BootStop σ} {ps : List PrintfPiece} (hend : format buf ≠ 0) (hscan : formatNext none (format buf) = some conv)
    (hprints : P out o (ps.flatMap PrintfPiece.text))
    (hlengths : ∀ N, (∀ p ∈ ps, p.text.length ≤ N) ↔ (ps.flatMap PrintfPiece.text).length ≤ N)
    (hpieces : ∀ fuel, (if format buf = 0x25 then printfPieces format args fuel (some false) (buf + 1) esp
      else .char (format buf) :: printfPieces format args fuel none (buf + 1) esp) =
        ps ++ printfPieces format args fuel conv (buf + 1) esp) :
    GoesOn P format args { out := out, conv := none, buf := buf, esp := esp } conv esp o (resetPiece buf ++ ps) := by
  have htext : (resetPiece buf).flatMap PrintfPiece.text = [] := List.flatMap_eq_nil_iff.mpr text_resetPiece
  constructor
  case scan => exact hscan
  case prints => rwa [List.flatMap_append, htext, List.nil_append]
  case lengths =>
    intro N
    rw [List.forall_mem_append, List.flatMap_append, htext, List.nil_append, ← hlengths N]
    exact and_iff_right (fun p hp => by simp [text_resetPiece p hp])
  case pieces =>
    intro fuel
    rw [printfPieces, if_neg hend, hpieces fuel]
    unfold resetPiece
    split
    · rfl
    · rfl

/-- All that a turn can do. -/
theorem formatTurn_cases {P : σ → Outcome BootStop σ → List UInt8 → Prop} (hP : Outputs P reset putc puts) (format : CPtr)
    (args : Nat → PrintfArg) (l : FormatLoop σ) :
    (formatNext l.conv (format l.buf) = none ∧ formatTurn reset putc puts format args l () = .stop .returned l) ∨
      ∃ conv esp o ps, GoesOn P format args l conv esp o ps ∧ formatTurn reset putc puts format args l () = l.next conv esp o := by
  obtain ⟨out, conv, buf, esp⟩ := l
  unfold formatTurn
  cases conv with
  | none =>
    dsimp only
    by_cases hend : format buf = 0
    · exact Or.inl ⟨by simp [formatNext, hend], if_pos hend⟩
    · refine Or.inr ?_
      rw [if_neg hend]
      by_cases h25 : format buf = 0x25
      · rw [if_pos h25]
        refine ⟨some false, esp, .ok (reset buf out), resetPiece buf ++ [], ?_, rfl⟩
        exact goesOn_outside hend (by simp [formatNext, h25]) (hP.reset buf out _ _ (hP.silent _)) (by simp) (by simp [h25])
      · rw [if_neg h25]
        refine ⟨none, esp, putc (reset buf out) (format buf), resetPiece buf ++ [.char (format buf)], ?_, ?_⟩
        · exact goesOn_outside hend (by simp [formatNext, h25, hend]) (hP.reset buf out _ _ (hP.char _ _))
            (by simp [PrintfPiece.text]) (by simp [h25])
        · cases putc (reset buf out) (format buf) <;> rfl
  | some alternate =>
    dsimp only
    refine Or.inr ?_
    by_cases h25 : format buf = 0x25
    · rw [if_pos h25]
      refine ⟨none, esp, _, [.char 0x25], ⟨by simp [h25], hP.char _ _, by simp [PrintfPiece.text], fun fuel => ?_⟩, rfl⟩
      simp [printfPieces, h25]
    · rw [if_neg h25]
      by_cases h23 : format buf = 0x23
      · rw [if_pos h23]
        refine ⟨some true, esp, _, [], ⟨by simp [h23], hP.silent _, by simp, fun fuel => ?_⟩, rfl⟩
        simp [printfPieces, h23]
      · rw [if_neg h23]
        by_cases hstr : format buf = 0x78 ∨ format buf = 0x75 ∨ format buf = 0x64 ∨ format buf = 0x73
        · rw [if_pos hstr]
          refine ⟨none, esp + 1, _, [.string (convert alternate (format buf) (args esp))], ⟨by simp [h23], ?_, ?_, fun fuel => ?_⟩, rfl⟩
          · rw [List.flatMap_singleton]
            exact hP.string _ _
          · simp [PrintfPiece.text]
          · simp [printfPieces, h25, h23, hstr]
        · rw [if_neg hstr]
          by_cases h63 : format buf = 0x63
          · rw [if_pos h63]
            refine ⟨none, esp + 1, _, [.char ((args esp).word % 256).toUInt8], ⟨by simp [h23], hP.char _ _, by simp [PrintfPiece.text],
              fun fuel => ?_⟩, rfl⟩
            simp [printfPieces, h63]
          · rw [if_neg h63]
            refine ⟨none, esp, _, [], ⟨by simp [h23], hP.silent _, by simp, fun fuel => ?_⟩, rfl⟩
            simp [printfPieces, h25, h23, hstr, h63]

/-- A turn reads one character, as the scanner does. -/
theorem follows_formatTurn (reset : Nat → σ → σ) (putc : σ → UInt8 → Outcome BootStop σ) (puts : σ → List UInt8 → Outcome BootStop σ)
    (format : CPtr) (args : Nat → PrintfArg) :
    Scan.Follows (formatTurn reset putc puts format args) FormatLoop.buf FormatLoop.conv formatNext format .returned := by
  have hP : Outputs (fun _ _ _ => True) reset putc puts := ⟨fun _ => trivial, fun _ _ _ _ h => h, fun _ _ => trivial, fun _ _ => trivial⟩
  constructor
  case goes =>
    intro l l' h
    rcases formatTurn_cases hP format args l with ⟨-, hturn⟩ | ⟨conv, esp, o, ps, hgoes, hturn⟩
    · rw [hturn] at h
      cases h
    · rw [hturn] at h
      cases o with
      | ok out =>
        cases h
        exact ⟨hgoes.scan, rfl⟩
      | stop r out => cases h
  case ends =>
    intro l hend
    rcases formatTurn_cases hP format args l with ⟨-, hturn⟩ | ⟨conv, esp, o, ps, hgoes, -⟩
    · exact hturn
    · rw [hgoes.scan] at hend
      cases hend
  case stops =>
    intro l l' h
    rcases formatTurn_cases hP format args l with ⟨hend, -⟩ | ⟨conv, esp, o, ps, -, hturn⟩
    · exact hend
    · rw [hturn] at h
      cases o with
      | ok out => cases h
      | stop r out => cases h

/-! ### The runs -/

/-- `terminal_printf` goes on from every character but the terminator. -/
theorem terminalPrintf_runs (n : Nat) : ∀ l : FormatLoop Console, (∀ i < n, format (l.buf + i) ≠ 0) →
    (run (terminalPrintfTurn format args) l (List.replicate n ())).isOk = true := by
  induction n with
  | zero => exact fun _ _ => rfl
  | succ n ih =>
    intro l hne
    have hP : Outputs (fun _ o _ => o.isOk = true) (fun buf k => if buf % lineBufferSize = lineBufferSize - 1 then terminalResetBuffer k else k)
        (fun k c => .ok (terminalPutc k c)) (fun k s => .ok (terminalPuts k s)) :=
      ⟨fun _ => rfl, fun _ _ _ _ h => h, fun _ _ => rfl, fun _ _ => rfl⟩
    rw [List.replicate_succ, run_cons]
    unfold terminalPrintfTurn at ih ⊢
    rcases formatTurn_cases hP format args l with ⟨hend, -⟩ | ⟨conv, esp, o, ps, hgoes, hturn⟩
    · exact absurd hend (formatNext_ne_none (hne 0 (Nat.succ_pos n)) _)
    · cases o with
      | ok out =>
        rw [hturn]
        refine ih _ (fun i hi => ?_)
        have hi' := hne (i + 1) (by omega)
        rwa [Nat.add_comm i, ← Nat.add_assoc] at hi'
      | stop r out => exact absurd hgoes.prints Bool.false_ne_true

/-- A turn of the loop with fuel. -/
theorem terminalPrintfLoop_succ (format : CPtr) (args : Nat → PrintfArg) (fuel : Nat) (l : FormatLoop Console) :
    terminalPrintfLoop format args (fuel + 1) l.out l.conv l.buf l.esp =
      match terminalPrintfTurn format args l () with
      | .ok l' => terminalPrintfLoop format args fuel l'.out l'.conv l'.buf l'.esp
      | .stop _ l' => (l'.out, l'.buf) := by
  obtain ⟨out, conv, buf, esp⟩ := l
  cases conv with
  | none =>
    dsimp only [terminalPrintfLoop, terminalPrintfTurn, formatTurn]
    split
    · rfl
    · split <;> rfl
  | some alternate =>
    dsimp only [terminalPrintfLoop, terminalPrintfTurn, formatTurn]
    by_cases h25 : format buf = 0x25
    · simp only [if_pos h25, FormatLoop.next]
    · simp only [if_neg h25]
      by_cases h23 : format buf = 0x23
      · simp only [if_pos h23, FormatLoop.next]
      · simp only [if_neg h23]
        by_cases hstr : format buf = 0x78 ∨ format buf = 0x75 ∨ format buf = 0x64 ∨ format buf = 0x73
        · simp only [if_pos hstr, FormatLoop.next]
        · simp only [if_neg hstr]
          by_cases h63 : format buf = 0x63
          · simp only [if_pos h63, FormatLoop.next]
          · simp only [if_neg h63, FormatLoop.next]

/-- The loop with fuel is the run of as many turns. -/
theorem terminalPrintfLoop_eq (format : CPtr) (args : Nat → PrintfArg) (fuel : Nat) : ∀ k conv buf esp,
    terminalPrintfLoop format args fuel k conv buf esp =
      ((run (terminalPrintfTurn format args) ⟨k, conv, buf, esp⟩ (List.replicate fuel ())).state.out,
        (run (terminalPrintfTurn format args) ⟨k, conv, buf, esp⟩ (List.replicate fuel ())).state.buf) := by
  induction fuel with
  | zero => exact fun _ _ _ _ => rfl
  | succ fuel ih =>
    intro k conv buf esp
    have hsucc := terminalPrintfLoop_succ format args fuel { out := k, conv := conv, buf := buf, esp := esp }
    rw [List.replicate_succ, run_cons]
    cases hturn : terminalPrintfTurn format args { out := k, conv := conv, buf := buf, esp := esp } () with
    | ok l' =>
      rw [hturn] at hsucc
      exact hsucc.trans (ih _ _ _ _)
    | stop r l' =>
      rw [hturn] at hsucc
      exact hsucc

/-- The same for `printf`. -/
theorem printfLoop_eq (format : CPtr) (args : Nat → PrintfArg) (fuel : Nat) : ∀ l,
    printfLoop format args fuel l = run (printfTurn format args) l (List.replicate fuel ()) := by
  induction fuel with
  | zero => exact fun _ => rfl
  | succ fuel ih =>
    intro l
    rw [printfLoop, List.replicate_succ, run_cons]
    congr 1
    exact funext ih

theorem putsBytes_prints (k : BootConsole) (s : List UInt8) : PrintsText k (putsBytes k s) s := by
  obtain ⟨hok, hrow⟩ := putsLoop_prints s { toBootConsole := k, index := 0 } (Nat.zero_le _)
  rw [Nat.zero_add] at hok
  unfold putsBytes
  refine ⟨?_, fun k' hk' => ?_⟩
  · rw [← hok]
    cases run putsTurn { toBootConsole := k, index := 0 } s <;> rfl
  · obtain ⟨l, hl, rfl⟩ := Outcome.map_eq_ok.mp hk'
    exact hrow l hl

theorem piecesCounted_append {ps qs : List PrintfPiece} : PiecesCounted y (ps ++ qs) ↔
    PiecesCounted y ps ∧ PiecesCounted (rowAfter y (ps.flatMap PrintfPiece.text)) qs := by
  constructor
  · rintro ⟨hrows, hlengths⟩
    rw [List.flatMap_append, rowsCounted_append] at hrows
    rw [List.forall_mem_append] at hlengths
    exact ⟨⟨hrows.1, hlengths.1⟩, ⟨hrows.2, hlengths.2⟩⟩
  · rintro ⟨⟨hrows, hlengths⟩, ⟨hrows', hlengths'⟩⟩
    refine ⟨?_, List.forall_mem_append.mpr ⟨hlengths, hlengths'⟩⟩
    rw [List.flatMap_append, rowsCounted_append]
    exact ⟨hrows, hrows'⟩

/-- `printf` gets through characters that are not the terminator exactly when what they print keeps to the range of an `int`. -/
theorem printf_runs_iff (n : Nat) : ∀ l : FormatLoop BootConsole, (∀ i < n, format (l.buf + i) ≠ 0) →
    ((run (printfTurn format args) l (List.replicate n ())).isOk = true ↔
      PiecesCounted l.out.screenY (printfPieces format args n l.conv l.buf l.esp)) := by
  induction n with
  | zero => exact fun _ _ => ⟨fun _ => ⟨trivial, by simp [printfPieces]⟩, fun _ => rfl⟩
  | succ n ih =>
    intro l hne
    have hP : Outputs PrintsText (fun _ k => k) ThreeTermOS.putc putsBytes :=
      ⟨fun k => ⟨by simp [Outcome.isOk, RowsCounted], by rintro k' ⟨rfl⟩; rfl⟩, fun _ _ _ _ h => h, putc_prints, putsBytes_prints⟩
    rw [List.replicate_succ, run_cons]
    unfold printfTurn at ih ⊢
    rcases formatTurn_cases hP format args l with ⟨hend, -⟩ | ⟨conv, esp, o, ps, hgoes, hturn⟩
    · exact absurd hend (formatNext_ne_none (hne 0 (Nat.succ_pos n)) _)
    · have hps : o.isOk = true ↔ PiecesCounted l.out.screenY ps := by
        rw [hgoes.prints.isOk, ← hgoes.lengths intMax]
        exact ⟨fun h => ⟨h.2, h.1⟩, fun h => ⟨h.lengths, h.rows⟩⟩
      rw [hturn, hgoes.pieces, piecesCounted_append, ← hps]
      cases o with
      | ok out =>
        have hrest := ih { out := out, conv := conv, buf := l.buf + 1, esp := esp } (fun i hi => by
          have hi' := hne (i + 1) (by omega)
          rwa [Nat.add_comm i, ← Nat.add_assoc] at hi')
        rw [hgoes.prints.row out rfl] at hrest
        exact hrest.trans (and_iff_right rfl).symm
      | stop r out => exact iff_of_false Bool.false_ne_true (fun h => Bool.false_ne_true h.1)

/-! ### Complete formats -/

/-- The scan of the part of a conversion that does not close it. -/
theorem scan_sharps (n : Nat) : ∀ alternate, ∃ alternate', (List.replicate n (0x23 : UInt8)).foldlM formatNext (some alternate) =
    some (some alternate') := by
  induction n with
  | zero => exact fun alternate => ⟨alternate, rfl⟩
  | succ n ih =>
    intro alternate
    rw [List.replicate_succ, List.foldlM_cons]
    exact ih true

/-- A text the scan gets through is a complete format, or the rest of one from within a conversion. -/
theorem complete_of_scan (s : List UInt8) (hs : ∀ c ∈ s, c ≠ 0) :
    (s.foldlM formatNext none = some none → CompleteFormat s) ∧
      ∀ alternate n, s.foldlM formatNext (some alternate) = some none → CompleteFormat (0x25 :: (List.replicate n 0x23 ++ s)) := by
  induction s with
  | nil => exact ⟨fun _ => .nil, fun alternate n h => by cases h⟩
  | cons c s ih =>
    rw [List.forall_mem_cons] at hs
    obtain ⟨houtside, hinside⟩ := ih hs.2
    refine ⟨fun h => ?_, fun alternate n h => ?_⟩
    · rw [List.foldlM_cons, formatNext_outside hs.1] at h
      by_cases hc : c = 0x25
      · rw [if_pos hc] at h
        rw [hc]
        exact hinside false 0 h
      · rw [if_neg hc] at h
        exact .char hc (houtside h)
    · rw [List.foldlM_cons, formatNext_inside] at h
      by_cases hc : c = 0x23
      · rw [if_pos hc] at h
        have hmore := hinside true (n + 1) h
        rw [List.replicate_succ', List.append_assoc] at hmore
        rwa [hc]
      · rw [if_neg hc] at h
        exact .conversion n hc (houtside h)

/-- The scan gets through a complete format and is outside of a conversion behind it, and through no other. -/
theorem completeFormat_iff (hs : ∀ c ∈ s, c ≠ 0) : CompleteFormat s ↔ s.foldlM formatNext none = some none := by
  constructor
  · intro h
    induction h with
    | nil => rfl
    | char hc _ ih =>
      rw [List.forall_mem_cons] at hs
      rw [List.foldlM_cons, formatNext_outside hs.1, if_neg hc]
      exact ih hs.2
    | @conversion n c s hc _ ih =>
      obtain ⟨alternate, hsharps⟩ := scan_sharps n false
      rw [List.forall_mem_cons, List.forall_mem_append, List.forall_mem_cons] at hs
      rw [List.foldlM_cons, formatNext_outside (by decide), if_pos rfl]
      refine Eq.trans ?_ (ih hs.2.2.2)
      change (List.replicate n 0x23 ++ c :: s).foldlM formatNext (some false) = s.foldlM formatNext none
      rw [List.foldlM_append, hsharps, Option.bind_eq_bind, Option.bind_some, List.foldlM_cons, formatNext_inside, if_neg hc]
      rfl
  · exact (complete_of_scan s hs).1

end PrintfAux

end ThreeTermOS
