import ThreeTermOS.BootConsole

/-!
# The rows putc and puts count

`screen_y` is a count of the line breaks since the last character, which brings it back to a row of the screen. What it becomes, and
whether it stays an `int`, depends on the text alone.
-/

namespace ThreeTermOS

open Runs

/-- The line breaks of a text that no character comes between are so few that `screen_y`, from `y` on, stays an `int`. -/
def RowsCounted : Nat → List UInt8 → Prop
  | _, [] => True
  | y, c :: s => if isLineBreak c then y < intMax ∧ RowsCounted (y + 1) s else RowsCounted (y % numRows) s

instance RowsCounted.decidable : (y : Nat) → (s : List UInt8) → Decidable (RowsCounted y s)
  | _, [] => isTrue trivial
  | y, c :: s =>
    have := RowsCounted.decidable (y + 1) s
    have := RowsCounted.decidable (y % numRows) s
    inferInstanceAs (Decidable (if isLineBreak c then y < intMax ∧ RowsCounted (y + 1) s else RowsCounted (y % numRows) s))

/-- `screen_y` after a text. -/
def rowAfter (y : Nat) (s : List UInt8) : Nat := s.foldl (fun y c => if isLineBreak c then y + 1 else y % numRows) y

namespace BootConsoleAux

variable {k : BootConsole} {l : PutsLoop} {c : UInt8} {s t : List UInt8} {y : Nat}

theorem rowsCounted_append : RowsCounted y (s ++ t) ↔ RowsCounted y s ∧ RowsCounted (rowAfter y s) t := by
  induction s generalizing y with
  | nil => simp [RowsCounted, rowAfter]
  | cons c s ih =>
    unfold rowAfter at ih ⊢
    rw [List.cons_append, RowsCounted, RowsCounted, List.foldl_cons]
    by_cases hbrk : isLineBreak c = true
    · simp [hbrk, ih, and_assoc]
    · simp [hbrk, ih]

/-- A printing step gives out a text: it goes through when the text has no more characters than an `int` counts, of the rows too. -/
structure PrintsText (k : BootConsole) (o : Outcome BootStop BootConsole) (s : List UInt8) : Prop where
  isOk : o.isOk = true ↔ s.length ≤ intMax ∧ RowsCounted k.screenY s
  row : ∀ k', o = .ok k' → k'.screenY = rowAfter k.screenY s

theorem putc_prints (k : BootConsole) (c : UInt8) : PrintsText k (putc k c) [c] := by
  have hlen : 1 ≤ intMax := by decide
  unfold putc
  by_cases hbrk : isLineBreak c = true
  · rw [if_pos hbrk]
    by_cases hy : k.screenY ≥ intMax
    · rw [if_pos hy]
      refine ⟨?_, nofun⟩
      simp [Outcome.isOk, RowsCounted, hbrk, hy]
    · rw [if_neg hy]
      refine ⟨?_, ?_⟩
      · simp [Outcome.isOk, RowsCounted, hbrk, hlen, Nat.lt_of_not_le hy]
      · rintro k' ⟨rfl⟩
        simp [rowAfter, hbrk]
  · rw [if_neg hbrk]
    have hcol : k.screenX % numCols / numCols = 0 := Nat.div_eq_of_lt (Nat.mod_lt _ (by decide))
    refine ⟨?_, ?_⟩
    · simp [Outcome.isOk, RowsCounted, hbrk, hlen]
    · rintro k' ⟨rfl⟩
      simp [rowAfter, hbrk, hcol]

/-- A turn of `puts` is `putc` and a count. -/
theorem putsTurn_isOk (l : PutsLoop) (c : UInt8) :
    (putsTurn l c).isOk = true ↔ (putc l.toBootConsole c).isOk = true ∧ l.index < intMax := by
  unfold putsTurn
  cases putc l.toBootConsole c with
  | stop r k => simp [Outcome.isOk]
  | ok k =>
    dsimp only
    split
    · simp [Outcome.isOk]
      omega
    · simp [Outcome.isOk]
      omega

theorem putsTurn_eq_ok {l' : PutsLoop} (h : putsTurn l c = .ok l') :
    putc l.toBootConsole c = .ok l'.toBootConsole ∧ l'.index = l.index + 1 := by
  unfold putsTurn at h
  cases hk : putc l.toBootConsole c with
  | stop r k => simp [hk] at h
  | ok k =>
    rw [hk] at h
    dsimp only at h
    split at h
    · cases h
    · cases h
      exact ⟨rfl, rfl⟩

/-- The loop of `puts`, from any turn on. -/
theorem putsLoop_prints (s : List UInt8) : ∀ l : PutsLoop, l.index ≤ intMax →
    ((run putsTurn l s).isOk = true ↔ l.index + s.length ≤ intMax ∧ RowsCounted l.screenY s) ∧
      ∀ l', run putsTurn l s = .ok l' → l'.screenY = rowAfter l.screenY s := by
  induction s with
  | nil =>
    intro l hindex
    refine ⟨by simp [Outcome.isOk, RowsCounted, hindex], ?_⟩
    rintro l' ⟨rfl⟩
    rfl
  | cons c s ih =>
    intro l hindex
    have hprints := putc_prints l.toBootConsole c
    have hcons : c :: s = [c] ++ s := rfl
    have hturn := putsTurn_isOk l c
    rw [hprints.isOk] at hturn
    rw [run_cons, hcons, rowsCounted_append, List.length_append, List.length_singleton]
    cases hs : putsTurn l c with
    | stop r l₁ =>
      rw [hs] at hturn
      refine ⟨?_, fun l' hl' => by cases hl'⟩
      simp only [Outcome.isOk, Outcome.andThen_stop, Bool.false_eq_true, false_iff, List.length_singleton] at hturn ⊢
      rintro ⟨hlen, hc, -⟩
      exact hturn ⟨⟨by omega, hc⟩, by omega⟩
    | ok l₁ =>
      rw [hs] at hturn
      obtain ⟨hputc, hindex'⟩ := putsTurn_eq_ok hs
      have hrow := hprints.row _ hputc
      obtain ⟨⟨-, hc⟩, hlt⟩ := hturn.mp rfl
      obtain ⟨hok, hnext⟩ := ih l₁ (by omega)
      rw [Outcome.andThen_ok, hok, hrow, hindex', Nat.add_assoc]
      refine ⟨by simp [hc], fun l' hl' => ?_⟩
      rw [hnext l' hl', hrow]
      exact (List.foldl_append ..).symm

end BootConsoleAux

end ThreeTermOS
