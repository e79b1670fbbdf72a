import ThreeTermOS.CommandLine
import ThreeTermOS.Lemmas.BootConsole
import ThreeTermOS.Library.Screen

/-!
# The layout of the boot console

`putc` puts off the move to the next row until a character comes, and then reduces the column before it takes the row from it. A text
whose lines end within the 80 columns is laid out row by row; the character after a full line goes over the first of that line.
-/

namespace ThreeTermOS

open Bytes Runs Screens

/-- The stores of a turn of `puts`, in order: the character and its attribute. -/
def putsStores (l : PutsLoop) (c : UInt8) : List (UInt8 × Nat) :=
  if isLineBreak c then []
  else
    let x := l.screenX % numCols
    let y := (l.screenY + x / numCols) % numRows
    [(c, video + 2 * (numCols * y + x)), (attrib, video + 2 * (numCols * y + x) + 1)]

/-- The stores of a character at a cell of the screen that goes round. -/
def cellStores (p : Nat × UInt8) : List (UInt8 × Nat) :=
  let cell := p.1 % (numCols * numRows)
  [(p.2, video + 2 * cell), (attrib, video + 2 * cell + 1)]

/-- The cells the text of `puts` belongs in, from the position of the console on. -/
def BootConsole.layout (k : BootConsole) (s : CPtr) : List (Nat × UInt8) :=
  Screens.layout numCols isLineBreak k.screenY k.screenX (strcpyBytes s)

/-- `puts` returns, and its stores are those of the text laid out row by row, the rows going round; the memory is left as they leave it,
and no cell is stored in again before all the cells have been passed. -/
structure LaysOut (k : BootConsole) (s : CPtr) : Prop where
  returns : (puts k s).isOk = true
  stores : collect putsTurn putsStores { toBootConsole := k, index := 0 } (strcpyBytes s) = (k.layout s).flatMap cellStores
  screen : (puts k s).state.mem = applyStores k.mem ((k.layout s).flatMap cellStores)
  apart : (k.layout s).Pairwise (fun p q => p.1 % (numCols * numRows) = q.1 % (numCols * numRows) → p.1 + numCols * numRows ≤ q.1)

/-- No line of a text is longer than a row, the first going on from column `x`. -/
def NarrowLines : Nat → List UInt8 → Prop
  | _, [] => True
  | x, c :: s => if isLineBreak c then NarrowLines 0 s else x < numCols ∧ NarrowLines (x + 1) s

namespace BootLayoutAux

open BootConsoleAux

variable {l : PutsLoop} {c : UInt8} {row : Nat}

/-- The memory is changed by the stores. -/
theorem putsTurn_mem (l : PutsLoop) (c : UInt8) : (putsTurn l c).state.mem = applyStores l.mem (putsStores l c) := by
  unfold putsTurn putc putsStores
  by_cases hbrk : isLineBreak c
  · rw [if_pos hbrk, if_pos hbrk]
    by_cases hy : l.screenY ≥ intMax
    · rw [if_pos hy]
      rfl
    · rw [if_neg hy]
      dsimp only
      split <;> rfl
  · rw [if_neg hbrk, if_neg hbrk]
    dsimp only
    split <;> rfl

/-- What a call leaves of the memory. -/
theorem puts_mem (k : BootConsole) (s : CPtr) :
    (puts k s).state.mem = applyStores k.mem (collect putsTurn putsStores { toBootConsole := k, index := 0 } (strcpyBytes s)) :=
  foldl_collect (fun l : PutsLoop => l.mem) (fun (m : CPtr) (st : UInt8 × Nat) => set m st.2 st.1) putsTurn_mem (strcpyBytes s)

/-! ### One turn -/

theorem putsTurn_break (hbrk : isLineBreak c = true) (hy : l.screenY < intMax) (hindex : l.index < intMax) :
    putsTurn l c = .ok { mem := l.mem, screenX := 0, screenY := l.screenY + 1, index := l.index + 1 } := by
  unfold putsTurn putc
  rw [if_pos hbrk, if_neg (Nat.not_le_of_lt hy)]
  dsimp only
  rw [if_neg (Nat.not_le_of_lt hindex)]

/-- A character within the columns goes to its cell, and the position goes on. -/
theorem putsTurn_char (hbrk : isLineBreak c = false) (hx : l.screenX < numCols) (hindex : l.index < intMax) :
    ∃ m, putsTurn l c = .ok { mem := m, screenX := l.screenX + 1, screenY := l.screenY % numRows, index := l.index + 1 } := by
  unfold putsTurn putc
  rw [if_neg (by rw [hbrk]; decide)]
  dsimp only
  rw [if_neg (Nat.not_le_of_lt hindex), Nat.mod_eq_of_lt hx, Nat.div_eq_of_lt hx, Nat.add_zero]
  exact ⟨_, rfl⟩

theorem putsStores_char (hbrk : isLineBreak c = false) (hx : l.screenX < numCols) (hrow : row % numRows = l.screenY % numRows) :
    putsStores l c = cellStores (numCols * row + l.screenX, c) := by
  unfold putsStores cellStores
  rw [if_neg (by rw [hbrk]; decide)]
  dsimp only
  rw [number_mod numRows row hx, hrow, Nat.mod_eq_of_lt hx, Nat.div_eq_of_lt hx, Nat.add_zero]

/-- A character past the columns stays in its row. -/
theorem putsStores_wrap (hbrk : isLineBreak c = false) (hrow : row % numRows = l.screenY % numRows) (ts us : List (UInt8 × Nat)) :
    putsStores l c ++ ts ≠ cellStores (numCols * (row + 1), c) ++ us := by
  unfold putsStores cellStores
  rw [if_neg (by rw [hbrk]; decide)]
  intro he
  have hcell : video + 2 * (numCols * ((l.screenY + l.screenX % numCols / numCols) % numRows) + l.screenX % numCols) =
      video + 2 * ((numCols * (row + 1)) % (numCols * numRows)) := congrArg Prod.snd (List.cons.inj he).1
  have hcol : l.screenX % numCols < numCols := Nat.mod_lt _ (by decide)
  have hnext : (numCols * (row + 1) + 0) % (numCols * numRows) = numCols * ((row + 1) % numRows) + 0 :=
    number_mod numRows (row + 1) (by decide)
  rw [Nat.div_eq_of_lt hcol, Nat.add_zero, ← hrow] at hcell
  unfold numCols numRows at *
  omega

/-! ### The loop -/

theorem collect_cons {l' : PutsLoop} (hs : putsTurn l c = .ok l') (s : List UInt8) :
    collect putsTurn putsStores l (c :: s) = putsStores l c ++ collect putsTurn putsStores l' s := by
  rw [collect, hs]

theorem run_cons_isOk {l' : PutsLoop} (hs : putsTurn l c = .ok l') (s : List UInt8) :
    (run putsTurn l (c :: s)).isOk = (run putsTurn l' s).isOk := by
  rw [run_cons, hs, Outcome.andThen_ok]

/-- The stores of a loop that gets through, from any turn on, at a row that comes round to `screen_y`. -/
theorem stores_iff (s : List UInt8) (hok : (run putsTurn l s).isOk = true) (hrow : row % numRows = l.screenY % numRows) :
    collect putsTurn putsStores l s = (Screens.layout numCols isLineBreak row l.screenX s).flatMap cellStores ↔
      NarrowLines l.screenX s := by
  induction s generalizing l row with
  | nil => exact iff_of_true rfl trivial
  | cons c s ih =>
    obtain ⟨l', hs, -⟩ := Outcome.andThen_eq_ok.mp ((run_cons l c s).symm.trans (Outcome.eq_ok_of_isOk hok))
    rw [run_cons_isOk hs] at hok
    rw [collect_cons hs]
    unfold Screens.layout NarrowLines
    obtain ⟨hputc, hindex⟩ := (putsTurn_isOk l c).mp (by rw [hs]; rfl)
    by_cases hbrk : isLineBreak c = true
    · have hy := ((putc_prints l.toBootConsole c).isOk.mp hputc).2
      rw [RowsCounted, if_pos hbrk] at hy
      have hstores : putsStores l c = [] := if_pos hbrk
      have hnext : (row + 1) % numRows = (l.screenY + 1) % numRows := by rw [Nat.add_mod, hrow, ← Nat.add_mod]
      rw [putsTurn_break hbrk hy.1 hindex, Outcome.ok.injEq] at hs
      subst hs
      rw [if_pos hbrk, if_pos hbrk, hstores, List.nil_append]
      exact ih hok hnext
    · have hbrk' : isLineBreak c = false := Bool.eq_false_iff.mpr hbrk
      rw [if_neg hbrk, if_neg hbrk]
      by_cases hx : l.screenX < numCols
      · obtain ⟨m, hm⟩ := putsTurn_char hbrk' hx hindex
        have hnext : row % numRows = l.screenY % numRows % numRows := by rw [Nat.mod_mod, hrow]
        rw [hm, Outcome.ok.injEq] at hs
        subst hs
        rw [if_pos hx, putsStores_char hbrk' hx hrow, List.flatMap_cons, List.append_right_inj, and_iff_right hx]
        exact ih hok hnext
      · rw [if_neg hx, List.flatMap_cons]
        -- the character is stored in the row it should have left
        exact iff_of_false (putsStores_wrap hbrk' hrow _ _) (fun h => hx h.1)

/-- The loop from its start. -/
theorem loop_iff (k : BootConsole) (s : List UInt8) :
    ((run putsTurn { toBootConsole := k, index := 0 } s).isOk = true ∧
        collect putsTurn putsStores { toBootConsole := k, index := 0 } s =
          (Screens.layout numCols isLineBreak k.screenY k.screenX s).flatMap cellStores) ↔
      s.length ≤ intMax ∧ NarrowLines k.screenX s ∧ RowsCounted k.screenY s := by
  have hok := (putsLoop_prints s { toBootConsole := k, index := 0 } (Nat.zero_le _)).1
  rw [Nat.zero_add] at hok
  constructor
  · rintro ⟨hrun, hstores⟩
    exact ⟨(hok.mp hrun).1, (stores_iff s hrun rfl).mp hstores, (hok.mp hrun).2⟩
  · rintro ⟨hlen, hnarrow, hrows⟩
    have hrun := hok.mpr ⟨hlen, hrows⟩
    exact ⟨hrun, (stores_iff s hrun rfl).mpr hnarrow⟩

end BootLayoutAux

open BootLayoutAux

/-- Wherever it starts, `puts` lays a string out row by row exactly when no line of it is longer than a row, the first with the columns
before it, and neither `index` nor `screen_y` leaves the range of an `int`. -/
theorem puts_laysOut_iff (k : BootConsole) (s : CPtr) :
    LaysOut k s ↔ (strcpyBytes s).length ≤ intMax ∧ NarrowLines k.screenX (strcpyBytes s) ∧ RowsCounted k.screenY (strcpyBytes s) := by
  rw [← loop_iff k (strcpyBytes s)]
  constructor
  · intro h
    exact ⟨h.returns, h.stores⟩
  · rintro ⟨hok, hstores⟩
    refine ⟨hok, hstores, ?_, layout_apart (by decide) isLineBreak k.screenY k.screenX (strcpyBytes s) _⟩
    have hmem := puts_mem k s
    rw [hstores] at hmem
    exact hmem

/-- A line of one character more than a row has columns. -/
def longLine : CPtr := cstr (List.replicate (numCols + 1) 0x41)

/-- The last character goes to the first column again and not to the next row. -/
theorem longLine_stays : ¬LaysOut { mem := fun _ => 0, screenX := 0, screenY := 0 } longLine := by
  intro h
  have hlast := congrArg List.getLast? h.stores
  exact absurd hlast (by decide +kernel)

end ThreeTermOS
