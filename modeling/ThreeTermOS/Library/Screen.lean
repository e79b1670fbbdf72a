import Mathlib.Algebra.Order.Ring.Nat
import Mathlib.Logic.Basic

/-!
# Character screens

A screen of `h` rows of `w` cells with a cursor on one of the cells. A character is put at the cursor, which goes on to the next
cell; past the last column it goes to the start of the next row, and past the last row the rows move up by one and a blank row
comes in below. Cells are of any type; `blank` is the cell of an empty place.

Row by row the cells are numbered, and a text is before the cursor when the cells up to it show the text. Putting a character makes the
text longer and erasing one takes the last away, wherever the cursor was and whether the screen scrolls or not, as long as the text
leaves a row of the screen free.

A screen may go round instead of scrolling. A text on it is laid out over the numbers of all the cells it passes, and its cell on the
screen is what the number leaves.
-/

namespace Screens

universe u

variable {α : Type u} {h w : Nat}

/-- A screen: its cells, and the column and row of the cursor. -/
structure Screen (h w : Nat) (α : Type u) where
  cell : Fin h → Fin w → α
  x : Fin w
  y : Fin h

namespace Screen

/-- The first column. -/
def col0 (s : Screen h w α) : Fin w := ⟨0, Nat.zero_lt_of_lt s.x.isLt⟩

/-- The first row. -/
def row0 (s : Screen h w α) : Fin h := ⟨0, Nat.zero_lt_of_lt s.y.isLt⟩

/-- The cell under the cursor replaced. -/
def setCell (s : Screen h w α) (a : α) : Screen h w α :=
  { s with cell := fun r c => if r = s.y ∧ c = s.x then a else s.cell r c }

/-- The rows moved up by one, a blank row below. -/
def scroll (blank : α) (s : Screen h w α) : Screen h w α :=
  { s with cell := fun r c => if hr : r.val + 1 < h then s.cell ⟨r.val + 1, hr⟩ c else blank }

/-- The cursor one row down. In the last row the screen scrolls instead. -/
def lineFeed (blank : α) (s : Screen h w α) : Screen h w α :=
  if hy : s.y.val + 1 < h then { s with y := ⟨s.y.val + 1, hy⟩ } else s.scroll blank

/-- The cursor at the start of the next row. -/
def newline (blank : α) (s : Screen h w α) : Screen h w α := lineFeed blank { s with x := s.col0 }

/-- The cursor on the next cell. -/
def advance (blank : α) (s : Screen h w α) : Screen h w α :=
  if hx : s.x.val + 1 < w then { s with x := ⟨s.x.val + 1, hx⟩ } else s.newline blank

/-- A character put at the cursor. -/
def put (blank : α) (s : Screen h w α) (a : α) : Screen h w α := (s.setCell a).advance blank

/-- The cursor is on the first cell. -/
def AtHome (s : Screen h w α) : Prop := s.x.val = 0 ∧ s.y.val = 0

instance (s : Screen h w α) : Decidable s.AtHome := inferInstanceAs (Decidable (_ ∧ _))

/-- The cursor on the cell before: the last of the row above when it is in the first column. The first cell has none before. -/
def back (s : Screen h w α) : Screen h w α :=
  if s.x.val = 0 then
    { s with
      x := ⟨w - 1, Nat.sub_one_lt (Nat.ne_zero_of_lt s.x.isLt)⟩
      y := ⟨s.y.val - 1, Nat.lt_of_le_of_lt (Nat.sub_le _ _) s.y.isLt⟩ }
  else { s with x := ⟨s.x.val - 1, Nat.lt_of_le_of_lt (Nat.sub_le _ _) s.x.isLt⟩ }

/-- The character before the cursor erased. On the first cell there is none, and nothing changes. -/
def erasePrev (blank : α) (s : Screen h w α) : Screen h w α := if s.AtHome then s else s.back.setCell blank

/-- An empty screen, with the cursor on the first cell. -/
def clear (blank : α) (s : Screen h w α) : Screen h w α := { cell := fun _ _ => blank, x := s.col0, y := s.row0 }

/-! ### The text before the cursor -/

/-- The number of cells before the cursor. -/
def pos (s : Screen h w α) : Nat := w * s.y.val + s.x.val

/-- The cells up to the cursor show the text. -/
structure EndsWith (s : Screen h w α) (text : List α) : Prop where
  room : text.length ≤ s.pos
  shown : ∀ (r : Fin h) (c : Fin w) (i : Nat) (hi : i < text.length), w * r.val + c.val + text.length = s.pos + i → s.cell r c = text[i]

/-- The cursor is on the last cell. -/
def AtEnd (s : Screen h w α) : Prop := s.x.val + 1 = w ∧ s.y.val + 1 = h

instance (s : Screen h w α) : Decidable s.AtEnd := inferInstanceAs (Decidable (_ ∧ _))

section Text

variable {s : Screen h w α} {text : List α} {a : α}

/-- Cells of one number are one cell. -/
theorem number_inj {r r' : Fin h} {c c' : Fin w} (he : w * r.val + c.val = w * r'.val + c'.val) : r = r' ∧ c = c' := by
  have hw : 0 < w := Nat.zero_lt_of_lt c.isLt
  have hrow : r.val = r'.val := by
    have hdiv := congrArg (· / w) he
    simpa [Nat.mul_add_div hw, Nat.div_eq_of_lt c.isLt, Nat.div_eq_of_lt c'.isLt] using hdiv
  refine ⟨Fin.ext hrow, Fin.ext ?_⟩
  rw [hrow] at he
  exact Nat.add_left_cancel he

theorem pos_lt (s : Screen h w α) : s.pos < w * h := by
  have hx := s.x.isLt
  have hmul : w * (s.y.val + 1) ≤ w * h := Nat.mul_le_mul_left w s.y.isLt
  rw [Nat.mul_add_one] at hmul
  unfold pos
  omega

theorem endsWith_nil (s : Screen h w α) : s.EndsWith [] := ⟨Nat.zero_le _, fun _ _ _ hi => absurd hi (Nat.not_lt_zero _)⟩

/-- The cells before a new character show what they did, and its own shows it. -/
theorem setCell_shown (hs : s.EndsWith text) {r : Fin h} {c : Fin w} {i : Nat} (hi : i < (text ++ [a]).length)
    (hnum : w * r.val + c.val + text.length = s.pos + i) : (s.setCell a).cell r c = (text ++ [a])[i] := by
  unfold setCell
  dsimp only
  by_cases hcell : r = s.y ∧ c = s.x
  · obtain ⟨rfl, rfl⟩ := hcell
    have hlast : i = text.length := by
      unfold pos at hnum
      omega
    subst hlast
    rw [if_pos ⟨rfl, rfl⟩, List.getElem_concat_length rfl]
  · have hbefore : i < text.length := by
      rw [List.length_append, List.length_singleton] at hi
      refine Nat.lt_of_le_of_ne (Nat.le_of_lt_succ hi) (fun he => hcell (number_inj ?_))
      unfold pos at hnum
      omega
    rw [if_neg hcell, List.getElem_append_left hbefore]
    exact hs.shown r c i hbefore hnum

theorem advance_of_not_atEnd (blank : α) (hend : ¬s.AtEnd) :
    (s.advance blank).pos = s.pos + 1 ∧ (s.advance blank).cell = s.cell := by
  have hx := s.x.isLt
  have hy := s.y.isLt
  unfold AtEnd at hend
  unfold advance newline lineFeed pos col0
  by_cases hcol : s.x.val + 1 < w
  · rw [dif_pos hcol]
    exact ⟨rfl, rfl⟩
  · have hrow : s.y.val + 1 < h := by omega
    rw [dif_neg hcol, dif_pos hrow]
    refine ⟨?_, rfl⟩
    dsimp only
    rw [Nat.mul_add_one]
    omega

/-- Past the last cell, the screen moves up. -/
theorem advance_of_atEnd (blank : α) (hend : s.AtEnd) :
    (s.advance blank).pos + w = s.pos + 1 ∧ (s.advance blank).cell = (s.scroll blank).cell := by
  obtain ⟨hcol, hrow⟩ := hend
  unfold advance newline lineFeed pos col0
  rw [dif_neg (by omega), dif_neg (by dsimp only; omega)]
  refine ⟨?_, rfl⟩
  unfold scroll
  dsimp only
  omega

theorem put_pos_of_not_atEnd (blank a : α) (hend : ¬s.AtEnd) : (s.put blank a).pos = s.pos + 1 :=
  (advance_of_not_atEnd (s := s.setCell a) blank hend).1

theorem put_pos_of_atEnd (blank a : α) (hend : s.AtEnd) : (s.put blank a).pos + w = s.pos + 1 :=
  (advance_of_atEnd (s := s.setCell a) blank hend).1

/-- A new line that leaves the cursor where it is begins in the first cell of the last row. -/
theorem newline_pos_eq {blank : α} (hpos : (s.newline blank).pos = s.pos) : s.x.val = 0 ∧ s.y.val + 1 = h := by
  have hx := s.x.isLt
  have hy := s.y.isLt
  unfold newline lineFeed pos col0 at hpos
  by_cases hrow : s.y.val + 1 < h
  · rw [dif_pos hrow] at hpos
    dsimp only at hpos
    rw [Nat.mul_add_one] at hpos
    omega
  · rw [dif_neg hrow] at hpos
    unfold scroll at hpos
    dsimp only at hpos
    omega

/-- A screen that scrolls into itself is empty, from the last row up. -/
theorem eq_blank_of_scroll {blank : α} (hs : (s.scroll blank).cell = s.cell) (r : Fin h) (c : Fin w) : s.cell r c = blank := by
  have hrow : ∀ (n : Nat) (r : Fin h), r.val + n + 1 = h → s.cell r c = blank := by
    intro n
    induction n with
    | zero =>
      intro r hr
      rw [← hs]
      exact dif_neg (by omega)
    | succ n ih =>
      intro r hr
      have hlt : r.val + 1 < h := by omega
      rw [← hs]
      exact (dif_pos hlt).trans (ih ⟨r.val + 1, hlt⟩ (by dsimp only; omega))
  exact hrow (h - r.val - 1) r (by omega)

/-- An empty screen scrolls into itself. -/
theorem scroll_of_blank {blank : α} (hs : ∀ r c, s.cell r c = blank) : (s.scroll blank).cell = s.cell := by
  funext r c
  unfold scroll
  dsimp only
  rw [hs r c]
  split
  · exact hs _ c
  · rfl

/-- A character put at the cursor makes the text longer. -/
theorem EndsWith.put (hs : s.EndsWith text) (blank a : α) (hroom : s.AtEnd → text.length + w ≤ s.pos) :
    (s.put blank a).EndsWith (text ++ [a]) := by
  have hlen : (text ++ [a]).length = text.length + 1 := by rw [List.length_append, List.length_singleton]
  have hle := hs.room
  by_cases hend : s.AtEnd
  · -- the screen has moved up: each cell was one row further down
    have hle' := hroom hend
    have hpos := put_pos_of_atEnd blank a hend
    have hcell := (advance_of_atEnd (s := s.setCell a) blank hend).2
    refine ⟨by omega, fun r c i hi hnum => ?_⟩
    have hdown : w * (r.val + 1) + c.val + text.length = s.pos + i := by
      rw [Nat.mul_add_one]
      omega
    have hrow : r.val + 1 < h := by
      by_contra hlast
      have hmul : w * h ≤ w * (r.val + 1) := Nat.mul_le_mul_left w (Nat.le_of_not_lt hlast)
      have hlt := s.pos_lt
      rw [hlen] at hi
      omega
    unfold Screen.put
    rw [hcell]
    unfold scroll
    dsimp only
    rw [dif_pos hrow]
    exact setCell_shown hs hi hdown
  · have hpos := put_pos_of_not_atEnd blank a hend
    have hcell := (advance_of_not_atEnd (s := s.setCell a) blank hend).2
    refine ⟨by omega, fun r c i hi hnum => ?_⟩
    unfold Screen.put
    rw [hcell]
    exact setCell_shown hs hi (by omega)

theorem back_pos (hpos : 0 < s.pos) : s.back.pos + 1 = s.pos := by
  have hx := s.x.isLt
  unfold back
  by_cases hcol : s.x.val = 0
  · rw [if_pos hcol]
    unfold pos at hpos ⊢
    dsimp only
    rw [hcol, Nat.add_zero] at hpos
    have hy : s.y.val - 1 + 1 = s.y.val := Nat.sub_add_cancel (Nat.pos_of_ne_zero (fun hy => by simp [hy] at hpos))
    have hmul : w * s.y.val = w * (s.y.val - 1) + w := by rw [← Nat.mul_add_one, hy]
    omega
  · rw [if_neg hcol]
    unfold pos
    dsimp only
    omega

theorem back_cell (s : Screen h w α) : s.back.cell = s.cell := by
  unfold back
  split <;> rfl

/-- The last character erased. -/
theorem EndsWith.erase (hs : s.EndsWith (text ++ [a])) (b : α) :
    s.back.pos + 1 = s.pos ∧ s.cell s.back.y s.back.x = a ∧ (s.back.setCell b).EndsWith text := by
  have hlen : (text ++ [a]).length = text.length + 1 := by rw [List.length_append, List.length_singleton]
  have hle := hs.room
  have hback := back_pos (s := s) (by omega)
  refine ⟨hback, ?_, ⟨?_, fun r c i hi hnum => ?_⟩⟩
  · rw [hs.shown s.back.y s.back.x text.length (by omega) (by rw [hlen]; unfold pos at hback ⊢; omega), List.getElem_concat_length rfl]
  · change text.length ≤ s.back.pos
    omega
  · have hnum' : w * r.val + c.val + text.length = s.back.pos + i := hnum
    have hother : ¬(r = s.back.y ∧ c = s.back.x) := by
      rintro ⟨rfl, rfl⟩
      unfold pos at hnum'
      omega
    unfold setCell
    dsimp only
    rw [if_neg hother, back_cell, hs.shown r c i (by omega) (by omega), List.getElem_append_left hi]

end Text

end Screen

/-! ### Texts laid out row by row -/

/-- Where a text goes on a screen without an end, from column `col` of row `row` on: each of its characters but the line breaks, with the
number of its cell. After the last column the position waits there, and the next character takes it to the row below. -/
def layout (w : Nat) (brk : α → Bool) : Nat → Nat → List α → List (Nat × α)
  | _, _, [] => []
  | row, col, a :: text =>
    if brk a then layout w brk (row + 1) 0 text
    else if col < w then (w * row + col, a) :: layout w brk row (col + 1) text
    else (w * (row + 1), a) :: layout w brk (row + 1) 1 text

section Layout

variable {brk : α → Bool} {row col : Nat} {text : List α}

/-- A text goes into the cells from its position on. -/
theorem le_of_mem_layout (hw : 0 < w) {p : Nat × α} (hp : p ∈ layout w brk row col text) : w * row + min col w ≤ p.1 := by
  induction text generalizing row col with
  | nil => exact absurd hp List.not_mem_nil
  | cons a text ih =>
    have hrow : w * (row + 1) = w * row + w := Nat.mul_add_one w row
    unfold layout at hp
    split at hp
    · have hle := ih hp
      omega
    · split at hp
      · rcases List.mem_cons.mp hp with rfl | hp
        · dsimp only
          omega
        · have hle := ih hp
          omega
      · rcases List.mem_cons.mp hp with rfl | hp
        · dsimp only
          omega
        · have hle := ih hp
          omega

/-- A text goes into cells of growing numbers. -/
theorem layout_sorted (hw : 0 < w) (brk : α → Bool) (row col : Nat) (text : List α) :
    (layout w brk row col text).Pairwise (fun p q => p.1 < q.1) := by
  induction text generalizing row col with
  | nil => exact List.Pairwise.nil
  | cons a text ih =>
    unfold layout
    split
    · exact ih (row + 1) 0
    · split
      · refine List.pairwise_cons.mpr ⟨fun q hq => ?_, ih row (col + 1)⟩
        have hle := le_of_mem_layout hw hq
        dsimp only
        omega
      · refine List.pairwise_cons.mpr ⟨fun q hq => ?_, ih (row + 1) 1⟩
        have hle := le_of_mem_layout hw hq
        dsimp only
        omega

/-- The number of a cell leaves its column and what the rows of the screen leave of its row. -/
theorem number_mod (h row : Nat) (hcol : col < w) : (w * row + col) % (w * h) = w * (row % h) + col := by
  have hw : 0 < w := Nat.zero_lt_of_lt hcol
  rw [Nat.mod_mul, Nat.mul_add_mod, Nat.mod_eq_of_lt hcol, Nat.mul_add_div hw, Nat.div_eq_of_lt hcol, Nat.add_zero, Nat.add_comm]

/-- On a screen of `n` cells that goes round, a cell is used again when at least `n` cells have been passed. -/
theorem layout_apart (hw : 0 < w) (brk : α → Bool) (row col : Nat) (text : List α) (n : Nat) :
    (layout w brk row col text).Pairwise (fun p q => p.1 % n = q.1 % n → p.1 + n ≤ q.1) := by
  refine (layout_sorted hw brk row col text).imp (fun {p q} hlt hmod => ?_)
  have hdvd : n ∣ q.1 - p.1 := Nat.dvd_of_mod_eq_zero (Nat.sub_mod_eq_zero_of_mod_eq hmod.symm)
  have hle := Nat.le_of_dvd (by omega) hdvd
  omega

end Layout

end Screens
