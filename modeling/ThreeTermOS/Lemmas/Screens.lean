import ThreeTermOS.Library.Screen
import ThreeTermOS.Lemmas.Lib
import ThreeTermOS.Lemmas.Terminal

/-!
# The logical screens

The logical screen of a terminal is 4000 bytes of memory, the video memory or a buffer, with its cursor coordinates: `Shows` says
which character screen that is. `Acts` says that a step of the console acts on one terminal's screen as an operation of the
character screen does, and on nothing else. The drawing functions act so, for the displayed terminal with its two copies and for
one in the background.
-/

namespace ThreeTermOS

open Bytes Screens

/-- A character cell: the character and its attribute. -/
abbrev Cell : Type := UInt8 × UInt8

/-- A screen of the terminal. -/
abbrev TextScreen : Type := Screen 25 80 Cell

/-- The empty cell. -/
def blankCell : Cell := (0x20, attrib)

/-- The number of bytes of a screen. -/
def screenSize : Nat := 2 * (numRows * numCols)

/-- The cells of the screen at an address. -/
def cells (m : CPtr) (base : Nat) (r : Fin 25) (c : Fin 80) : Cell :=
  (m (base + 2 * (numCols * r.val + c.val)), m (base + 2 * (numCols * r.val + c.val) + 1))

/-- An address lies in the screen at a base. -/
def InArea (base a : Nat) : Prop := base ≤ a ∧ a < base + screenSize

/-- The logical screen of a terminal. -/
structure Shows (k : Console) (t : Term) (s : TextScreen) : Prop where
  cell : cells k.mem (k.screenBase t) = s.cell
  x : k.termX t = s.x.val
  y : k.termY t = s.y.val

/-- A step that turns the screen of terminal `t` into `s`: the other screens stay, and no byte changes outside the two places where
the screen of `t` is kept. -/
structure Acts (k k' : Console) (t : Term) (s : TextScreen) : Prop where
  terms : k.SameTerms k'
  own : Shows k' t s
  others : ∀ u, u ≠ t → ∀ s', Shows k u s' → Shows k' u s'
  frame : ∀ a, ¬InArea (k.screenBase t) a → ¬InArea (videoBuffer t) a → k'.mem a = k.mem a

/-- A step that leaves the screens alone. -/
structure SameScreens (k k' : Console) : Prop where
  terms : k.SameTerms k'
  mem : k'.mem = k.mem
  x : k'.termX = k.termX
  y : k'.termY = k.termY

/-- A memory in which the screen at a base is redrawn and nothing else. -/
structure Draws (m m' : CPtr) (base : Nat) (g : (Fin 25 → Fin 80 → Cell) → Fin 25 → Fin 80 → Cell) : Prop where
  own : cells m' base = g (cells m base)
  frame : ∀ a, ¬InArea base a → m' a = m a

/-- A memory in which the logical screen of a terminal is redrawn, with its copy in the buffer when it is displayed. -/
structure Redraws (k : Console) (m' : CPtr) (t : Term) (g : (Fin 25 → Fin 80 → Cell) → Fin 25 → Fin 80 → Cell) : Prop where
  own : cells m' (k.screenBase t) = g (cells k.mem (k.screenBase t))
  others : ∀ u, u ≠ t → cells m' (k.screenBase u) = cells k.mem (k.screenBase u)
  frame : ∀ a, ¬InArea (k.screenBase t) a → ¬InArea (videoBuffer t) a → m' a = k.mem a

/-- With the same terminal displayed a screen lies where it did. -/
theorem Console.SameTerms.screenBase {k k' : Console} (h : k.SameTerms k') (t : Term) : k'.screenBase t = k.screenBase t := by
  unfold Console.screenBase
  rw [h.disp]

/-- No change acts as none. -/
theorem Acts.refl {k : Console} {t : Term} {s : TextScreen} (h : Shows k t s) : Acts k k t s :=
  ⟨Console.SameTerms.refl k, h, fun _ _ _ h => h, fun _ _ _ => rfl⟩

/-- One action after another on one screen. -/
theorem Acts.trans {k k' k'' : Console} {t : Term} {s s' : TextScreen} (h : Acts k k' t s) (h' : Acts k' k'' t s') :
    Acts k k'' t s' := by
  refine ⟨h.terms.trans h'.terms, h'.own, fun u hu s hs => h'.others u hu s (h.others u hu s hs), ?_⟩
  intro a h1 h2
  rw [h'.frame a (by rw [h.terms.screenBase]; exact h1) h2, h.frame a h1 h2]

/-- The screens of a console are its own. -/
theorem SameScreens.refl (k : Console) : SameScreens k k := ⟨Console.SameTerms.refl k, rfl, rfl, rfl⟩

/-- Screens that stay show what they did. -/
theorem SameScreens.shows {k k' : Console} (h : SameScreens k k') {t : Term} {s : TextScreen} (hs : Shows k t s) : Shows k' t s := by
  obtain ⟨hcell, hx, hy⟩ := hs
  refine ⟨?_, ?_, ?_⟩
  · rw [h.mem, h.terms.screenBase, hcell]
  · rw [h.x, hx]
  · rw [h.y, hy]

/-- A change that leaves the screens acts as none. -/
theorem SameScreens.acts {k k' : Console} (h : SameScreens k k') {t : Term} {s : TextScreen} (hs : Shows k t s) : Acts k k' t s :=
  ⟨h.terms, h.shows hs, fun _ _ _ hs => h.shows hs, fun a _ _ => by rw [h.mem]⟩

/-- After an action, a step that leaves the screens alone. -/
theorem Acts.same {k k' k'' : Console} {t : Term} {s : TextScreen} (h : Acts k k' t s) (h' : SameScreens k' k'') : Acts k k'' t s :=
  h.trans (h'.acts h.own)

/-- The cells with the one under the cursor replaced. -/
def putCells (s : TextScreen) (a : Cell) (cs : Fin 25 → Fin 80 → Cell) : Fin 25 → Fin 80 → Cell :=
  fun r c => if r = s.y ∧ c = s.x then a else cs r c

/-- The cells with the rows moved up. -/
def scrollCells (cs : Fin 25 → Fin 80 → Cell) : Fin 25 → Fin 80 → Cell :=
  fun r c => if hr : r.val + 1 < 25 then cs ⟨r.val + 1, hr⟩ c else blankCell

namespace ScreensAux

variable {k k' : Console} {m m' : CPtr} {t : Term} {s : TextScreen} {g : (Fin 25 → Fin 80 → Cell) → Fin 25 → Fin 80 → Cell}

/-! ### Where the screens are -/

/-- A screen is 25 rows of 80 cells of two bytes. -/
theorem screenSize_eq : screenSize = 4000 := rfl

/-- The address of a cell. -/
theorem cell_lt (r : Fin 25) (c : Fin 80) : 2 * (numCols * r.val + c.val) + 1 < screenSize := by
  have hr := r.isLt
  have hc := c.isLt
  rw [screenSize_eq]
  unfold numCols
  omega

/-- A memory that agrees on the area has the same cells. -/
theorem cells_congr {base : Nat} (h : ∀ a, InArea base a → m' a = m a) : cells m' base = cells m base := by
  funext r c
  have hlt := cell_lt r c
  unfold cells
  rw [h _ ⟨by omega, by omega⟩, h _ ⟨by omega, by omega⟩]

/-- Memories with the same cells agree on the area. -/
theorem eq_of_cells {base : Nat} (h : cells m' base = cells m base) {a : Nat} (ha : InArea base a) : m' a = m a := by
  obtain ⟨hle, hlt⟩ := ha
  rw [screenSize_eq] at hlt
  have hcell : ∀ r c, cells m' base r c = cells m base r c := fun r c => congrFun (congrFun h r) c
  have hrow : (a - base) / 160 < 25 := by omega
  have hcol : (a - base) % 160 / 2 < 80 := by omega
  have hpair := hcell ⟨_, hrow⟩ ⟨_, hcol⟩
  unfold cells numCols at hpair
  dsimp only at hpair
  obtain ⟨hchar, hattr⟩ := Prod.mk.inj hpair
  rcases Nat.mod_two_eq_zero_or_one (a - base) with heven | hodd
  · have haddr : base + 2 * (80 * ((a - base) / 160) + (a - base) % 160 / 2) = a := by omega
    rw [haddr] at hchar
    exact hchar
  · have haddr : base + 2 * (80 * ((a - base) / 160) + (a - base) % 160 / 2) + 1 = a := by omega
    rw [haddr] at hattr
    exact hattr

/-- The areas of the video memory and the buffers do not meet. -/
theorem not_inArea_video {a : Nat} (h : InArea (videoBuffer t) a) : ¬InArea video a := by
  have hb := videoBuffer_eq t
  obtain ⟨h1, h2⟩ := h
  rw [screenSize_eq] at h2
  unfold InArea video
  rw [screenSize_eq]
  omega

/-- The buffers of two terminals are apart. -/
theorem not_inArea_buffer {u : Term} (hne : u ≠ t) {a : Nat} (h : InArea (videoBuffer u) a) : ¬InArea (videoBuffer t) a := by
  have hval : u.val ≠ t.val := fun he => hne (Fin.ext he)
  have hb := videoBuffer_eq t
  have hb' := videoBuffer_eq u
  obtain ⟨h1, h2⟩ := h
  rw [screenSize_eq] at h2
  unfold InArea
  rw [screenSize_eq]
  omega

/-- The displayed terminal's screen is video memory. -/
theorem screenBase_disp (k : Console) : k.screenBase k.dispTerm = video := if_pos rfl

/-- The others' are their buffers. -/
theorem screenBase_of_ne (h : t ≠ k.dispTerm) : k.screenBase t = videoBuffer t := if_neg h

/-! ### Drawing -/

/-- The displayed terminal redrawn: the video memory and the buffer, in this order. -/
theorem redraws_disp {m₁ m₂ : CPtr} (h₁ : Draws k.mem m₁ video g) (h₂ : Draws m₁ m₂ (videoBuffer k.dispTerm) g) :
    Redraws k m₂ k.dispTerm g := by
  refine ⟨?_, ?_, ?_⟩
  · rw [screenBase_disp, ← h₁.own]
    exact cells_congr (fun a ha => h₂.frame a (fun hb => not_inArea_video hb ha))
  · intro u hu
    rw [screenBase_of_ne hu]
    refine cells_congr (fun a ha => ?_)
    rw [h₂.frame a (not_inArea_buffer hu ha), h₁.frame a (not_inArea_video ha)]
  · intro a h1 h2
    rw [screenBase_disp] at h1
    rw [h₂.frame a h2, h₁.frame a h1]

/-- The same with the buffer first. -/
theorem redraws_disp' {m₁ m₂ : CPtr} (h₁ : Draws k.mem m₁ (videoBuffer k.dispTerm) g) (h₂ : Draws m₁ m₂ video g) :
    Redraws k m₂ k.dispTerm g := by
  refine ⟨?_, ?_, ?_⟩
  · rw [screenBase_disp, h₂.own]
    congr 1
    exact cells_congr (fun a ha => h₁.frame a (fun hb => not_inArea_video hb ha))
  · intro u hu
    rw [screenBase_of_ne hu]
    refine cells_congr (fun a ha => ?_)
    rw [h₂.frame a (not_inArea_video ha), h₁.frame a (not_inArea_buffer hu ha)]
  · intro a h1 h2
    rw [screenBase_disp] at h1
    rw [h₂.frame a h1, h₁.frame a h2]

/-- A terminal in the background redrawn. -/
theorem redraws_buffer (ht : t ≠ k.dispTerm) (h : Draws k.mem m' (videoBuffer t) g) : Redraws k m' t g := by
  refine ⟨?_, ?_, ?_⟩
  · rw [screenBase_of_ne ht]
    exact h.own
  · intro u hu
    refine cells_congr (fun a ha => h.frame a ?_)
    unfold Console.screenBase at ha
    split at ha
    · exact fun hb => not_inArea_video hb ha
    · exact not_inArea_buffer hu ha
  · exact fun a _ h2 => h.frame a h2

/-- Storing a cell. -/
theorem draws_putCell (m : CPtr) (base : Nat) (s : TextScreen) (c : UInt8) :
    Draws m (putCell m base s.x.val s.y.val c) base (putCells s (c, attrib)) := by
  have hlt := cell_lt s.y s.x
  refine ⟨?_, ?_⟩
  · funext i j
    have hi := i.isLt
    have hj := j.isLt
    have hx := s.x.isLt
    have hy := s.y.isLt
    unfold putCells
    by_cases hij : i = s.y ∧ j = s.x
    · obtain ⟨rfl, rfl⟩ := hij
      rw [if_pos ⟨rfl, rfl⟩]
      unfold cells putCell
      rw [set_other _ _ (by omega), set_self, set_self]
    · rw [if_neg hij]
      -- another cell has another address
      have haddr : numCols * i.val + j.val ≠ numCols * s.y.val + s.x.val := by
        intro he
        unfold numCols at he
        exact hij ⟨Fin.ext (by omega), Fin.ext (by omega)⟩
      unfold cells putCell
      rw [set_other _ _ (by omega), set_other _ _ (by omega), set_other _ _ (by omega), set_other _ _ (by omega)]
  · intro a ha
    unfold InArea at ha
    unfold putCell
    rw [set_other _ _ (by omega), set_other _ _ (by omega)]

/-- A scrolled screen: the rows below the first one moved up, and the last one blank. -/
theorem scrollDown_eq (m : CPtr) (base : Nat) : scrollDown m base =
    fill (blit m base (base + 160) 3840) (base + 3840) 160 (fun i => if i % 2 = 0 then 0x20 else attrib) := by
  unfold scrollDown
  dsimp only
  rw [LibAux.memsetWord_eq_fill, LibAux.memcpy_eq_blit _ _ _ _ (Or.inl (Nat.le_add_right _ _))]
  rfl

/-- Scrolling. -/
theorem draws_scrollDown (m : CPtr) (base : Nat) : Draws m (scrollDown m base) base scrollCells := by
  rw [scrollDown_eq]
  refine ⟨?_, ?_⟩
  · funext i j
    have hi := i.isLt
    have hj := j.isLt
    unfold scrollCells
    by_cases hlast : i.val + 1 < 25
    · rw [dif_pos hlast]
      unfold cells numCols
      rw [fill_of_not_mem _ _ (by omega), fill_of_not_mem _ _ (by omega), blit_of_mem _ (by omega) (by omega),
        blit_of_mem _ (by omega) (by omega)]
      dsimp only
      rw [show base + 160 + (base + 2 * (80 * i.val + j.val) - base) = base + 2 * (80 * (i.val + 1) + j.val) by omega,
        show base + 160 + (base + 2 * (80 * i.val + j.val) + 1 - base) = base + 2 * (80 * (i.val + 1) + j.val) + 1 by omega]
    · rw [dif_neg hlast]
      unfold cells numCols blankCell
      rw [fill_of_mem _ _ (by omega) (by omega), fill_of_mem _ _ (by omega) (by omega), if_pos (by omega), if_neg (by omega)]
  · intro a ha
    unfold InArea at ha
    rw [screenSize_eq] at ha
    rw [fill_of_not_mem _ _ (by omega), blit_of_not_mem _ (by omega)]

/-- Clearing. -/
theorem draws_clearCells (m : CPtr) (base : Nat) : Draws m (clearCells m base) base (fun _ _ _ => blankCell) := by
  refine ⟨?_, ?_⟩
  · funext i j
    have hlt := cell_lt i j
    unfold screenSize at hlt
    unfold cells clearCells blankCell
    rw [fill_of_mem _ _ (by omega) (by omega), fill_of_mem _ _ (by omega) (by omega), if_pos (by omega), if_neg (by omega)]
  · intro a ha
    unfold InArea screenSize at ha
    unfold clearCells
    rw [fill_of_not_mem _ _ ha]

/-! ### Moving on and scrolling -/

/-- The coordinates of a terminal set, and its screen scrolled when they are past the last row. -/
def settled (scroll : Console → Console) (k : Console) (t : Term) (xy : Nat × Nat) : Console :=
  let k := k.setCoords t xy
  if k.termY t ≥ numRows then { scroll k with termY := Function.update k.termY t (numRows - 1) } else k

/-- A function that scrolls the screen of a terminal. -/
def Scrolls (scroll : Console → Console) (k : Console) (t : Term) : Prop :=
  ∀ k', k.SameTerms k' → ∃ m', scroll k' = { k' with mem := m' } ∧ Redraws k' m' t scrollCells

/-- The displayed screen scrolls, in its buffer and in video memory. -/
theorem scrolls_disp (k : Console) : Scrolls terminalScrollDownDisp k k.dispTerm := by
  intro k' h
  refine ⟨_, rfl, ?_⟩
  rw [← h.disp]
  exact redraws_disp' (draws_scrollDown _ _) (draws_scrollDown _ _)

/-- The screen of a terminal not displayed scrolls in its buffer. -/
theorem scrolls_curr (h : k.currTerm ≠ k.dispTerm) : Scrolls terminalScrollDownCurr k k.currTerm := by
  intro k' hk
  refine ⟨_, rfl, ?_⟩
  rw [← hk.curr, ← hk.disp] at h
  rw [← hk.curr]
  exact redraws_buffer h (draws_scrollDown _ _)

/-- A redrawn memory shows the new cells, with the coordinates the terminal has. -/
theorem acts_of_redraws (h : Redraws k m' t g) {s' : TextScreen} (hs : Shows k t s) (ht : k.SameTerms k') (hm : k'.mem = m')
    (hcell : g s.cell = s'.cell) (hx : k'.termX t = s'.x.val) (hy : k'.termY t = s'.y.val)
    (hxs : ∀ u, u ≠ t → k'.termX u = k.termX u) (hys : ∀ u, u ≠ t → k'.termY u = k.termY u) : Acts k k' t s' := by
  refine ⟨ht, ⟨?_, hx, hy⟩, ?_, ?_⟩
  · rw [hm, ht.screenBase, h.own, hs.cell, hcell]
  · intro u hu s₀ hs₀
    obtain ⟨h1, h2, h3⟩ := hs₀
    refine ⟨?_, ?_, ?_⟩
    · rw [hm, ht.screenBase, h.others u hu, h1]
    · rw [hxs u hu, h2]
    · rw [hys u hu, h3]
  · intro a h1 h2
    rw [hm]
    exact h.frame a h1 h2

/-- The memory as it is redraws nothing. -/
theorem redraws_refl (k : Console) (t : Term) : Redraws k k.mem t id := ⟨rfl, fun _ _ => rfl, fun _ _ _ => rfl⟩

/-- Coordinates within the screen are where the cursor goes. -/
theorem settled_acts (hs : Shows k t s) (scroll : Console → Console) {x y : Nat} (x' : Fin 80) (y' : Fin 25) (hx : x = x'.val)
    (hy : y = y'.val) : Acts k (settled scroll k t (x, y)) t { s with x := x', y := y' } := by
  have hlt := y'.isLt
  have hin : ¬(k.setCoords t (x, y)).termY t ≥ numRows := by
    unfold Console.setCoords numRows
    dsimp only
    rw [Function.update_self]
    omega
  unfold settled
  dsimp only
  rw [if_neg hin]
  unfold Console.setCoords
  refine acts_of_redraws (redraws_refl k t) hs ⟨rfl, rfl⟩ rfl rfl ?_ ?_ ?_ ?_
  · dsimp only
    rw [Function.update_self, hx]
  · dsimp only
    rw [Function.update_self, hy]
  · exact fun u hu => Function.update_of_ne hu _ _
  · exact fun u hu => Function.update_of_ne hu _ _

/-- One row down is a line feed. -/
theorem settled_acts_lineFeed (hs : Shows k t s) {scroll : Console → Console} (hscroll : Scrolls scroll k t) {x : Nat} (x' : Fin 80)
    (hx : x = x'.val) : Acts k (settled scroll k t (x, k.termY t + 1)) t (Screen.lineFeed blankCell { s with x := x' }) := by
  have hylt := s.y.isLt
  have hy := hs.y
  unfold Screen.lineFeed
  by_cases hlast : s.y.val + 1 < 25
  · rw [dif_pos hlast]
    exact settled_acts hs scroll x' ⟨s.y.val + 1, hlast⟩ hx (by rw [hy])
  · rw [dif_neg hlast]
    have hout : (k.setCoords t (x, k.termY t + 1)).termY t ≥ numRows := by
      unfold Console.setCoords numRows
      dsimp only
      rw [Function.update_self]
      omega
    obtain ⟨m', he, hr⟩ := hscroll (k.setCoords t (x, k.termY t + 1)) ⟨rfl, rfl⟩
    unfold settled
    dsimp only
    rw [if_pos hout, he]
    unfold Console.setCoords at hr ⊢
    have hr' : Redraws k m' t scrollCells := ⟨hr.own, hr.others, hr.frame⟩
    refine acts_of_redraws hr' hs ⟨rfl, rfl⟩ rfl rfl ?_ ?_ ?_ ?_
    · dsimp only
      rw [Function.update_self, hx]
      rfl
    · dsimp only
      rw [Function.update_self]
      unfold numRows Screen.scroll
      dsimp only
      omega
    · exact fun u hu => Function.update_of_ne hu _ _
    · intro u hu
      dsimp only
      rw [Function.update_of_ne hu, Function.update_of_ne hu]

/-! ### Characters -/

/-- A character drawn at the cursor, which goes on to the next cell. -/
theorem put_acts (hs : Shows k t s) {a : Cell} (hr : Redraws k m' t (putCells s a)) {scroll : Console → Console}
    (hscroll : Scrolls scroll k t) :
    Acts k (settled scroll { k with mem := m' } t (updateCoordsForward (k.termX t) (k.termY t))) t (s.put blankCell a) := by
  have hput : Acts k { k with mem := m' } t (s.setCell a) := by
    refine acts_of_redraws hr hs ⟨rfl, rfl⟩ rfl rfl hs.x hs.y ?_ ?_
    · exact fun u _ => rfl
    · exact fun u _ => rfl
  have hscroll' : Scrolls scroll { k with mem := m' } t := fun k' h => hscroll k' ⟨h.curr, h.disp⟩
  have hxlt := (s.setCell a).x.isLt
  have hxeq : k.termX t = (s.setCell a).x.val := hs.x
  unfold updateCoordsForward Screen.put Screen.advance numCols
  refine hput.trans ?_
  rw [hxeq]
  by_cases hx : (s.setCell a).x.val + 1 < 80
  · rw [if_neg (by omega), dif_pos hx]
    exact settled_acts hput.own scroll ⟨(s.setCell a).x.val + 1, hx⟩ s.y rfl hs.y
  · rw [if_pos (by omega), dif_neg hx]
    refine settled_acts_lineFeed hput.own hscroll' (s.setCell a).col0 ?_
    unfold Screen.col0
    dsimp only
    omega

/-- The start of the next row. -/
theorem newline_acts (hs : Shows k t s) {scroll : Console → Console} (hscroll : Scrolls scroll k t) :
    Acts k (settled scroll k t (0, k.termY t + 1)) t (s.newline blankCell) :=
  settled_acts_lineFeed hs hscroll s.col0 rfl

/-- The reference for a printed character: both ends of line go to the next row. -/
def printChar (s : TextScreen) (c : UInt8) : TextScreen :=
  if c = 0x0A ∨ c = 0x0D then s.newline blankCell else s.put blankCell (c, attrib)

/-- Changes of the input lines, the flags and the hardware cursor. -/
theorem sameScreens_appendChar (k : Console) (t : Term) (c : UInt8) : SameScreens k (k.appendChar t c) := by
  unfold Console.appendChar
  exact ⟨⟨rfl, rfl⟩, rfl, rfl, rfl⟩

/-- The hardware cursor is on no screen. -/
theorem sameScreens_updateCursor (k : Console) : SameScreens k (terminalUpdateCursor k) := by
  unfold terminalUpdateCursor
  exact ⟨⟨rfl, rfl⟩, rfl, rfl, rfl⟩

/-- Nor are the lines typed. -/
theorem sameScreens_enterLine (k : Console) (t : Term) : SameScreens k (k.enterLine t) := by
  unfold Console.enterLine
  exact ⟨⟨rfl, rfl⟩, rfl, rfl, rfl⟩

/-- Nor is the reset of a line. -/
theorem sameScreens_resetBuffer (k : Console) : SameScreens k (terminalResetBuffer k) := by
  unfold terminalResetBuffer
  exact ⟨⟨rfl, rfl⟩, rfl, rfl, rfl⟩

/-- Nor are the flags. -/
theorem sameScreens_setFlags (k : Console) (read write : Bool) : SameScreens k (k.setFlags read write) := by
  unfold Console.setFlags
  exact ⟨⟨rfl, rfl⟩, rfl, rfl, rfl⟩

/-- `all_char` on the displayed terminal. -/
theorem allChar_one_acts (hs : Shows k k.dispTerm s) (c : UInt8) :
    Acts k (allChar k c 1) k.dispTerm (s.put blankCell (c, attrib)) := by
  have hr : Redraws k (putCell (putCell k.mem video (k.termX k.dispTerm) (k.termY k.dispTerm) c) (videoBuffer k.dispTerm)
      (k.termX k.dispTerm) (k.termY k.dispTerm) c) k.dispTerm (putCells s (c, attrib)) := by
    rw [hs.x, hs.y]
    exact redraws_disp (draws_putCell _ _ _ _) (draws_putCell _ _ _ _)
  have hput := put_acts hs hr (scrolls_disp k)
  exact (hput.same (sameScreens_updateCursor _)).same (sameScreens_appendChar _ k.dispTerm c)

/-- `all_char` on a terminal running in the background. -/
theorem allChar_two_acts (hne : k.currTerm ≠ k.dispTerm) (hs : Shows k k.currTerm s) (c : UInt8) :
    Acts k (allChar k c 2) k.currTerm (s.put blankCell (c, attrib)) := by
  have hr : Redraws k (putCell k.mem (videoBuffer k.currTerm) (k.termX k.currTerm) (k.termY k.currTerm) c) k.currTerm
      (putCells s (c, attrib)) := by
    rw [hs.x, hs.y]
    exact redraws_buffer hne (draws_putCell _ _ _ _)
  have hput := put_acts hs hr (scrolls_curr hne)
  exact hput.same (sameScreens_appendChar _ k.currTerm c)

/-- The end of `new_line_char` on the displayed terminal: the line is taken, and a read that waits is told. -/
def lineTaken (k : Console) (d : Term) : Console :=
  let k := terminalUpdateCursor { k with currIdx := Function.update k.currIdx d 0 }
  if k.readFlag d then { k with enterFlag := Function.update k.enterFlag d true } else k

/-- `new_line_char` on the displayed terminal: enter the line, move the cursor, scroll, take the line. -/
theorem newLineChar_one_eq (k : Console) : newLineChar k 1 =
    lineTaken (settled terminalScrollDownDisp (k.enterLine k.dispTerm) k.dispTerm (0, k.termY k.dispTerm + 1)) k.dispTerm := rfl

/-- Taking the line is seen on no screen. -/
theorem sameScreens_lineTaken (k : Console) (d : Term) : SameScreens k (lineTaken k d) := by
  unfold lineTaken terminalUpdateCursor
  dsimp only
  split
  · exact ⟨⟨rfl, rfl⟩, rfl, rfl, rfl⟩
  · exact ⟨⟨rfl, rfl⟩, rfl, rfl, rfl⟩

/-- `new_line_char` on the displayed terminal. -/
theorem newLineChar_one_acts (hs : Shows k k.dispTerm s) : Acts k (newLineChar k 1) k.dispTerm (s.newline blankCell) := by
  have henter := sameScreens_enterLine k k.dispTerm
  have hnext := newline_acts (henter.shows hs) (scrolls_disp (k.enterLine k.dispTerm))
  rw [newLineChar_one_eq]
  exact (henter.acts hs).trans (hnext.same (sameScreens_lineTaken _ _))

/-- `new_line_char` on a terminal running in the background. -/
theorem newLineChar_two_acts (hne : k.currTerm ≠ k.dispTerm) (hs : Shows k k.currTerm s) :
    Acts k (newLineChar k 2) k.currTerm (s.newline blankCell) := by
  have henter := sameScreens_enterLine k k.currTerm
  have hscroll : Scrolls terminalScrollDownCurr (k.enterLine k.currTerm) k.currTerm :=
    fun k' h => scrolls_curr hne k' ⟨h.curr, h.disp⟩
  have hnext := newline_acts (henter.shows hs) hscroll
  refine (henter.acts hs).trans (hnext.same ?_)
  unfold newLineChar
  exact ⟨⟨rfl, rfl⟩, rfl, rfl, rfl⟩

/-- `backspace_char`, in a read with a character to erase: the cursor goes back, from the first cell to the end of the first row. -/
theorem backspaceChar_acts (hs : Shows k k.dispTerm s) (hread : k.readFlag k.dispTerm = true) (hidx : k.currIdx k.dispTerm > 0) :
    Acts k (backspaceChar k) k.dispTerm (s.back.setCell blankCell) := by
  have hback : updateCoordsBack (k.termX k.dispTerm) (k.termY k.dispTerm) = (s.back.x.val, s.back.y.val) := by
    have hx := hs.x
    have hy := hs.y
    unfold updateCoordsBack Screen.back numCols
    rw [hx, hy]
    split
    · rw [Prod.mk.injEq]
      refine ⟨rfl, ?_⟩
      dsimp only
      split
      · rfl
      · omega
    · rfl
  have hmove : Acts k (k.setCoords k.dispTerm (s.back.x.val, s.back.y.val)) k.dispTerm s.back := by
    unfold Console.setCoords
    refine acts_of_redraws (redraws_refl k k.dispTerm) hs ⟨rfl, rfl⟩ rfl ?_ (Function.update_self _ _ _) (Function.update_self _ _ _) ?_ ?_
    · unfold Screen.back
      split
      · rfl
      · rfl
    · exact fun u hu => Function.update_of_ne hu _ _
    · exact fun u hu => Function.update_of_ne hu _ _
  unfold backspaceChar
  dsimp only
  rw [if_pos ⟨hread, hidx⟩, hback]
  refine hmove.trans ?_
  have hown := hmove.own
  generalize k.setCoords k.dispTerm (s.back.x.val, s.back.y.val) = k₁ at hmove hown ⊢
  have hdisp := hmove.terms.disp
  rw [← hdisp] at hown ⊢
  have hr : Redraws k₁ (putCell (putCell k₁.mem video (k₁.termX k₁.dispTerm) (k₁.termY k₁.dispTerm) 0x20) (videoBuffer k₁.dispTerm)
      (k₁.termX k₁.dispTerm) (k₁.termY k₁.dispTerm) 0x20) k₁.dispTerm (putCells s.back blankCell) := by
    rw [hown.x, hown.y]
    exact redraws_disp (draws_putCell _ _ _ _) (draws_putCell _ _ _ _)
  exact acts_of_redraws hr hown ⟨rfl, rfl⟩ rfl rfl hown.x hown.y (fun _ _ => rfl) (fun _ _ => rfl)

/-- `terminal_clear`. -/
theorem terminalClear_acts (hs : Shows k k.dispTerm s) : Acts k (terminalClear k) k.dispTerm (s.clear blankCell) := by
  have hr : Redraws k (clearCells (clearCells k.mem video) (videoBuffer k.dispTerm)) k.dispTerm (fun _ _ _ => blankCell) :=
    redraws_disp (draws_clearCells _ _) (draws_clearCells _ _)
  unfold terminalClear terminalResetBuffer terminalUpdateCursor
  refine acts_of_redraws hr hs ⟨rfl, rfl⟩ rfl rfl (Function.update_self _ _ _) (Function.update_self _ _ _) ?_ ?_
  · exact fun u hu => Function.update_of_ne hu _ _
  · exact fun u hu => Function.update_of_ne hu _ _

end ScreensAux

end ThreeTermOS
