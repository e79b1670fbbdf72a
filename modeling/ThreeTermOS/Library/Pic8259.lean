import Mathlib.Data.List.FinRange
import Mathlib.Logic.Basic

/-!
# Two cascaded 8259A interrupt controllers

Each controller latches the requests of its eight lines, masks them, and holds a line in service from the acknowledgement to the
command that ends it; line 0 comes first. The second one's output is a line of the first. A byte written at a port is an
initialization word, a mask or a command, by its value and by what was written before. The rotations of the priorities, the special
mask mode and the special fully nested mode are left out, and the second controller's output is taken as a level.
-/

namespace Pic8259

abbrev Byte : Type := BitVec 8

/-! ## Bits -/

def setBit (b : Byte) (i : Nat) : Byte := b ||| BitVec.twoPow 8 i

def clearBit (b : Byte) (i : Nat) : Byte := b &&& ~~~BitVec.twoPow 8 i

theorem getLsbD_setBit (b : Byte) {i j : Nat} (hj : j < 8) : (setBit b i).getLsbD j = (b.getLsbD j || decide (i = j)) := by
  unfold setBit
  rw [BitVec.getLsbD_or, BitVec.getLsbD_twoPow]
  by_cases hij : i = j
  · simp [hij, hj]
  · simp [hij]

theorem getLsbD_clearBit (b : Byte) {i j : Nat} (hj : j < 8) : (clearBit b i).getLsbD j = (b.getLsbD j && !decide (i = j)) := by
  unfold clearBit
  rw [BitVec.getLsbD_and, BitVec.getLsbD_not, BitVec.getLsbD_twoPow]
  by_cases hij : i = j
  · simp [hij, hj]
  · simp [hij, hj]

/-! ## One controller -/

/-- What the next byte at the upper port is: an initialization word, with whether the controller is alone and whether the fourth word
is to come, or a mask. -/
inductive Phase where
  | icw2 (single icw4 : Bool)
  | icw3 (icw4 : Bool)
  | icw4
  | ready
  deriving DecidableEq, Repr

/-- The requests, the mask, the lines in service, the vector of line 0, the cascade word, and whether a line's service ends with the
acknowledgement. -/
structure Chip where
  irr : Byte
  imr : Byte
  isr : Byte
  base : Byte
  cascade : Byte
  autoEoi : Bool
  phase : Phase

namespace Chip

/-- The first initialization word: the controller forgets its requests, its mask and what is in service. -/
def icw1 (c : Chip) (v : Byte) : Chip :=
  { c with irr := 0, imr := 0, isr := 0, autoEoi := false, phase := .icw2 (v.getLsbD 1) (v.getLsbD 0) }

/-- The line is in service and no line before it is. -/
def IsFirstInService (c : Chip) (n : Fin 8) : Bool := c.isr.getLsbD n && (List.finRange 8).all (fun m => !(m < n && c.isr.getLsbD m))

/-- The commands that end a line's service: of the line given, or of the first one. -/
def ocw2 (c : Chip) (v : Byte) : Chip :=
  if v.extractLsb' 5 3 = 3 then { c with isr := clearBit c.isr (v.extractLsb' 0 3).toNat }
  else if v.extractLsb' 5 3 = 1 then
    match (List.finRange 8).find? c.IsFirstInService with
    | some n => { c with isr := clearBit c.isr n }
    | none => c
  else c

/-- A byte at the lower port. -/
def command (c : Chip) (v : Byte) : Chip := if v.getLsbD 4 then c.icw1 v else if v.getLsbD 3 then c else c.ocw2 v

/-- A byte at the upper port. -/
def data (c : Chip) (v : Byte) : Chip :=
  match c.phase with
  | .icw2 single icw4 =>
    { c with base := v &&& 0xF8, phase := if single then (if icw4 then .icw4 else .ready) else .icw3 icw4 }
  | .icw3 icw4 => { c with cascade := v, phase := if icw4 then .icw4 else .ready }
  | .icw4 => { c with autoEoi := v.getLsbD 1, phase := .ready }
  | .ready => { c with imr := v }

/-- A device asks for a line. -/
def raise (c : Chip) (n : Nat) : Chip := { c with irr := setBit c.irr n }

/-- A line is asked for, open, and neither it nor a line before it is in service. -/
def Deliverable (c : Chip) (n : Fin 8) : Bool :=
  c.irr.getLsbD n && !c.imr.getLsbD n && (List.finRange 8).all (fun m => !(m ≤ n && c.isr.getLsbD m))

/-- The line the controller puts forward. -/
def request (c : Chip) : Option (Fin 8) := (List.finRange 8).find? c.Deliverable

/-- The processor takes the line. -/
def accept (c : Chip) (n : Fin 8) : Chip :=
  { c with irr := clearBit c.irr n, isr := if c.autoEoi then c.isr else setBit c.isr n }

end Chip

/-! ## The pair -/

/-- The two controllers; the second one's output is wired to line 2 of the first. -/
structure Pair where
  master : Chip
  slave : Chip

namespace Pair

/-- A byte written at a port. -/
def out (p : Pair) (v : Byte) (port : Nat) : Pair :=
  if port = 0x20 then { p with master := p.master.command v }
  else if port = 0x21 then { p with master := p.master.data v }
  else if port = 0xA0 then { p with slave := p.slave.command v }
  else if port = 0xA1 then { p with slave := p.slave.data v }
  else p

/-- A device asks for one of the sixteen lines. -/
def raise (p : Pair) (n : Nat) : Pair :=
  if n < 8 then { p with master := p.master.raise n } else { p with slave := p.slave.raise (n - 8) }

/-- The first controller with the second one's output on its line 2. -/
def wired (p : Pair) : Chip :=
  if p.slave.request.isSome then p.master.raise 2 else { p.master with irr := clearBit p.master.irr 2 }

/-- The processor acknowledges: the vector it gets, and the controllers after. The second controller answers for the line that the
cascade words say is its own. -/
def ack (p : Pair) : Option (Byte × Pair) :=
  match p.wired.request with
  | none => none
  | some n =>
    if p.master.cascade.getLsbD n && p.slave.cascade.extractLsb' 0 3 = BitVec.ofNat 3 n then
      match p.slave.request with
      | none => none
      | some m => some (p.slave.base + BitVec.ofNat 8 m, { master := p.master.accept n, slave := p.slave.accept m })
    else some (p.master.base + BitVec.ofNat 8 n, { p with master := p.master.accept n })

end Pair

/-! ### Rules -/

section Rules

variable {c k : Chip} {p : Pair} {n : Fin 8}

theorem deliverable_iff :
    c.Deliverable n = true ↔ c.irr.getLsbD n = true ∧ c.imr.getLsbD n = false ∧ ∀ m : Fin 8, m ≤ n → c.isr.getLsbD m = false := by
  unfold Chip.Deliverable
  simp only [Bool.and_eq_true, Bool.not_eq_true', List.all_eq_true, List.mem_finRange, true_implies, Bool.and_eq_false_iff,
    decide_eq_false_iff_not, not_le, and_assoc]
  refine and_congr_right fun _ => and_congr_right fun _ => forall_congr' fun m => ?_
  rw [or_iff_not_imp_left, not_lt]

/-- The line put forward can be delivered, and no line before it can. -/
theorem request_eq_some : c.request = some n ↔ c.Deliverable n = true ∧ ∀ m < n, c.Deliverable m = false := by
  unfold Chip.request
  rw [List.find?_eq_some_iff_getElem]
  constructor
  · rintro ⟨hn, i, hi, he, hbefore⟩
    refine ⟨hn, fun m hm => ?_⟩
    have hval : i = n.val := by
      rw [← he]
      simp
    have hmi : m.val < i := by
      rw [hval]
      exact hm
    have hnot := hbefore m.val hmi
    simpa using hnot
  · rintro ⟨hn, hbefore⟩
    refine ⟨hn, n.val, by simp, by simp, fun j hj => ?_⟩
    have hnot := hbefore ⟨j, Nat.lt_trans hj n.isLt⟩ hj
    simpa using hnot

theorem request_eq_none : c.request = none ↔ ∀ n, c.Deliverable n = false := by
  unfold Chip.request
  simp [List.find?_eq_none]

theorem request_isSome : c.request.isSome = true ↔ ∃ n, c.Deliverable n = true := by
  rw [← not_iff_not, Bool.not_eq_true, Option.isSome_eq_false_iff, Option.isNone_iff_eq_none, request_eq_none]
  simp

/-- An accepted line is in service. -/
theorem accept_isr (hk : k.autoEoi = false) (n : Fin 8) {i : Nat} (hi : i < 8) :
    (k.accept n).isr.getLsbD i = (k.isr.getLsbD i || decide (n.val = i)) := by
  unfold Chip.accept
  rw [hk, if_neg (by decide), getLsbD_setBit _ hi]

/-- A line of the first controller that is no cascade. -/
theorem wired_irr {i : Nat} (hi : i < 8) (hne : i ≠ 2) : p.wired.irr.getLsbD i = p.master.irr.getLsbD i := by
  unfold Pair.wired Chip.raise
  split
  · rw [getLsbD_setBit _ hi, decide_eq_false (Ne.symm hne), Bool.or_false]
  · rw [getLsbD_clearBit _ hi, decide_eq_false (Ne.symm hne), Bool.not_false, Bool.and_true]

/-- The cascade asks when the second controller does. -/
theorem wired_irr_two : p.wired.irr.getLsbD 2 = p.slave.request.isSome := by
  unfold Pair.wired Chip.raise
  split
  · rename_i hs
    rw [getLsbD_setBit _ (by decide), hs, decide_eq_true rfl, Bool.or_true]
  · rename_i hs
    rw [getLsbD_clearBit _ (by decide), decide_eq_true rfl, Bool.not_true, Bool.and_false]
    simpa using hs

theorem wired_masks : p.wired.imr = p.master.imr ∧ p.wired.isr = p.master.isr := by
  unfold Pair.wired Chip.raise
  split <;> exact ⟨rfl, rfl⟩

/-- A request changes no mask and nothing in service. -/
theorem raise_others (p : Pair) (n : Nat) :
    (p.raise n).master.imr = p.master.imr ∧ (p.raise n).master.isr = p.master.isr ∧ (p.raise n).slave.imr = p.slave.imr ∧
      (p.raise n).slave.isr = p.slave.isr := by
  unfold Pair.raise
  split <;> exact ⟨rfl, rfl, rfl, rfl⟩

end Rules

end Pic8259
