import Mathlib.Data.List.Infix
import ThreeTermOS.Lemmas.I8259

/-!
# No request is lost

The masks of the driver are those of the controllers, and open the lines that the last calls opened. Whatever the devices ask for,
however the handlers are interrupted and in whatever order they go on, the controllers give the processor vectors with handlers only,
each request is served once, and nothing is left in service or masked when the handlers have returned.
-/

namespace ThreeTermOS

open Pic8259 Runs

/-! ## Masks -/

/-- What happens to the driver and the controllers while interrupts are off. -/
inductive DriverEvent where
  | raise (irqNum : Fin 16)
  | call (c : PicCall)

def driverStep (d : I8259) : DriverEvent → I8259
  | .raise n => { d with pic := d.pic.raise n }
  | .call c => c.perform d

/-- The lines that are to be open, after one more event. -/
def setLines (lines : Nat → Bool) : DriverEvent → Nat → Bool
  | .call (.enableIrq n) => Function.update lines n true
  | .call (.disableIrq n) => Function.update lines n false
  | _ => lines

/-- The call is about the mask of the second controller. -/
def DriverEvent.namesSlave : DriverEvent → Bool
  | .call (.enableIrq n) | .call (.disableIrq n) => decide (8 ≤ n ∧ n ≤ 15)
  | _ => false

/-- The controllers are initialized with nothing in service, and the masks are those of the lines that are to be open; the second
controller has its mask when some call has been about it, and before that all its lines are open. -/
structure Masked (d : I8259) (lines : Nat → Bool) (slaveNamed : Bool) : Prop where
  initialized : Initialized d.pic
  idle : d.pic.master.isr = 0 ∧ d.pic.slave.isr = 0
  master : d.pic.master.imr = d.masterMask
  slave : d.pic.slave.imr = if slaveNamed then d.slaveMask else 0
  masterLines : ∀ n < 8, d.masterMask.getLsbD n = !lines n
  slaveLines : ∀ n < 8, d.slaveMask.getLsbD n = !lines (n + 8)

namespace InterruptControllerAux

open I8259Aux

variable {d : I8259} {p : Pair} {lines : Nat → Bool} {named : Bool} {n : Nat}

/-- A mask with no line closed has none to open. -/
theorem clearBit_zero (n : Nat) : clearBit 0 n = 0 := BitVec.zero_and

/-- Opening a line in the mask opens it among the lines. -/
theorem getLsbD_clearBit_lines {m : Byte} {f : Nat → Bool} (hm : ∀ i < 8, m.getLsbD i = !f i) (n : Nat) :
    ∀ i < 8, (clearBit m n).getLsbD i = !Function.update f n true i := by
  intro i hi
  rw [getLsbD_clearBit m hi, hm i hi]
  by_cases hin : n = i
  · subst hin
    simp
  · rw [Function.update_of_ne (Ne.symm hin), decide_eq_false hin, Bool.not_false, Bool.and_true]

/-- Closing a line in the mask closes it among the lines. -/
theorem getLsbD_setBit_lines {m : Byte} {f : Nat → Bool} (hm : ∀ i < 8, m.getLsbD i = !f i) (n : Nat) :
    ∀ i < 8, (setBit m n).getLsbD i = !Function.update f n false i := by
  intro i hi
  rw [getLsbD_setBit m hi, hm i hi]
  by_cases hin : n = i
  · subst hin
    simp
  · rw [Function.update_of_ne (Ne.symm hin), decide_eq_false hin, Bool.or_false]

/-- A call about a line of the first controller, which sets its mask to `m`. -/
theorem masked_master (h : Masked d lines named) {m : Byte} {v : Bool} (hn : n < 8)
    (hm : ∀ i < 8, m.getLsbD i = !Function.update lines n v i) :
    Masked (maskMaster d m) (Function.update lines n v) named := by
  obtain ⟨⟨h1, h2, h3, h4, h5, h6, h7, h8⟩, hidle, -, hslave, -, hlines⟩ := h
  refine ⟨⟨h1, h2, h3, h4, h5, h6, h7, h8⟩, hidle, rfl, hslave, hm, fun i hi => ?_⟩
  rw [Function.update_of_ne (by omega)]
  exact hlines i hi

/-- A call about a line of the second. -/
theorem masked_slave (h : Masked d lines named) {m : Byte} {v : Bool}
    (hm : ∀ i < 8, m.getLsbD i = !Function.update (fun i => lines (i + 8)) n v i) :
    Masked (maskSlave d m) (Function.update lines (n + 8) v) true := by
  obtain ⟨⟨h1, h2, h3, h4, h5, h6, h7, h8⟩, hidle, hmaster, -, hlines, -⟩ := h
  refine ⟨⟨h1, h2, h3, h4, h5, h6, h7, h8⟩, hidle, hmaster, rfl, fun i hi => ?_, fun i hi => ?_⟩
  · rw [Function.update_of_ne (by omega)]
    exact hlines i hi
  · rw [show (maskSlave d m).slaveMask = m from rfl, hm i hi]
    by_cases hin : i = n
    · rw [hin, Function.update_self, Function.update_self]
    · rw [Function.update_of_ne hin, Function.update_of_ne (by omega)]

/-- A call about no line at all. -/
theorem masked_other (h : Masked d lines named) (v : Bool) (hn : 16 ≤ n) : Masked d (Function.update lines n v) named := by
  refine ⟨h.initialized, h.idle, h.master, h.slave, fun i hi => ?_, fun i hi => ?_⟩
  · rw [Function.update_of_ne (by omega)]
    exact h.masterLines i hi
  · rw [Function.update_of_ne (by omega)]
    exact h.slaveLines i hi

/-- A request leaves the controllers initialized. -/
theorem initialized_raise (h : Initialized p) (n : Nat) : Initialized (p.raise n) := by
  obtain ⟨h1, h2, h3, h4, h5, h6, h7, h8⟩ := h
  unfold Pair.raise
  split <;> exact ⟨h1, h2, h3, h4, h5, h6, h7, h8⟩

/-- A request leaves the masks. -/
theorem masked_raise (h : Masked d lines named) (n : Nat) : Masked { d with pic := d.pic.raise n } lines named := by
  obtain ⟨hinit, hidle, hmaster, hslave, hlines, hslaveLines⟩ := h
  refine ⟨initialized_raise hinit n, ?_, ?_, ?_, hlines, hslaveLines⟩
  · unfold Pair.raise
    split <;> exact hidle
  · unfold Pair.raise
    split <;> exact hmaster
  · unfold Pair.raise
    split <;> exact hslave

/-- An end of interrupt leaves the masks. -/
theorem masked_eoi (h : Masked d lines named) (hn : n ≤ 15) : Masked (sendEoi d n) lines named := by
  obtain ⟨⟨h1, h2, h3, h4, h5, h6, h7, h8⟩, ⟨hm, hs⟩, hmaster, hslave, hlines, hslaveLines⟩ := h
  by_cases h8' : n < 8
  · rw [sendEoi_master h8']
    exact ⟨⟨h1, h2, h3, h4, h5, h6, h7, h8⟩, ⟨by rw [hm, clearBit_zero], hs⟩, hmaster, hslave, hlines, hslaveLines⟩
  · obtain ⟨i, rfl⟩ : ∃ i, n = i + 8 := ⟨n - 8, by omega⟩
    rw [sendEoi_slave (by omega)]
    exact ⟨⟨h1, h2, h3, h4, h5, h6, h7, h8⟩, ⟨by rw [hm, clearBit_zero], by rw [hs, clearBit_zero]⟩, hmaster, hslave, hlines,
      hslaveLines⟩

/-- One event. -/
theorem masked_step (h : Masked d lines named) (e : DriverEvent) (he : ∀ n, e = .call (.sendEoi n) → n ≤ 15) :
    Masked (driverStep d e) (setLines lines e) (named || e.namesSlave) := by
  cases e with
  | raise n =>
    rw [show DriverEvent.namesSlave (.raise n) = false from rfl, Bool.or_false]
    exact masked_raise h n
  | call c =>
    cases c with
    | sendEoi n =>
      rw [show DriverEvent.namesSlave (.call (.sendEoi n)) = false from rfl, Bool.or_false]
      exact masked_eoi h (he n rfl)
    | enableIrq n =>
      change Masked (enableIrq d n) (Function.update lines n true) (named || decide (8 ≤ n ∧ n ≤ 15))
      by_cases h8 : n < 8
      · rw [decide_eq_false (by omega), Bool.or_false, enableIrq_master h.initialized h8]
        exact masked_master h h8 (getLsbD_clearBit_lines h.masterLines n)
      · by_cases h16 : 16 ≤ n
        · rw [decide_eq_false (by omega), Bool.or_false, enableIrq_other h16]
          exact masked_other h true h16
        · obtain ⟨i, rfl⟩ : ∃ i, n = i + 8 := ⟨n - 8, by omega⟩
          rw [decide_eq_true (by omega), Bool.or_true, enableIrq_slave h.initialized (by omega)]
          exact masked_slave h (getLsbD_clearBit_lines (f := fun i => lines (i + 8)) h.slaveLines i)
    | disableIrq n =>
      change Masked (disableIrq d n) (Function.update lines n false) (named || decide (8 ≤ n ∧ n ≤ 15))
      by_cases h8 : n < 8
      · rw [decide_eq_false (by omega), Bool.or_false, disableIrq_master h.initialized h8]
        exact masked_master h h8 (getLsbD_setBit_lines h.masterLines n)
      · by_cases h16 : 16 ≤ n
        · rw [decide_eq_false (by omega), Bool.or_false, disableIrq_other h16]
          exact masked_other h false h16
        · obtain ⟨i, rfl⟩ : ∃ i, n = i + 8 := ⟨n - 8, by omega⟩
          rw [decide_eq_true (by omega), Bool.or_true, disableIrq_slave h.initialized (by omega)]
          exact masked_slave h (getLsbD_setBit_lines (f := fun i => lines (i + 8)) h.slaveLines i)

/-- Any sequence of calls and requests keeps the masks where the calls put them. -/
theorem masked_foldl (es : List DriverEvent) (h : Masked d lines named) (hs : ∀ n, DriverEvent.call (.sendEoi n) ∈ es → n ≤ 15) :
    Masked (es.foldl driverStep d) (es.foldl setLines lines) (named || es.any DriverEvent.namesSlave) := by
  induction es generalizing d lines named with
  | nil =>
    rw [List.any_nil, Bool.or_false]
    exact h
  | cons e es ih =>
    have hstep := masked_step h e (fun n he => hs n (by rw [he]; exact List.mem_cons_self))
    rw [List.any_cons, ← Bool.or_assoc]
    exact ih hstep (fun n he => hs n (List.mem_cons_of_mem _ he))

/-- `i8259_init` opens on the master the line of the slave alone. -/
theorem masked_init (d : I8259) : Masked (i8259Init d) (fun n => decide (n = 2)) false := by
  rw [i8259Init_eq]
  exact ⟨⟨rfl, rfl, rfl, rfl, rfl, rfl, rfl, rfl⟩, ⟨rfl, rfl⟩, rfl, rfl, by decide, by decide⟩

end InterruptControllerAux

open InterruptControllerAux

/-- After `i8259_init` on controllers in any state, and any calls of the driver with any line numbers, with requests in between: the
initialization stands, nothing is in service, `master_mask` and `slave_mask` say which lines the last calls about them opened, with
line 2 open from the start, and the controllers have these masks; but the second one has none before the first call about it. A
`send_eoi` of a line above 15 would be another command. -/
theorem masks_follow_calls (d : I8259) (es : List DriverEvent) (hs : ∀ n, DriverEvent.call (.sendEoi n) ∈ es → n ≤ 15) :
    Masked (es.foldl driverStep (i8259Init d)) (es.foldl setLines (fun n => decide (n = 2))) (es.any DriverEvent.namesSlave) := by
  have hrun := masked_foldl es (masked_init d) hs
  rw [Bool.false_or] at hrun
  exact hrun

/-- Controllers that have had no initialization words. -/
def powerOn : I8259 :=
  let chip : Chip := { irr := 0x10, imr := 0, isr := 0x80, base := 0, cascade := 0, autoEoi := true, phase := .icw3 false }
  { masterMask := 0, slaveMask := 0, pic := { master := chip, slave := chip } }

/-- A clock request, and what its handler calls. -/
def clockCalls : List DriverEvent := [.raise 8, .call (.disableIrq 8), .call (.sendEoi 8), .call (.enableIrq 8)]

/-- The calls that open the clock's line. -/
theorem masks_follow_calls_clock :
    Masked (clockCalls.foldl driverStep (i8259Init powerOn)) (clockCalls.foldl setLines (fun n => decide (n = 2))) true :=
  masks_follow_calls powerOn clockCalls (fun n hn => by simp [clockCalls] at hn; omega)

/-! ## Requests -/

/-- The call an event is. -/
def DriverEvent.picCall : DriverEvent → Option PicCall
  | .call c => some c
  | .raise _ => none

/-- A device has asked for the interrupt, and the processor has not taken it. -/
def intrPending (p : Pair) : Intr → Bool
  | .pit => p.master.irr.getLsbD 0
  | .kb => p.master.irr.getLsbD 1
  | .rtc => p.slave.irr.getLsbD 0

/-- The requests for an interrupt that is not pending already. -/
def requests (h : Intr) (s : PicMachine) : PicEvent → List Unit
  | .raise n => if n.val = h.irqNum ∧ intrPending s.driver.pic h = false then [()] else []
  | _ => []

/-- The runs of a handler begun. -/
def begun (h : Intr) (s : PicMachine) : PicEvent → List Unit
  | .interrupt => if s.driver.pic.ack.bind (fun a => intrOfVector a.1) = some h then [()] else []
  | _ => []

/-- Nothing is in service, and the lines of the three interrupts are open. -/
structure AtRest (d : I8259) : Prop where
  masterMask : d.masterMask = 0xF8
  masterImr : d.pic.master.imr = 0xF8
  slaveMask : d.slaveMask = 0xFE
  slaveImr : d.pic.slave.imr = 0xFE
  masterIsr : d.pic.master.isr = 0
  slaveIsr : d.pic.slave.isr = 0

/-- An interrupt goes before those of a higher number that are not ended, and before those that are pending. -/
def InOrder (s : PicMachine) (e : PicEvent) : Prop :=
  ∀ h, begun h s e ≠ [] → intrPending s.driver.pic h = true ∧
    (∀ a ∈ s.active, PicCall.sendEoi a.1.irqNum ∈ a.2 → h.irqNum < a.1.irqNum) ∧ ∀ h', h'.irqNum < h.irqNum → intrPending s.driver.pic h' = false

/-- What holds along every run: the masks and what is in service are what the handlers under way still have to undo. -/
structure PicInv (s : PicMachine) : Prop where
  initialized : Initialized s.driver.pic
  masterMask : s.driver.masterMask = 0xF8 ∧ s.driver.pic.master.imr = 0xF8
  slaveMask : s.driver.slaveMask =
    if I8259Aux.owed s.active (.disableIrq 8) < I8259Aux.owed s.active (.enableIrq 8) then 0xFF else 0xFE
  slaveImr : s.driver.pic.slave.imr = s.driver.slaveMask
  service : s.driver.pic.master.isr.getLsbD 0 = decide (I8259Aux.owed s.active (.sendEoi 0) = 1) ∧
    s.driver.pic.master.isr.getLsbD 1 = decide (I8259Aux.owed s.active (.sendEoi 1) = 1) ∧
    s.driver.pic.master.isr.getLsbD 2 = decide (I8259Aux.owed s.active (.sendEoi 8) = 1) ∧
    s.driver.pic.slave.isr.getLsbD 0 = decide (I8259Aux.owed s.active (.sendEoi 8) = 1)
  rest : ∀ i : Fin 8, (2 < i → s.driver.pic.master.isr.getLsbD i = false) ∧ (0 < i → s.driver.pic.slave.isr.getLsbD i = false)
  once : I8259Aux.owed s.active (.sendEoi 0) ≤ 1 ∧ I8259Aux.owed s.active (.sendEoi 1) ≤ 1 ∧ I8259Aux.owed s.active (.enableIrq 8) ≤ 1
  calls : ∀ a ∈ s.active, a.2 <:+ a.1.picCalls

namespace InterruptControllerAux

open I8259Aux

variable {s s' : PicMachine} {h : Intr} {c x : PicCall} {cs : List PicCall} {l : List (Intr × List PicCall)}

/-! ### What the handlers owe -/

/-- In what a handler has still to call, the clock's line is closed no more often than it is ended and opened again. -/
theorem count_suffix (hc : cs <:+ h.picCalls) :
    cs.count (.disableIrq 8) ≤ cs.count (.sendEoi 8) ∧ cs.count (.sendEoi 8) ≤ cs.count (.enableIrq 8) := by
  have hall : ∀ cs ∈ h.picCalls.tails,
      cs.count (.disableIrq 8) ≤ cs.count (.sendEoi 8) ∧ cs.count (.sendEoi 8) ≤ cs.count (.enableIrq 8) := by
    cases h <;> decide
  exact hall cs ((List.mem_tails cs h.picCalls).mpr hc)

/-- The clock's handler masks its line, then ends the service, and opens the line last. -/
theorem owed_order (hl : ∀ a ∈ l, a.2 <:+ a.1.picCalls) :
    owed l (.disableIrq 8) ≤ owed l (.sendEoi 8) ∧ owed l (.sendEoi 8) ≤ owed l (.enableIrq 8) := by
  induction l with
  | nil => exact ⟨Nat.le_refl 0, Nat.le_refl 0⟩
  | cons a l ih =>
    obtain ⟨h1, h2⟩ := count_suffix (hl a List.mem_cons_self)
    obtain ⟨h3, h4⟩ := ih (fun b hb => hl b (List.mem_cons_of_mem _ hb))
    simp only [owed_cons]
    omega

/-- What a handler may be about to call. -/
theorem suffix_cases (hc : c :: cs <:+ h.picCalls) :
    (h = .pit ∧ c = .sendEoi 0 ∧ cs = []) ∨ (h = .kb ∧ c = .sendEoi 1 ∧ cs = []) ∨
      (h = .rtc ∧ (c = .disableIrq 8 ∧ cs = [.sendEoi 8, .enableIrq 8] ∨ c = .sendEoi 8 ∧ cs = [.enableIrq 8] ∨
        c = .enableIrq 8 ∧ cs = [])) := by
  have hmem := (List.mem_tails (c :: cs) h.picCalls).mpr hc
  cases h <;> simpa [Intr.picCalls, Intr.irqNum] using hmem

/-! ### What the processor is given -/

/-- Nothing in service or masked stands before the interrupt. -/
def Free (p : Pair) : Intr → Prop
  | .pit => p.master.isr.getLsbD 0 = false
  | .kb => p.master.isr.getLsbD 0 = false ∧ p.master.isr.getLsbD 1 = false
  | .rtc => (p.master.isr.getLsbD 0 = false ∧ p.master.isr.getLsbD 1 = false ∧ p.master.isr.getLsbD 2 = false) ∧
    p.slave.isr.getLsbD 0 = false ∧ p.slave.imr.getLsbD 0 = false

/-- The controllers with the interrupt accepted. -/
def accepted (p : Pair) : Intr → Pair
  | .pit => { p with master := p.master.accept 0 }
  | .kb => { p with master := p.master.accept 1 }
  | .rtc => { master := p.master.accept 2, slave := p.slave.accept 0 }

/-- The open line of an interrupt at the first controller. -/
def masterLine : Intr → Fin 8
  | .pit => 0
  | .kb => 1
  | .rtc => 2

section Ack

variable {p : Pair}

/-- The second controller has the clock's line to put forward, or none. -/
theorem slave_deliverable (hs : p.slave.imr = 0xFE ∨ p.slave.imr = 0xFF) (m : Fin 8) :
    p.slave.Deliverable m = true ↔
      m = 0 ∧ p.slave.irr.getLsbD 0 = true ∧ p.slave.imr.getLsbD 0 = false ∧ p.slave.isr.getLsbD 0 = false := by
  have hopen : ∀ m : Fin 8, (0xFE#8).getLsbD m = false → m = 0 := by decide
  have hclosed : ∀ m : Fin 8, (0xFF#8).getLsbD m = true := by decide
  rw [deliverable_iff]
  constructor
  · rintro ⟨hirr, himr, hisr⟩
    have hm : m = 0 := by
      rcases hs with hs | hs
      · exact hopen m (by rwa [hs] at himr)
      · rw [hs, show (0xFF : Byte).getLsbD m = true from hclosed m] at himr
        cases himr
    subst hm
    exact ⟨rfl, hirr, himr, hisr 0 (Fin.zero_le 0)⟩
  · rintro ⟨rfl, hirr, himr, hisr⟩
    refine ⟨hirr, himr, fun m hm => ?_⟩
    obtain rfl : m = 0 := Fin.le_zero_iff.mp hm
    exact hisr

/-- With only the clock's line ever open, the slave asks for it or for nothing. -/
theorem slave_request (hs : p.slave.imr = 0xFE ∨ p.slave.imr = 0xFF) :
    (p.slave.request.isSome = true ↔
      p.slave.irr.getLsbD 0 = true ∧ p.slave.imr.getLsbD 0 = false ∧ p.slave.isr.getLsbD 0 = false) ∧
      ∀ m, p.slave.request = some m → m = 0 := by
  refine ⟨?_, fun m hm => ((slave_deliverable hs m).mp (request_eq_some.mp hm).1).1⟩
  rw [request_isSome]
  constructor
  · rintro ⟨m, hm⟩
    exact ((slave_deliverable hs m).mp hm).2
  · exact fun h => ⟨0, (slave_deliverable hs 0).mpr ⟨rfl, h⟩⟩

/-- What the first controller can put forward are the interrupts that are pending with nothing before them. -/
theorem wired_deliverable (hm : p.master.imr = 0xF8) (hs : p.slave.imr = 0xFE ∨ p.slave.imr = 0xFF) (n : Fin 8) :
    p.wired.Deliverable n = true ↔ ∃ h, n = masterLine h ∧ intrPending p h = true ∧ Free p h := by
  have hopen : ∀ n : Fin 8, (0xF8#8).getLsbD n = false → n = 0 ∨ n = 1 ∨ n = 2 := by decide
  have hclosed : ∀ h, (0xF8#8).getLsbD (masterLine h) = false := fun h => by cases h <;> decide
  have hbelow : ∀ m n : Fin 8, m ≤ n → (n = 1 → m = 0 ∨ m = 1) ∧ (n = 2 → m = 0 ∨ m = 1 ∨ m = 2) := by decide
  obtain ⟨himr, hisr⟩ := wired_masks (p := p)
  rw [deliverable_iff, himr, hisr, hm]
  constructor
  · rintro ⟨hirr, hmask, hservice⟩
    rcases hopen n hmask with rfl | rfl | rfl
    · rw [wired_irr (by decide) (by decide)] at hirr
      exact ⟨.pit, rfl, hirr, hservice 0 (by decide)⟩
    · rw [wired_irr (by decide) (by decide)] at hirr
      exact ⟨.kb, rfl, hirr, hservice 0 (by decide), hservice 1 (by decide)⟩
    · have hslave := (slave_request hs).1.mp (wired_irr_two.symm.trans hirr)
      exact ⟨.rtc, rfl, hslave.1, ⟨hservice 0 (by decide), hservice 1 (by decide), hservice 2 (by decide)⟩, hslave.2.2, hslave.2.1⟩
  · rintro ⟨h, rfl, hpend, hfree⟩
    refine ⟨?_, hclosed h, fun m hle => ?_⟩
    · cases h with
      | pit => exact (wired_irr (i := 0) (by decide) (by decide)).trans hpend
      | kb => exact (wired_irr (i := 1) (by decide) (by decide)).trans hpend
      | rtc => exact wired_irr_two.trans ((slave_request hs).1.mpr ⟨hpend, hfree.2.2, hfree.2.1⟩)
    · cases h with
      | pit =>
        obtain rfl : m = 0 := Fin.le_zero_iff.mp hle
        exact hfree
      | kb =>
        rcases (hbelow m 1 hle).1 rfl with rfl | rfl
        · exact hfree.1
        · exact hfree.2
      | rtc =>
        rcases (hbelow m 2 hle).2 rfl with rfl | rfl | rfl
        · exact hfree.1.1
        · exact hfree.1.2.1
        · exact hfree.1.2.2

/-- What the processor gets: nothing, when nothing is pending with nothing before it; or the vector of the first such interrupt. -/
theorem ack_cases (hi : Initialized p) (hm : p.master.imr = 0xF8) (hs : p.slave.imr = 0xFE ∨ p.slave.imr = 0xFF) :
    (p.ack = none ∧ ∀ h, ¬(intrPending p h = true ∧ Free p h)) ∨
      ∃ h, p.ack = some (BitVec.ofNat 8 h.idtEntry, accepted p h) ∧ intrPending p h = true ∧ Free p h ∧
        ∀ h', h'.irqNum < h.irqNum → ¬(intrPending p h' = true ∧ Free p h') := by
  have horder : ∀ h h' : Intr, h'.irqNum < h.irqNum → masterLine h' < masterLine h := by
    intro h h'
    cases h <;> cases h' <;> decide
  cases hreq : p.wired.request with
  | none =>
    left
    refine ⟨by rw [Pair.ack, hreq], fun h hh => ?_⟩
    have hnot := request_eq_none.mp hreq (masterLine h)
    rw [(wired_deliverable hm hs _).mpr ⟨h, rfl, hh⟩] at hnot
    cases hnot
  | some n =>
    right
    obtain ⟨hdel, hbefore⟩ := request_eq_some.mp hreq
    obtain ⟨h, rfl, hpend, hfree⟩ := (wired_deliverable hm hs n).mp hdel
    refine ⟨h, ?_, hpend, hfree, fun h' hlt hh => ?_⟩
    · unfold Pair.ack
      rw [hreq]
      dsimp only
      rw [hi.masterCascade, hi.slaveCascade, hi.masterBase, hi.slaveBase]
      cases h with
      | pit => rfl
      | kb => rfl
      | rtc =>
        have hsome := (slave_request hs).1.mpr ⟨hpend, hfree.2.2, hfree.2.1⟩
        obtain ⟨m, hreqs⟩ := Option.isSome_iff_exists.mp hsome
        obtain rfl := (slave_request hs).2 m hreqs
        rw [hreqs]
        rfl
    · have hnot := hbefore (masterLine h') (horder h h' hlt)
      rw [(wired_deliverable hm hs _).mpr ⟨h', rfl, hh⟩] at hnot
      cases hnot

end Ack

/-! ### The invariant -/

/-- A request keeps the invariant. -/
theorem picInv_raise (hI : PicInv s) (n : Nat) : PicInv { s with driver := { s.driver with pic := s.driver.pic.raise n } } := by
  obtain ⟨hinit, hmaster, hslave, himr, hservice, hrest, honce, hcalls⟩ := hI
  obtain ⟨h1, h2, h3, h4⟩ := raise_others s.driver.pic n
  refine ⟨initialized_raise hinit n, ?_, hslave, ?_, ?_, ?_, honce, hcalls⟩
  · dsimp only
    rw [h1]
    exact hmaster
  · dsimp only
    rw [h3]
    exact himr
  · dsimp only
    rw [h2, h4]
    exact hservice
  · dsimp only
    rw [h2, h4]
    exact hrest

/-- The slave's mask is open for the clock or closed. -/
theorem slaveImr_cases (hI : PicInv s) : s.driver.pic.slave.imr = 0xFE ∨ s.driver.pic.slave.imr = 0xFF := by
  rw [hI.slaveImr, hI.slaveMask]
  split
  · exact Or.inr rfl
  · exact Or.inl rfl

/-- An interrupt with nothing before it is not one whose handler has its service still to end, or its line still to open. -/
theorem owed_of_free (hI : PicInv s) (hfree : Free s.driver.pic h) :
    (h = .pit → owed s.active (.sendEoi 0) = 0) ∧ (h = .kb → owed s.active (.sendEoi 0) = 0 ∧ owed s.active (.sendEoi 1) = 0) ∧
      (h = .rtc → owed s.active (.sendEoi 0) = 0 ∧ owed s.active (.sendEoi 1) = 0 ∧ owed s.active (.sendEoi 8) = 0 ∧
        owed s.active (.enableIrq 8) = 0) := by
  obtain ⟨h0, h1, h2, -⟩ := hI.service
  obtain ⟨ho0, ho1, hoe⟩ := hI.once
  obtain ⟨hord, hord'⟩ := owed_order hI.calls
  have hno : ∀ {b : Bool} {x : Nat}, b = decide (x = 1) → x ≤ 1 → b = false → x = 0 := by
    intro b x hb hx hf
    rw [hf] at hb
    have hne : ¬x = 1 := of_decide_eq_false hb.symm
    omega
  refine ⟨?_, ?_, ?_⟩
  · rintro rfl
    exact hno h0 ho0 hfree
  · rintro rfl
    exact ⟨hno h0 ho0 hfree.1, hno h1 ho1 hfree.2⟩
  · rintro rfl
    obtain ⟨⟨hf0, hf1, hf2⟩, -, hopen⟩ := hfree
    have heoi := hno h2 (Nat.le_trans hord' hoe) hf2
    refine ⟨hno h0 ho0 hf0, hno h1 ho1 hf1, heoi, ?_⟩
    -- an open line with nothing in service: the handler that masked it has opened it again
    rw [hI.slaveImr, hI.slaveMask] at hopen
    split at hopen
    · exact absurd hopen (by decide)
    · omega

/-- An interrupt taken leaves the controllers initialized. -/
theorem initialized_accepted {p : Pair} (hp : Initialized p) (h : Intr) : Initialized (accepted p h) := by
  obtain ⟨h1, h2, h3, h4, h5, h6, h7, h8⟩ := hp
  cases h <;> exact ⟨h1, h2, h3, h4, h5, h6, h7, h8⟩

/-- The controllers with an interrupt accepted have its line in service, and the same masks. -/
theorem accepted_bits {p : Pair} (hp : Initialized p) (h : Intr) :
    (accepted p h).master.imr = p.master.imr ∧ (accepted p h).slave.imr = p.slave.imr ∧ ∀ i < 8,
      (accepted p h).master.isr.getLsbD i = (p.master.isr.getLsbD i || decide ((masterLine h).val = i)) ∧
      (accepted p h).slave.isr.getLsbD i = (p.slave.isr.getLsbD i || decide (h = .rtc ∧ 0 = i)) := by
  have hm := hp.masterEoi
  have hs := hp.slaveEoi
  cases h with
  | pit | kb =>
    refine ⟨rfl, rfl, fun i hi => ⟨accept_isr hm _ hi, ?_⟩⟩
    rw [decide_eq_false (fun he => by cases he.1), Bool.or_false]
    rfl
  | rtc =>
    refine ⟨rfl, rfl, fun i hi => ⟨accept_isr hm _ hi, ?_⟩⟩
    simp only [true_and]
    exact accept_isr hs 0 hi

/-- What a handler that begins adds to what is owed. -/
theorem owed_begun (h : Intr) (l : List (Intr × List PicCall)) :
    owed ((h, h.picCalls) :: l) (.sendEoi 0) = (if h = .pit then 1 else 0) + owed l (.sendEoi 0) ∧
      owed ((h, h.picCalls) :: l) (.sendEoi 1) = (if h = .kb then 1 else 0) + owed l (.sendEoi 1) ∧
      owed ((h, h.picCalls) :: l) (.sendEoi 8) = (if h = .rtc then 1 else 0) + owed l (.sendEoi 8) ∧
      owed ((h, h.picCalls) :: l) (.disableIrq 8) = (if h = .rtc then 1 else 0) + owed l (.disableIrq 8) ∧
      owed ((h, h.picCalls) :: l) (.enableIrq 8) = (if h = .rtc then 1 else 0) + owed l (.enableIrq 8) := by
  cases h <;> exact ⟨rfl, rfl, rfl, rfl, rfl⟩

/-- A handler begun. -/
theorem picInv_begun (hI : PicInv s) (hfree : Free s.driver.pic h) :
    PicInv { driver := { s.driver with pic := accepted s.driver.pic h }, active := (h, h.picCalls) :: s.active } := by
  obtain ⟨hpit, hkb, hrtc⟩ := owed_of_free hI hfree
  obtain ⟨e0, e1, e8, ed, ee⟩ := owed_begun h s.active
  obtain ⟨a1, a2, abits⟩ := accepted_bits hI.initialized h
  have hinit := initialized_accepted hI.initialized h
  obtain ⟨-, ⟨hmask, hmaster⟩, hslave, himr, ⟨s0, s1, s2, s3⟩, hrest, ⟨o0, o1, oe⟩, hcalls⟩ := hI
  refine ⟨hinit, ⟨hmask, a1.trans hmaster⟩, ?_, a2.trans himr, ?_, fun i => ?_, ?_, ?_⟩
  · rw [ed, ee]
    simp only [Nat.add_lt_add_iff_left]
    exact hslave
  · dsimp only
    rw [(abits 0 (by decide)).1, (abits 1 (by decide)).1, (abits 2 (by decide)).1, (abits 0 (by decide)).2, s0, s1, s2, s3, e0, e1, e8]
    cases h with
    | pit => simp [masterLine, hpit rfl]
    | kb => simp [masterLine, hkb rfl]
    | rtc => simp [masterLine, hrtc rfl]
  · dsimp only
    obtain ⟨hrm, hrs⟩ := hrest i
    rw [(abits i i.isLt).1, (abits i i.isLt).2]
    refine ⟨fun hi => ?_, fun hi => ?_⟩
    · have hle : (masterLine h).val ≤ 2 := by cases h <;> decide
      have hlt : 2 < i.val := hi
      rw [hrm hi, decide_eq_false (by omega), Bool.or_false]
    · have hlt : 0 < i.val := hi
      rw [hrs hi, decide_eq_false (by omega), Bool.or_false]
  · rw [e0, e1, ee]
    cases h with
    | pit => simp [hpit rfl, o1, oe]
    | kb => simp [hkb rfl, oe]
    | rtc => simp [hrtc rfl]
  · intro a ha
    rcases List.mem_cons.mp ha with rfl | ha
    · exact List.suffix_rfl
    · exact hcalls a ha

/-- The handlers owe one call less. -/
structure OwesLess (l l' : List (Intr × List PicCall)) (c : PicCall) : Prop where
  one : owed l' c + 1 = owed l c
  same : ∀ x, c ≠ x → owed l' x = owed l x
  calls : ∀ a ∈ l', a.2 <:+ a.1.picCalls

/-- A call made is one that its handler owes no longer. -/
theorem owesLess_set (hI : PicInv s) {i : Nat} (hi : s.active[i]? = some (h, c :: cs)) :
    OwesLess s.active (s.active.set i (h, cs)) c := by
  refine ⟨?_, fun x hx => ?_, suffix_set hI.calls hi⟩
  · have hset := owed_set hi (x := c)
    rwa [if_pos rfl] at hset
  · have hset := owed_set hi (x := x)
    rwa [if_neg hx, Nat.add_zero] at hset

/-- The timer's or the keyboard's handler ends the service of its line. -/
theorem picInv_eoi (hI : PicInv s) {n : Nat} (hn : n = 0 ∨ n = 1) (hl : OwesLess s.active l (.sendEoi n)) :
    PicInv { driver := PicCall.perform s.driver (.sendEoi n), active := l } := by
  obtain ⟨⟨h1, h2, h3, h4, h5, h6, h7, h8⟩, ⟨hmask, hmaster⟩, hslave, himr, ⟨s0, s1, s2, s3⟩, hrest, ⟨o0, o1, oe⟩, -⟩ := hI
  obtain ⟨hone, hsame, hcalls⟩ := hl
  have ed := hsame (.disableIrq 8) nofun
  have ee := hsame (.enableIrq 8) nofun
  have e8 := hsame (.sendEoi 8) (by rcases hn with rfl | rfl <;> decide)
  rw [perform_eoi (by omega)]
  refine ⟨⟨h1, h2, h3, h4, h5, h6, h7, h8⟩, ⟨hmask, hmaster⟩, ?_, himr, ?_, fun j => ?_, ?_, hcalls⟩
  · rw [ed, ee]
    exact hslave
  · dsimp only
    rw [getLsbD_clearBit _ (by decide), getLsbD_clearBit _ (by decide), getLsbD_clearBit _ (by decide), s0, s1, s2, s3, e8]
    rcases hn with rfl | rfl
    · rw [hsame (.sendEoi 1) (by decide), show owed l (.sendEoi 0) = 0 by omega]
      simp
    · rw [hsame (.sendEoi 0) (by decide), show owed l (.sendEoi 1) = 0 by omega]
      simp
  · dsimp only
    rw [getLsbD_clearBit _ j.isLt]
    refine ⟨fun hj => ?_, (hrest j).2⟩
    rw [(hrest j).1 hj, Bool.false_and]
  · dsimp only
    rw [ee]
    rcases hn with rfl | rfl
    · have e1 := hsame (.sendEoi 1) (by decide)
      omega
    · have e0 := hsame (.sendEoi 0) (by decide)
      omega

/-- The clock's handler masks its line. -/
theorem picInv_disable (hI : PicInv s) (hl : OwesLess s.active l (.disableIrq 8)) :
    PicInv { driver := PicCall.perform s.driver (.disableIrq 8), active := l } := by
  have hinit := hI.initialized
  obtain ⟨hord, hord'⟩ := owed_order hI.calls
  obtain ⟨⟨h1, h2, h3, h4, h5, h6, h7, h8⟩, ⟨hmask, hmaster⟩, hslave, -, hservice, hrest, ⟨o0, o1, oe⟩, -⟩ := hI
  obtain ⟨hone, hsame, hcalls⟩ := hl
  have e0 := hsame (.sendEoi 0) nofun
  have e1 := hsame (.sendEoi 1) nofun
  have e8 := hsame (.sendEoi 8) nofun
  have ee := hsame (.enableIrq 8) nofun
  have hopen : s.driver.slaveMask = 0xFE := by rw [hslave, if_neg (by omega)]
  have hshut : setBit s.driver.slaveMask 0 = 0xFF := by
    rw [hopen]
    rfl
  rw [perform_disable_clock hinit, hshut]
  refine ⟨⟨h1, h2, h3, h4, h5, h6, h7, h8⟩, ⟨hmask, hmaster⟩, ?_, rfl, ?_, hrest, ?_, hcalls⟩
  · dsimp only [maskSlave]
    rw [if_pos (by omega)]
  · dsimp only [maskSlave]
    rw [e0, e1, e8]
    exact hservice
  · dsimp only
    omega

/-- Then it ends the service of its line, and of the second controller's. -/
theorem picInv_eoiClock (hI : PicInv s) (hl : OwesLess s.active l (.sendEoi 8)) :
    PicInv { driver := PicCall.perform s.driver (.sendEoi 8), active := l } := by
  obtain ⟨-, hord'⟩ := owed_order hI.calls
  obtain ⟨⟨h1, h2, h3, h4, h5, h6, h7, h8⟩, ⟨hmask, hmaster⟩, hslave, himr, ⟨s0, s1, s2, s3⟩, hrest, ⟨o0, o1, oe⟩, -⟩ := hI
  obtain ⟨hone, hsame, hcalls⟩ := hl
  have e0 := hsame (.sendEoi 0) (by decide)
  have e1 := hsame (.sendEoi 1) (by decide)
  have ed := hsame (.disableIrq 8) nofun
  have ee := hsame (.enableIrq 8) nofun
  have hzero : owed l (.sendEoi 8) = 0 := by omega
  rw [perform_eoi_clock]
  refine ⟨⟨h1, h2, h3, h4, h5, h6, h7, h8⟩, ⟨hmask, hmaster⟩, ?_, himr, ?_, fun j => ?_, ?_, hcalls⟩
  · rw [ed, ee]
    exact hslave
  · dsimp only
    rw [getLsbD_clearBit _ (by decide), getLsbD_clearBit _ (by decide), getLsbD_clearBit _ (by decide), getLsbD_clearBit _ (by decide),
      s0, s1, s2, s3, e0, e1, hzero]
    simp
  · dsimp only
    rw [getLsbD_clearBit _ j.isLt, getLsbD_clearBit _ j.isLt]
    refine ⟨fun hj => ?_, fun hj => ?_⟩
    · rw [(hrest j).1 hj, Bool.false_and]
    · rw [(hrest j).2 hj, Bool.false_and]
  · dsimp only
    omega

/-- And it opens its line. -/
theorem picInv_enable (hI : PicInv s) (hl : OwesLess s.active l (.enableIrq 8)) :
    PicInv { driver := PicCall.perform s.driver (.enableIrq 8), active := l } := by
  have hinit := hI.initialized
  obtain ⟨⟨h1, h2, h3, h4, h5, h6, h7, h8⟩, ⟨hmask, hmaster⟩, hslave, -, hservice, hrest, ⟨o0, o1, oe⟩, -⟩ := hI
  obtain ⟨hone, hsame, hcalls⟩ := hl
  have e0 := hsame (.sendEoi 0) nofun
  have e1 := hsame (.sendEoi 1) nofun
  have e8 := hsame (.sendEoi 8) nofun
  have hopen : clearBit s.driver.slaveMask 0 = 0xFE := by
    rw [hslave]
    split <;> rfl
  rw [perform_enable_clock hinit, hopen]
  refine ⟨⟨h1, h2, h3, h4, h5, h6, h7, h8⟩, ⟨hmask, hmaster⟩, ?_, rfl, ?_, hrest, ?_, hcalls⟩
  · dsimp only [maskSlave]
    rw [if_neg (by omega)]
  · dsimp only [maskSlave]
    rw [e0, e1, e8]
    exact hservice
  · dsimp only
    omega

/-- A call made by one of the handlers. -/
theorem picInv_call (hI : PicInv s) {i : Nat} (hi : s.active[i]? = some (h, c :: cs)) :
    PicInv { driver := c.perform s.driver, active := s.active.set i (h, cs) } := by
  have hless := owesLess_set hI hi
  rcases suffix_cases (hI.calls _ (List.mem_of_getElem? hi)) with
    ⟨rfl, rfl, rfl⟩ | ⟨rfl, rfl, rfl⟩ | ⟨rfl, ⟨rfl, rfl⟩ | ⟨rfl, rfl⟩ | ⟨rfl, rfl⟩⟩
  · exact picInv_eoi hI (Or.inl rfl) hless
  · exact picInv_eoi hI (Or.inr rfl) hless
  · exact picInv_disable hI hless
  · exact picInv_eoiClock hI hless
  · exact picInv_enable hI hless

/-- A handler that has made its calls returns. -/
theorem picInv_returned (hI : PicInv s) {i : Nat} (hi : s.active[i]? = some (h, [])) :
    PicInv { s with active := s.active.eraseIdx i } := by
  obtain ⟨hinit, hmaster, hslave, himr, hservice, hrest, honce, hcalls⟩ := hI
  have howed : ∀ x, owed (s.active.eraseIdx i) x = owed s.active x := fun x => owed_eraseIdx hi
  refine ⟨hinit, hmaster, ?_, himr, ?_, hrest, ?_, fun a ha => hcalls a (List.mem_of_mem_eraseIdx ha)⟩
  · rw [howed, howed]
    exact hslave
  · rw [howed, howed, howed]
    exact hservice
  · rw [howed, howed, howed]
    exact honce

/-! ### Requests -/

/-- The vector of an interrupt names its handler. -/
theorem intrOfVector_entry (h : Intr) : intrOfVector (BitVec.ofNat 8 h.idtEntry) = some h := by
  cases h <;> rfl

/-- A request makes its own interrupt pending and no other. -/
theorem pending_raise (p : Pair) (n : Nat) (hn : n < 16) (h : Intr) :
    intrPending (p.raise n) h = (intrPending p h || decide (n = h.irqNum)) := by
  unfold Pair.raise
  by_cases h8 : n < 8
  · rw [if_pos h8]
    cases h with
    | pit => exact getLsbD_setBit _ (by decide)
    | kb => exact getLsbD_setBit _ (by decide)
    | rtc =>
      rw [decide_eq_false (show ¬n = Intr.irqNum .rtc from Nat.ne_of_lt h8), Bool.or_false]
      rfl
  · rw [if_neg h8]
    cases h with
    | pit =>
      rw [decide_eq_false (show ¬n = Intr.irqNum .pit from fun he => h8 (he ▸ by decide)), Bool.or_false]
      rfl
    | kb =>
      rw [decide_eq_false (show ¬n = Intr.irqNum .kb from fun he => h8 (he ▸ by decide)), Bool.or_false]
      rfl
    | rtc =>
      have heq : decide (n = Intr.irqNum .rtc) = decide (n - 8 = 0) :=
        decide_eq_decide.mpr ⟨fun he => by rw [he]; rfl, fun he => show n = 8 by omega⟩
      rw [heq]
      exact getLsbD_setBit _ (by decide)

/-- An interrupt taken is pending no longer. -/
theorem pending_accepted (p : Pair) (h h' : Intr) : intrPending (accepted p h) h' = (intrPending p h' && !decide (h = h')) := by
  have hline : ∀ (k : Chip) (n : Fin 8) (i : Nat), i < 8 → (k.accept n).irr.getLsbD i = (k.irr.getLsbD i && !decide (n.val = i)) :=
    fun k n i hi => getLsbD_clearBit k.irr hi
  cases h with
  | pit =>
    cases h' with
    | pit => exact hline _ 0 0 (by decide)
    | kb => exact hline _ 0 1 (by decide)
    | rtc => exact (Bool.and_true _).symm
  | kb =>
    cases h' with
    | pit => exact hline _ 1 0 (by decide)
    | kb => exact hline _ 1 1 (by decide)
    | rtc => exact (Bool.and_true _).symm
  | rtc =>
    cases h' with
    | pit => exact hline _ 2 0 (by decide)
    | kb => exact hline _ 2 1 (by decide)
    | rtc => exact hline _ 0 0 (by decide)

/-- The calls of the handlers leave the requests alone. -/
theorem pending_perform (hd : Initialized d.pic) (hc : c :: cs <:+ h.picCalls) (h' : Intr) :
    intrPending (c.perform d).pic h' = intrPending d.pic h' := by
  rcases suffix_cases hc with ⟨-, rfl, -⟩ | ⟨-, rfl, -⟩ | ⟨-, ⟨rfl, -⟩ | ⟨rfl, -⟩ | ⟨rfl, -⟩⟩
  · rw [perform_eoi (by decide)]
    cases h' <;> rfl
  · rw [perform_eoi (by decide)]
    cases h' <;> rfl
  · rw [perform_disable_clock hd]
    cases h' <;> rfl
  · rw [perform_eoi_clock]
    cases h' <;> rfl
  · rw [perform_enable_clock hd]
    cases h' <;> rfl

/-! ### Every step -/

/-- An interrupt begun comes in order. -/
theorem inOrder_begun (hI : PicInv s) (hpend : intrPending s.driver.pic h = true) (hfree : Free s.driver.pic h)
    (hfirst : ∀ h', h'.irqNum < h.irqNum → ¬(intrPending s.driver.pic h' = true ∧ Free s.driver.pic h')) :
    intrPending s.driver.pic h = true ∧
      (∀ a ∈ s.active, PicCall.sendEoi a.1.irqNum ∈ a.2 → h.irqNum < a.1.irqNum) ∧
      ∀ h', h'.irqNum < h.irqNum → intrPending s.driver.pic h' = false := by
  obtain ⟨hpit, hkb, hrtc⟩ := owed_of_free hI hfree
  have hlower : ∀ h' : Intr, h'.irqNum < h.irqNum → Free s.driver.pic h' := by
    intro h' hlt
    cases h with
    | pit => exact absurd hlt (Nat.not_lt_zero _)
    | kb =>
      cases h' with
      | pit => exact hfree.1
      | kb | rtc => exact absurd hlt (by decide)
    | rtc =>
      cases h' with
      | pit => exact hfree.1.1
      | kb => exact ⟨hfree.1.1, hfree.1.2.1⟩
      | rtc => exact absurd hlt (by decide)
  refine ⟨hpend, ?_, ?_⟩
  · rintro ⟨h', cs⟩ ha hmem
    change h.irqNum < h'.irqNum
    have howed := Nat.le_trans (List.count_pos_iff.mpr hmem) (count_le_owed ha _)
    cases h with
    | pit =>
      cases h' with
      | pit => exact absurd howed (by rw [show Intr.irqNum .pit = 0 from rfl, hpit rfl]; decide)
      | kb | rtc => decide
    | kb =>
      cases h' with
      | pit => exact absurd howed (by rw [show Intr.irqNum .pit = 0 from rfl, (hkb rfl).1]; decide)
      | kb => exact absurd howed (by rw [show Intr.irqNum .kb = 1 from rfl, (hkb rfl).2]; decide)
      | rtc => decide
    | rtc =>
      cases h' with
      | pit => exact absurd howed (by rw [show Intr.irqNum .pit = 0 from rfl, (hrtc rfl).1]; decide)
      | kb => exact absurd howed (by rw [show Intr.irqNum .kb = 1 from rfl, (hrtc rfl).2.1]; decide)
      | rtc => exact absurd howed (by rw [show Intr.irqNum .rtc = 8 from rfl, (hrtc rfl).2.2.1]; decide)
  · intro h' hlt
    rw [← Bool.not_eq_true]
    exact fun hp => hfirst h' hlt ⟨hp, hlower h' hlt⟩

/-- A step that begins no handler and changes no request. -/
theorem balance_of_same {e : PicEvent} (hreq : ∀ h, requests h s e = []) (hbegun : ∀ h, begun h s e = [])
    (hpend : ∀ h, intrPending s'.driver.pic h = intrPending s.driver.pic h) :
    (∀ h, (requests h s e).length + (intrPending s.driver.pic h).toNat =
      (begun h s e).length + (intrPending s'.driver.pic h).toNat) ∧ InOrder s e :=
  ⟨fun h => by rw [hreq, hbegun, hpend], fun h hb => absurd (hbegun h) hb⟩

/-- Every step. -/
theorem picStep_ok (hI : PicInv s) (e : PicEvent) :
    ∃ s', picStep s e = .ok s' ∧ PicInv s' ∧
      (∀ h, (requests h s e).length + (intrPending s.driver.pic h).toNat =
        (begun h s e).length + (intrPending s'.driver.pic h).toNat) ∧ InOrder s e := by
  cases e with
  | raise n =>
    refine ⟨_, rfl, picInv_raise hI n, fun h => ?_, fun h hb => absurd rfl hb⟩
    rw [show begun h s (.raise n) = [] from rfl]
    dsimp only
    rw [pending_raise _ _ n.isLt]
    unfold requests
    cases hp : intrPending s.driver.pic h with
    | true => simp
    | false =>
      by_cases hn : n.val = h.irqNum
      · simp [hn]
      · simp [hn]
  | interrupt =>
    rcases ack_cases hI.initialized hI.masterMask.2 (slaveImr_cases hI) with ⟨hnone, -⟩ | ⟨h, hack, hpend, hfree, hfirst⟩
    · refine ⟨s, by simp only [picStep, hnone], hI, balance_of_same (fun _ => rfl) (fun h => ?_) (fun _ => rfl)⟩
      unfold begun
      rw [hnone]
      rfl
    · have hbegun : ∀ h', begun h' s .interrupt = if h = h' then [()] else [] := by
        intro h'
        unfold begun
        rw [hack, Option.bind_some, intrOfVector_entry]
        simp
      refine ⟨_, by simp only [picStep, hack, intrOfVector_entry], picInv_begun hI hfree, fun h' => ?_, fun h' hb => ?_⟩
      · rw [show requests h' s .interrupt = [] from rfl, hbegun]
        dsimp only
        rw [pending_accepted]
        by_cases hh : h = h'
        · subst hh
          simp [hpend]
        · simp [hh]
      · rw [hbegun] at hb
        by_cases hh : h = h'
        · subst hh
          exact inOrder_begun hI hpend hfree hfirst
        · rw [if_neg hh] at hb
          exact absurd rfl hb
  | goOn i =>
    cases hi : s.active[i]? with
    | none => exact ⟨s, by simp only [picStep, hi], hI, balance_of_same (fun _ => rfl) (fun _ => rfl) (fun _ => rfl)⟩
    | some a =>
      obtain ⟨h, cs⟩ := a
      cases cs with
      | nil =>
        exact ⟨_, by simp only [picStep, hi], picInv_returned hI hi, balance_of_same (fun _ => rfl) (fun _ => rfl) (fun _ => rfl)⟩
      | cons c cs =>
        refine ⟨_, by simp only [picStep, hi], picInv_call hI hi, balance_of_same (fun _ => rfl) (fun _ => rfl) (fun h' => ?_)⟩
        exact pending_perform hI.initialized (hI.calls _ (List.mem_of_getElem? hi)) h'

/-- Every step of the handlers keeps the invariant. -/
theorem picStep_inv (hI : PicInv s) {e : PicEvent} (hs : picStep s e = .ok s') : PicInv s' := by
  obtain ⟨s₁, hs₁, hI₁, -⟩ := picStep_ok hI e
  rw [hs₁, Outcome.ok.injEq] at hs
  rwa [← hs]

/-- No sequence of requests, calls and returns gets stuck. -/
theorem exists_run (hI : PicInv s) (es : List PicEvent) : ∃ s', run picStep s es = .ok s' ∧ PicInv s' := by
  induction es generalizing s with
  | nil => exact ⟨s, rfl, hI⟩
  | cons e es ih =>
    obtain ⟨s₁, hs₁, hI₁, -⟩ := picStep_ok hI e
    obtain ⟨s', hs', hI'⟩ := ih hI₁
    exact ⟨s', by rw [run_cons, hs₁, Outcome.andThen_ok, hs'], hI'⟩

/-- With no handler under way nothing is in service, the masks are those of `entry`, and what is pending is served next. -/
theorem quiet_of_inv (hI : PicInv s) (hnone : s.active = []) :
    AtRest s.driver ∧ ∀ h, intrPending s.driver.pic h = true → ∃ h', begun h' s .interrupt ≠ [] := by
  have hack := ack_cases hI.initialized hI.masterMask.2 (slaveImr_cases hI)
  obtain ⟨-, ⟨hmask, hmaster⟩, hslave, himr, ⟨s0, s1, s2, s3⟩, hrest, -, -⟩ := hI
  rw [hnone] at hslave s0 s1 s2 s3
  rw [owed_nil, owed_nil, if_neg (by decide)] at hslave
  rw [owed_nil, decide_eq_false (by decide)] at s0 s1 s2 s3
  have hzero : ∀ b : Byte, (∀ i < 8, b.getLsbD i = false) → b = 0 := fun b hb =>
    BitVec.eq_of_getLsbD_eq (fun i hi => by rw [hb i hi, show (0 : Byte) = 0#8 from rfl, BitVec.getLsbD_zero])
  have hservice : ∀ i < 8, s.driver.pic.master.isr.getLsbD i = false := by
    intro i hi
    by_cases hlow : 2 < i
    · exact (hrest ⟨i, hi⟩).1 hlow
    · obtain rfl | rfl | rfl : i = 0 ∨ i = 1 ∨ i = 2 := by omega
      · exact s0
      · exact s1
      · exact s2
  have hservice' : ∀ i < 8, s.driver.pic.slave.isr.getLsbD i = false := by
    intro i hi
    by_cases hlow : 0 < i
    · exact (hrest ⟨i, hi⟩).2 hlow
    · obtain rfl : i = 0 := by omega
      exact s3
  refine ⟨⟨hmask, hmaster, hslave, himr.trans hslave, hzero _ hservice, hzero _ hservice'⟩, fun h hpend => ?_⟩
  rcases hack with ⟨-, hnot⟩ | ⟨h', hack, -⟩
  · have hopen : s.driver.pic.slave.imr.getLsbD 0 = false := by
      rw [himr, hslave]
      rfl
    refine absurd ⟨hpend, ?_⟩ (hnot h)
    cases h with
    | pit => exact s0
    | kb => exact ⟨s0, s1⟩
    | rtc => exact ⟨⟨s0, s1, s2⟩, s3, hopen⟩
  · refine ⟨h', ?_⟩
    unfold begun
    rw [hack, Option.bind_some, intrOfVector_entry, if_pos rfl]
    exact List.cons_ne_nil _ _

/-! ### Boot -/

/-- The requests open and close no line. -/
theorem foldl_setLines (es : List DriverEvent) : ∀ lines : Nat → Bool,
    es.foldl setLines lines = ((es.filterMap DriverEvent.picCall).map DriverEvent.call).foldl setLines lines := by
  induction es with
  | nil => exact fun _ => rfl
  | cons e es ih =>
    intro lines
    cases e with
    | raise n => exact ih lines
    | call c => exact ih (setLines lines (.call c))

/-- The requests name no line of the slave. -/
theorem any_namesSlave (es : List DriverEvent) :
    es.any DriverEvent.namesSlave = ((es.filterMap DriverEvent.picCall).map DriverEvent.call).any DriverEvent.namesSlave := by
  induction es with
  | nil => rfl
  | cons e es ih =>
    cases e with
    | raise n => exact ih
    | call c => exact congrArg (DriverEvent.namesSlave (.call c) || ·) ih

/-- The machine as `entry` leaves it. -/
theorem picInv_boot (d : I8259) {es : List DriverEvent} (hes : es.filterMap DriverEvent.picCall = entryPicCalls) :
    PicInv { driver := es.foldl driverStep (i8259Init d), active := [] } := by
  have heoi : ∀ n, DriverEvent.call (.sendEoi n) ∈ es → n ≤ 15 := by
    intro n hn
    have hmem : PicCall.sendEoi n ∈ entryPicCalls := by
      rw [← hes]
      exact List.mem_filterMap.mpr ⟨_, hn, rfl⟩
    simp [entryPicCalls] at hmem
  have hmasked := masked_foldl es (masked_init d) heoi
  rw [foldl_setLines, any_namesSlave, hes] at hmasked
  obtain ⟨hinit, ⟨hm, hs⟩, hmaster, hslave, hlines, hslaveLines⟩ := hmasked
  rw [if_pos (by decide)] at hslave
  have hmask : (es.foldl driverStep (i8259Init d)).masterMask = 0xF8 := by
    refine BitVec.eq_of_getLsbD_eq (fun i hi => (hlines i hi).trans ?_)
    revert i
    decide
  have hmask' : (es.foldl driverStep (i8259Init d)).slaveMask = 0xFE := by
    refine BitVec.eq_of_getLsbD_eq (fun i hi => (hslaveLines i hi).trans ?_)
    revert i
    decide
  have hclear : ∀ i, (0 : Byte).getLsbD i = false := fun i => BitVec.getLsbD_zero
  refine ⟨hinit, ⟨hmask, hmaster.trans hmask⟩, hmask', hslave, ?_, ?_, ⟨Nat.zero_le 1, Nat.zero_le 1, Nat.zero_le 1⟩,
    fun a ha => absurd ha List.not_mem_nil⟩
  · rw [hm, hs]
    exact ⟨rfl, rfl, rfl, rfl⟩
  · intro i
    rw [hm, hs]
    exact ⟨fun _ => hclear i, fun _ => hclear i⟩

end InterruptControllerAux

/-- From boot on controllers in any state, with requests coming in at any time from `i8259_init` on, and with the handlers interrupted
anywhere and going on in any order: every vector the processor gets has a handler; of the requests for an interrupt that is not pending
already, each is served by one run of its handler or is pending at the end; an interrupt goes before those of a higher number, and
stands back for those of a lower one that are pending or not ended; and with no handler under way nothing is in service, the masks are
as `entry` left them, and what is pending is taken next. -/
theorem interrupts_served (d : I8259) {boot : List DriverEvent} (hboot : boot.filterMap DriverEvent.picCall = entryPicCalls)
    (es : List PicEvent) :
    ∃ s, run picStep { driver := boot.foldl driverStep (i8259Init d), active := [] } es = .ok s ∧
      Meets picStep InOrder { driver := boot.foldl driverStep (i8259Init d), active := [] } es ∧
      (∀ h, (collect picStep (requests h) { driver := boot.foldl driverStep (i8259Init d), active := [] } es).length +
          (intrPending (boot.foldl driverStep (i8259Init d)).pic h).toNat =
        (collect picStep (begun h) { driver := boot.foldl driverStep (i8259Init d), active := [] } es).length +
          (intrPending s.driver.pic h).toNat) ∧
      (s.active = [] → AtRest s.driver ∧ ∀ h, intrPending s.driver.pic h = true → ∃ h', begun h' s .interrupt ≠ []) := by
  have hstart := picInv_boot d hboot
  obtain ⟨s, hrun, hI⟩ := exists_run hstart es
  refine ⟨s, hrun, ?_, fun h => ?_, quiet_of_inv hI⟩
  · refine meets_of_invariant (fun _ _ _ h hs => picStep_inv h hs) (fun s e h => ?_) es hstart
    obtain ⟨-, -, -, -, horder⟩ := picStep_ok h e
    exact horder
  · refine length_collect_balance (requests h) (begun h) (fun s => (intrPending s.driver.pic h).toNat) (fun s e s' hI hs => ?_) hstart hrun
    obtain ⟨s₁, hs₁, -, hbalance, -⟩ := picStep_ok hI e
    rw [hs₁, Outcome.ok.injEq] at hs
    subst hs
    exact ⟨picStep_inv hI hs₁, hbalance h⟩

/-- `entry`'s calls, with a clock request among them. -/
def noisyBoot : List DriverEvent := [.call (.enableIrq 0), .raise 8, .call (.enableIrq 1), .call (.enableIrq 8)]

/-- The clock, a key and the timer, each taken inside the handler of the one before. -/
def nestedEvents : List PicEvent := [.interrupt, .raise 1, .interrupt, .raise 0, .interrupt, .goOn 0, .goOn 0, .goOn 1, .raise 8]

/-- A clock that comes within a handler and a key that comes within the clock's. -/
theorem interrupts_served_nested :
    ∃ s, run picStep { driver := noisyBoot.foldl driverStep (i8259Init powerOn), active := [] } nestedEvents = .ok s ∧
      s.active.length = 2 ∧ intrPending s.driver.pic .rtc = true ∧
      Meets picStep InOrder { driver := noisyBoot.foldl driverStep (i8259Init powerOn), active := [] } nestedEvents := by
  have hboot : noisyBoot.filterMap DriverEvent.picCall = entryPicCalls := by decide
  obtain ⟨s, hrun, hmeets, -, -⟩ := interrupts_served powerOn hboot nestedEvents
  have hend := congrArg Outcome.state hrun
  rw [Outcome.state_ok] at hend
  refine ⟨s, hrun, ?_, ?_, hmeets⟩
  · rw [← hend]
    decide +kernel
  · rw [← hend]
    decide +kernel

end ThreeTermOS
