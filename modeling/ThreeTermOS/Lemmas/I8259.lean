import ThreeTermOS.I8259

/-!
# The driver of the interrupt controllers

Each call of the driver as one update of the masks and the controllers, once these are initialized; what the processor can be given;
and the calls the handlers under way still owe.
-/

namespace ThreeTermOS

open Pic8259 Runs

/-- Both controllers have had their initialization words. -/
structure Initialized (p : Pair) : Prop where
  masterPhase : p.master.phase = .ready
  masterBase : p.master.base = icw2Master
  masterCascade : p.master.cascade = icw3Master
  masterEoi : p.master.autoEoi = false
  slavePhase : p.slave.phase = .ready
  slaveBase : p.slave.base = icw2Slave
  slaveCascade : p.slave.cascade = icw3Slave
  slaveEoi : p.slave.autoEoi = false

namespace I8259Aux

variable {d : I8259} {p : Pair} {n : Nat} {h : Intr} {c x : PicCall} {cs : List PicCall} {l : List (Intr × List PicCall)}

/-! ### Calls of the driver -/

/-- A mask written to the first controller. -/
def maskMaster (d : I8259) (m : Byte) : I8259 :=
  { d with masterMask := m, pic := { d.pic with master := { d.pic.master with imr := m } } }

/-- A mask written to the second. -/
def maskSlave (d : I8259) (m : Byte) : I8259 :=
  { d with slaveMask := m, pic := { d.pic with slave := { d.pic.slave with imr := m } } }

/-- A line of the master opened. -/
theorem enableIrq_master (hd : Initialized d.pic) (hn : n < 8) : enableIrq d n = maskMaster d (clearBit d.masterMask n) := by
  unfold enableIrq I8259.outb
  rw [if_pos (by omega)]
  simp [Pair.out, master8259Port, Chip.data, hd.masterPhase, maskMaster, clearBit, BitVec.twoPow]

/-- A line of the slave opened. -/
theorem enableIrq_slave (hd : Initialized d.pic) (hn : n < 8) : enableIrq d (n + 8) = maskSlave d (clearBit d.slaveMask n) := by
  unfold enableIrq I8259.outb
  rw [if_neg (by omega), if_pos (by omega), Nat.add_sub_cancel]
  simp [Pair.out, slave8259Port, Chip.data, hd.slavePhase, maskSlave, clearBit, BitVec.twoPow]

/-- No line of either. -/
theorem enableIrq_other (hn : 16 ≤ n) : enableIrq d n = d := by
  unfold enableIrq
  rw [if_neg (by omega), if_neg (by omega)]

/-- A line of the master closed. -/
theorem disableIrq_master (hd : Initialized d.pic) (hn : n < 8) : disableIrq d n = maskMaster d (setBit d.masterMask n) := by
  unfold disableIrq I8259.outb
  rw [if_pos (by omega)]
  simp [Pair.out, master8259Port, Chip.data, hd.masterPhase, maskMaster, setBit, BitVec.twoPow]

/-- A line of the slave closed. -/
theorem disableIrq_slave (hd : Initialized d.pic) (hn : n < 8) : disableIrq d (n + 8) = maskSlave d (setBit d.slaveMask n) := by
  unfold disableIrq I8259.outb
  rw [if_neg (by omega), if_pos (by omega), Nat.add_sub_cancel]
  simp [Pair.out, slave8259Port, Chip.data, hd.slavePhase, maskSlave, setBit, BitVec.twoPow]

/-- No line of either. -/
theorem disableIrq_other (hn : 16 ≤ n) : disableIrq d n = d := by
  unfold disableIrq
  rw [if_neg (by omega), if_neg (by omega)]

/-- The command of `send_eoi` ends the service of the line it names. -/
theorem command_eoi (k : Chip) (hn : n < 8) :
    k.command (BitVec.ofNat 8 (eoi ||| n)) = { k with isr := clearBit k.isr n } := by
  have hbits : ∀ i : Fin 8, (BitVec.ofNat 8 (eoi ||| i.val)).getLsbD 4 = false ∧ (BitVec.ofNat 8 (eoi ||| i.val)).getLsbD 3 = false ∧
      (BitVec.ofNat 8 (eoi ||| i.val)).extractLsb' 5 3 = 3 ∧ ((BitVec.ofNat 8 (eoi ||| i.val)).extractLsb' 0 3).toNat = i.val := by
    decide
  obtain ⟨h4, h3, hop, hline⟩ := hbits ⟨n, hn⟩
  dsimp only at h4 h3 hop hline
  unfold Chip.command Chip.ocw2
  rw [h4, h3, hop, hline]
  simp

/-- A byte to the master's command port. -/
theorem out_master (p : Pair) (v : Byte) : p.out v master8259Port = { p with master := p.master.command v } := rfl

/-- A byte to the slave's command port. -/
theorem out_slave (p : Pair) (v : Byte) : p.out v slave8259Port = { p with slave := p.slave.command v } := rfl

/-- A byte to the master's data port. -/
theorem out_masterData (p : Pair) (v : Byte) : p.out v (master8259Port + 1) = { p with master := p.master.data v } := rfl

/-- A byte to the slave's data port. -/
theorem out_slaveData (p : Pair) (v : Byte) : p.out v (slave8259Port + 1) = { p with slave := p.slave.data v } := rfl

/-- The end of an interrupt of the master. -/
theorem sendEoi_master (hn : n < 8) :
    sendEoi d n = { d with pic := { d.pic with master := { d.pic.master with isr := clearBit d.pic.master.isr n } } } := by
  unfold sendEoi I8259.outb
  rw [if_neg (by omega), out_master, command_eoi _ hn]

/-- The end of an interrupt of the slave, on both. -/
theorem sendEoi_slave (hn : n < 8) :
    sendEoi d (n + 8) = { d with pic :=
      { master := { d.pic.master with isr := clearBit d.pic.master.isr 2 }
        slave := { d.pic.slave with isr := clearBit d.pic.slave.isr n } } } := by
  unfold sendEoi I8259.outb
  rw [if_pos (by omega), Nat.add_sub_cancel, out_slave, command_eoi _ hn]
  dsimp only
  rw [out_master, command_eoi _ (show 2 < 8 by decide)]

/-- The calls of the clock's handler, about the first line of the second controller. -/
theorem perform_eoi_clock :
    PicCall.perform d (.sendEoi 8) = { d with pic :=
      { master := { d.pic.master with isr := clearBit d.pic.master.isr 2 }
        slave := { d.pic.slave with isr := clearBit d.pic.slave.isr 0 } } } := sendEoi_slave (by decide)

/-- The clock's handler closes its line. -/
theorem perform_disable_clock (hd : Initialized d.pic) :
    PicCall.perform d (.disableIrq 8) = maskSlave d (setBit d.slaveMask 0) := disableIrq_slave hd (by decide)

/-- The clock's handler opens its line again. -/
theorem perform_enable_clock (hd : Initialized d.pic) :
    PicCall.perform d (.enableIrq 8) = maskSlave d (clearBit d.slaveMask 0) := enableIrq_slave hd (by decide)

/-- The end of the service of a line of the first controller. -/
theorem perform_eoi (hn : n < 8) :
    PicCall.perform d (.sendEoi n) =
      { d with pic := { d.pic with master := { d.pic.master with isr := clearBit d.pic.master.isr n } } } := sendEoi_master hn

/-- The four initialization words, whatever the controller was in the middle of. -/
theorem initialize_eq (k : Chip) {base : Byte} (cascade : Byte) (hbase : base &&& 0xF8 = base) :
    (((k.command icw1).data base).data cascade).data icw4 =
      { irr := 0, imr := 0, isr := 0, base := base, cascade := cascade, autoEoi := false, phase := .ready } := by
  have hwords : (((k.command icw1).data base).data cascade).data icw4 =
      { irr := 0, imr := 0, isr := 0, base := base &&& 0xF8, cascade := cascade, autoEoi := false, phase := .ready } := rfl
  rw [hwords, hbase]

/-- `i8259_init` masks the lines of the first controller; those of the second, which it masks before the initialization, are open. -/
theorem i8259Init_eq (d : I8259) :
    i8259Init d =
      { masterMask := 0xFB
        slaveMask := 0xFF
        pic :=
          { master := { irr := 0, imr := 0xFB, isr := 0, base := icw2Master, cascade := icw3Master, autoEoi := false, phase := .ready }
            slave := { irr := 0, imr := 0, isr := 0, base := icw2Slave, cascade := icw3Slave, autoEoi := false, phase := .ready } } } := by
  unfold i8259Init I8259.outb
  simp only [out_master, out_masterData, out_slave, out_slaveData]
  rw [initialize_eq _ icw3Master (by decide), initialize_eq _ icw3Slave (by decide)]
  rfl

/-! ### What the handlers owe -/

/-- How often a call is still to be made by the handlers under way. -/
def owed (l : List (Intr × List PicCall)) (c : PicCall) : Nat := (l.map (fun a => a.2.count c)).sum

/-- With no handler active nothing is owed. -/
@[simp] theorem owed_nil (c : PicCall) : owed [] c = 0 := rfl

/-- A handler owes its calls beside those of the others. -/
@[simp] theorem owed_cons (a : Intr × List PicCall) (l : List (Intr × List PicCall)) (c : PicCall) :
    owed (a :: l) c = a.2.count c + owed l c := rfl

/-- A handler that returns owed nothing. -/
theorem owed_eraseIdx {i : Nat} (hi : l[i]? = some (h, [])) : owed (l.eraseIdx i) x = owed l x := by
  induction l generalizing i with
  | nil => cases hi
  | cons a l ih =>
    cases i with
    | zero =>
      rw [List.getElem?_cons_zero, Option.some.injEq] at hi
      rw [hi]
      simp
    | succ i =>
      rw [List.getElem?_cons_succ] at hi
      rw [List.eraseIdx_cons_succ, owed_cons, owed_cons, ih hi]

/-- A call made is owed no more. -/
theorem owed_set {i : Nat} (hi : l[i]? = some (h, c :: cs)) : owed (l.set i (h, cs)) x + (if c = x then 1 else 0) = owed l x := by
  induction l generalizing i with
  | nil => cases hi
  | cons a l ih =>
    cases i with
    | zero =>
      rw [List.getElem?_cons_zero, Option.some.injEq] at hi
      rw [hi, List.set_cons_zero, owed_cons, owed_cons, List.count_cons]
      by_cases hx : c = x
      · simp [hx]
        omega
      · simp [hx]
    | succ i =>
      rw [List.getElem?_cons_succ] at hi
      have hrest := ih hi
      rw [List.set_cons_succ, owed_cons, owed_cons]
      omega

/-- A handler under way owes what it has not called yet. -/
theorem count_le_owed {a : Intr × List PicCall} (ha : a ∈ l) (c : PicCall) : a.2.count c ≤ owed l c := by
  induction l with
  | nil => cases ha
  | cons b l ih =>
    rw [owed_cons]
    rcases List.mem_cons.mp ha with rfl | ha
    · exact Nat.le_add_right _ _
    · exact Nat.le_trans (ih ha) (Nat.le_add_left _ _)

/-- What comes from a handler under way comes from its own list of calls. -/
theorem suffix_set {i : Nat} (hl : ∀ a ∈ l, a.2 <:+ a.1.picCalls) (hi : l[i]? = some (h, c :: cs)) :
    ∀ a ∈ l.set i (h, cs), a.2 <:+ a.1.picCalls := by
  intro a ha
  rcases List.mem_or_eq_of_mem_set ha with ha | rfl
  · exact hl a ha
  · exact (List.suffix_cons c cs).trans (hl _ (List.mem_of_getElem? hi))

end I8259Aux

end ThreeTermOS
