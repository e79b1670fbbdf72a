import ThreeTermOS.Interrupts
import ThreeTermOS.Lemmas.FileDesc

/-!
# Which calls keep the interrupt flag

`sti` before `restore_flags` opens the interrupts whatever the flag was when the function was called, and `rtc_write` returns from
its checks without restoring it.
-/

namespace ThreeTermOS

/-- The call returns with the flag it was called with, and when that is clear the flag is clear all the way. -/
def Disciplined (call : FlagCall) (b : Bool) : Prop :=
  (call.cpu { ifFlag := b, seen := [] }).ifFlag = b ∧
    (b = false → ∀ v ∈ (call.cpu { ifFlag := b, seen := [] }).seen, v = false)

/-- `terminal_write` returns from its check. -/
def WriteRefused (buf : Option (List UInt8)) (nbytes : Int32) : Prop := buf = none ∨ nbytes.toInt < 0

/-- `rtc_write` returns from one of its checks. -/
def RateRefused (buf : Option CPtr) (nbytes : Int32) : Prop :=
  ∀ p, buf = some p → nbytes.toInt = byte4 → le32 p 0 < 2 ∨ le32 p 0 > 1024 ∨ le32 p 0 &&& (le32 p 0 - 1) ≠ 0

/-- The calls that keep the flag: those made with interrupts open, but for an `rtc_write` that refuses its argument; with
interrupts off, only those that refuse theirs. -/
def FlagCall.Keeps : FlagCall → Bool → Prop
  | .write _ buf nbytes, b => b = true ∨ WriteRefused buf nbytes
  | .rtcWrite _ buf nbytes, b => b = false ↔ RateRefused buf nbytes
  | _, b => b = true

namespace InterruptFlagAux

variable {σ : Type} {m : Cpu × σ} {body : Cpu × σ → Cpu × σ}

/-- The flag is set on the way out of a critical section, whatever it was. -/
theorem critical_seen (body : Cpu × σ → Cpu × σ) (m : Cpu × σ) : true ∈ (critical body m).1.seen := by
  unfold critical Cpu.restoreFlags Cpu.sti Cpu.load
  simp

/-- A critical section keeps the flag exactly when it is entered with interrupts open. -/
theorem critical_disciplined_iff (body : Cpu × σ → Cpu × σ) (s : σ) (b : Bool) :
    ((critical body ({ ifFlag := b, seen := [] }, s)).1.ifFlag = b ∧
        (b = false → ∀ v ∈ (critical body ({ ifFlag := b, seen := [] }, s)).1.seen, v = false)) ↔ b = true := by
  cases b with
  | true => exact iff_of_true ⟨rfl, nofun⟩ rfl
  | false =>
    refine iff_of_false ?_ Bool.false_ne_true
    rintro ⟨-, hclear⟩
    exact Bool.false_ne_true (hclear rfl true (critical_seen body _)).symm

theorem rtcWrite_refused_iff (k : Rtc) (buf : Option CPtr) (nbytes : Int32) :
    (rtcWrite k buf nbytes).1 = -1 ↔ RateRefused buf nbytes := by
  unfold rtcWrite RateRefused
  cases buf with
  | none => exact iff_of_true rfl (fun p hp => by cases hp)
  | some buf =>
    dsimp only
    by_cases hn : nbytes.toInt ≠ byte4
    · rw [if_pos hn]
      exact iff_of_true rfl (fun p _ h => absurd h hn)
    · rw [if_neg hn]
      by_cases hbad : le32 buf 0 < 2 ∨ le32 buf 0 > 1024 ∨ le32 buf 0 &&& (le32 buf 0 - 1) ≠ 0
      · rw [if_pos hbad]
        refine iff_of_true rfl (fun p hp _ => ?_)
        rw [Option.some.injEq] at hp
        exact hp ▸ hbad
      · rw [if_neg hbad]
        exact iff_of_false (show ((byte4 : Nat) : Int) ≠ -1 by decide) (fun h => hbad (h buf rfl (not_not.mp hn)))

/-! ### What the functions do beside -/

theorem terminalWriteLoop_snd (bytes : List UInt8) : ∀ m : Cpu × Console,
    (Cpu.terminalWriteLoop m bytes).2 = terminalWriteLoop m.2 bytes := by
  induction bytes with
  | nil => exact fun _ => rfl
  | cons c bytes ih =>
    intro m
    rw [Cpu.terminalWriteLoop, terminalWriteLoop, ih]
    congr 2
    split
    · rfl
    · rfl

theorem terminalPutsLoop_snd (s : List UInt8) : ∀ (m : Cpu × Console) (index : Nat),
    (Cpu.terminalPutsLoop m s index).2 = terminalPutsLoop m.2 s index := by
  induction s with
  | nil => exact fun _ _ => rfl
  | cons c s ih =>
    intro m index
    rw [Cpu.terminalPutsLoop, terminalPutsLoop, ih]
    congr 2
    split
    · rfl
    · rfl

theorem terminalPuts_snd (m : Cpu × Console) (s : List UInt8) : (Cpu.terminalPuts m s).2 = terminalPuts m.2 s := by
  unfold Cpu.terminalPuts terminalPuts
  dsimp only [plain, Cpu.terminalResetBuffer, critical]
  rw [terminalPutsLoop_snd]

theorem terminalPrintfLoop_snd (format : CPtr) (args : Nat → PrintfArg) (fuel : Nat) :
    ∀ (m : Cpu × Console) (conv : Option Bool) (buf esp : Nat),
      (Cpu.terminalPrintfLoop format args fuel m conv buf esp).2 = (terminalPrintfLoop format args fuel m.2 conv buf esp).1 := by
  induction fuel with
  | zero => exact fun _ _ _ _ => rfl
  | succ fuel ih =>
    intro m conv buf esp
    cases conv with
    | none =>
      rw [Cpu.terminalPrintfLoop, terminalPrintfLoop]
      split
      · rfl
      · dsimp only
        split
        · rw [ih]
          split
          · rfl
          · rfl
        · rw [ih]
          dsimp only [Cpu.terminalPutc, critical, plain]
          split
          · rfl
          · rfl
    | some alternate =>
      rw [Cpu.terminalPrintfLoop, terminalPrintfLoop]
      split
      · exact ih _ _ _ _
      · split
        · exact ih _ _ _ _
        · split
          · rw [ih, terminalPuts_snd]
          · split
            · exact ih _ _ _ _
            · exact ih _ _ _ _

end InterruptFlagAux

open InterruptFlagAux

/-- What the functions do beside the flag is what the rest of the model says they do. -/
theorem flag_calls_refine (c : Cpu) (k : Console) :
    (Cpu.terminalResetBuffer (c, k)).2 = terminalResetBuffer k ∧
      (∀ ch, (Cpu.terminalPutc (c, k) ch).2 = terminalPutc k ch) ∧
      (Cpu.terminalClear (c, k)).2 = terminalClear k ∧
      (∀ bytes (nbytes : Int32), 0 ≤ nbytes.toInt →
        (Cpu.terminalWrite (c, k) (some bytes) nbytes).2.2 = terminalWrite k (bytes.take nbytes.toInt.toNat)) ∧
      ∀ format args, (Cpu.terminalPrintf (c, k) format args).2 = (terminalPrintf k format args).1 := by
  refine ⟨rfl, fun _ => rfl, rfl, fun bytes nbytes hn => ?_, fun format args => ?_⟩
  · unfold Cpu.terminalWrite terminalWrite
    dsimp only
    rw [if_neg (show ¬nbytes.toInt < 0 by omega)]
    dsimp only [critical, plain, Cpu.terminalResetBuffer]
    rw [terminalWriteLoop_snd]
  · unfold Cpu.terminalPrintf terminalPrintf
    dsimp only [critical, plain, Cpu.terminalResetBuffer]
    rw [terminalPrintfLoop_snd]

/-- Exactly the calls that keep the interrupt flag. -/
theorem flag_kept_iff (call : FlagCall) (b : Bool) : Disciplined call b ↔ call.Keeps b := by
  cases call with
  | resetBuffer k => exact critical_disciplined_iff _ k b
  | putc k c => exact critical_disciplined_iff _ k b
  | clear k => exact critical_disciplined_iff _ k b
  | write k buf nbytes =>
    have hrefused : WriteRefused buf nbytes → (Disciplined (.write k buf nbytes) b ↔ FlagCall.Keeps (.write k buf nbytes) b) := by
      intro hr
      refine iff_of_true ?_ (Or.inr hr)
      have hcpu : FlagCall.cpu { ifFlag := b, seen := [] } (.write k buf nbytes) = { ifFlag := b, seen := [] } := by
        unfold FlagCall.cpu Cpu.terminalWrite
        rcases hr with rfl | hn
        · rfl
        · cases buf with
          | none => rfl
          | some bytes =>
            dsimp only
            rw [if_pos hn]
      unfold Disciplined
      rw [hcpu]
      exact ⟨rfl, fun _ v hv => by cases hv⟩
    by_cases hr : WriteRefused buf nbytes
    · exact hrefused hr
    · obtain ⟨hbuf, hn⟩ := not_or.mp hr
      obtain ⟨bytes, rfl⟩ := Option.ne_none_iff_exists'.mp hbuf
      have hkeeps : FlagCall.Keeps (.write k (some bytes) nbytes) b ↔ b = true := or_iff_left hr
      rw [hkeeps]
      unfold Disciplined FlagCall.cpu Cpu.terminalWrite
      dsimp only
      rw [if_neg hn]
      exact critical_disciplined_iff _ k b
  | printf k format args => exact critical_disciplined_iff _ k b
  | flushTlb k => exact critical_disciplined_iff _ k b
  | swapPages k pIdNew => exact critical_disciplined_iff _ _ b
  | rtcWrite k buf nbytes =>
    have hkeeps : FlagCall.Keeps (.rtcWrite k buf nbytes) b ↔ (b = false ↔ RateRefused buf nbytes) := Iff.rfl
    rw [hkeeps, ← rtcWrite_refused_iff k]
    unfold Disciplined FlagCall.cpu Cpu.rtcWrite
    dsimp only
    by_cases hr : (rtcWrite k buf nbytes).1 = -1
    · rw [if_pos hr]
      dsimp only [Cpu.cli, Cpu.load]
      cases b with
      | false => simp [hr]
      | true => simp [hr]
    · rw [if_neg hr]
      dsimp only [Cpu.cli, Cpu.sti, Cpu.restoreFlags, Cpu.load]
      cases b with
      | false => simp [hr]
      | true => simp [hr]

/-- A character is put with interrupts off, and an `rtc_write` refused with interrupts open. -/
theorem putc_opens_interrupts :
    ¬Disciplined (.putc (boot (fun _ => 0) (fun _ => rootShellPCB)).toConsole 0x41) false ∧
      ¬Disciplined (.rtcWrite Rtc.init (some (cstr [3])) 4) true := by
  constructor
  · rintro ⟨-, hclear⟩
    exact Bool.false_ne_true (hclear rfl true (critical_seen _ _)).symm
  · rintro ⟨hflag, -⟩
    revert hflag
    decide

end ThreeTermOS
