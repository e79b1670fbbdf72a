import ThreeTermOS.Lemmas.FileDesc
import ThreeTermOS.Lemmas.FileSys
import ThreeTermOS.Lemmas.Process
import ThreeTermOS.RtcCalls
import ThreeTermOS.Theorems.RtcRates

/-!
# The rate a program finds when it opens the clock

`rtc_open` is meant to set two ticks a second, and sets nothing that belongs to the terminal. A program that opens the clock finds the
rate that was set last on its terminal: by a program that still waits below it, or by the end of one that had a parent, which is where
the default comes back.
-/

namespace ThreeTermOS

open Bytes Runs

/-- The rate a call of `write_func` by the running program sets: the descriptor is one of the clock, and `rtc_write` takes the number. -/
def RtcKernel.rateWritten (s : RtcKernel) (fd : Int) (buf : Option (List UInt8)) (nbytes : Int32) : Option Nat :=
  match s.kernel.currPcbPtr, fdIndex fd, buf with
  | some a, some i, some bs =>
    let f := le32 (cstr bs) 0
    let d := (s.kernel.pcbs a).fdA i
    if d.fopsPtr = some .rtc ∧ d.flags ≠ inUse ∧ nbytes.toInt = byte4 ∧ 2 ≤ f ∧ f ≤ 1024 ∧ f &&& (f - 1) = 0 then some f else none
  | _, _, _ => none

/-- The rate an event sets on the running terminal: a successful write to the clock, or the end of a program that has a parent. -/
def RtcKernel.setRate (s : RtcKernel) : RtcKernelEvent → Option Nat
  | .kernel (.halt _ _) => if (s.kernel.currPcbPtr.bind (fun a => (s.kernel.pcbs a).parent)).isSome then some 2 else none
  | .write fd buf nbytes => s.rateWritten fd buf nbytes
  | _ => none

/-- The rate last set on terminal `t` after an event, `f` before it. -/
def rateAfter (t : Term) (s : RtcKernel) (f : Nat) (e : RtcKernelEvent) : Nat :=
  if s.kernel.currTerm = t then (s.setRate e).getD f else f

/-- The rate last set on terminal `t` by a run, `f` before it. -/
def lastRate (img : Image) (t : Term) : RtcKernel → Nat → List RtcKernelEvent → Nat
  | _, f, [] => f
  | s, f, e :: es => lastRate img t (rtcKernelStep img s e).state (rateAfter t s f e) es

/-- `open_func` of the running program reaches `rtc_open`. -/
structure OpensRtc (img : Image) (k : Kernel) (filename : CPtr) (a : Addr) (d : Dentry) (i : Fin 8) : Prop where
  runs : k.currPcbPtr = some a
  room : (k.pcbs a).fdTotalOpen < maxFd - 1
  named : readDentryByName img filename = some d
  rtc : d.fileType = 0
  closed : findClosed (k.pcbs a).fdA = some i

/-- The event is no successful write to the clock by a program of terminal `t`. -/
def NoRateWritten (t : Term) (s : RtcKernel) : RtcKernelEvent → Prop
  | .write fd buf nbytes => s.kernel.currTerm = t → s.rateWritten fd buf nbytes = none
  | _ => True

/-- Terminal `t` has two ticks a second: one at every 512th interrupt. -/
structure AtDefaultRate (img : Image) (t : Term) (s : RtcKernel) : Prop where
  freq : s.kernel.rtcFreq t = defaultFreq
  tick : ∀ s', rtcKernelStep img s .irq = .ok s' → s'.kernel.rtcCounter t = (s.kernel.rtcCounter t + 1) % defaultFreq ∧
    s'.raised t = s.raised t + if (s.kernel.rtcCounter t + 1) % defaultFreq = 0 then 1 else 0

namespace RtcOpeningAux

open RtcRatesAux

variable {img : Image} {k k' : Kernel} {s s' : RtcKernel} {e : RtcKernelEvent} {r : Residue} {t : Term} {f : Nat}

/-! ### The clocks in the kernel -/

/-- The clocks of two kernels are the same. -/
structure SameClocks (k k' : Kernel) : Prop where
  freq : k'.rtcFreq = k.rtcFreq
  counter : k'.rtcCounter = k.rtcCounter

/-- The clocks of a kernel are its own. -/
theorem SameClocks.refl (k : Kernel) : SameClocks k k := ⟨rfl, rfl⟩

/-- They stay over two changes in a row. -/
theorem SameClocks.trans {k'' : Kernel} (h : SameClocks k k') (h' : SameClocks k' k'') : SameClocks k k'' :=
  ⟨h'.freq.trans h.freq, h'.counter.trans h.counter⟩

/-- `execute_func` leaves the clocks. -/
theorem sameClocks_execute (img : Image) (k : Kernel) (command : CPtr) (r : Residue) :
    SameClocks k (executeFunc img k command r).kernel := by
  rcases ProcessAux.executeFunc_cases img k command r with ⟨message, -, he⟩ | ⟨d, m, -, -, he | he⟩
  · rw [he]
    exact ⟨rfl, rfl⟩
  · rw [he]
    exact ⟨rfl, rfl⟩
  · rw [he, ExecOut.kernel, ProcessAux.startProgram_eq]
    exact ⟨rfl, rfl⟩

/-- So does what follows it in a handler that does nothing more. -/
theorem sameClocks_outcome {o : ExecOut} (h : SameClocks k o.kernel) {f : Kernel → Outcome Stop Kernel}
    (hf : ∀ k₁ k', f k₁ = .ok k' → k' = k₁) (hs : o.outcome f = .ok k') : SameClocks k k' := by
  rcases ProcessAux.outcome_eq_ok hs with rfl | ⟨k₁, rfl, hk⟩
  · exact h
  · rw [hf k₁ k' hk]
    exact h

/-- `do_switch` leaves the clocks. -/
theorem sameClocks_doSwitch {dest : Term} (hs : doSwitch img k dest r = .ok k') : SameClocks k k' := by
  cases hcurr : k.currPcbPtr with
  | none =>
    unfold doSwitch at hs
    simp [hcurr] at hs
  | some a =>
    cases hdest : Function.update k.activeProgs k.currTerm (some a) dest with
    | some b =>
      unfold doSwitch at hs
      simp only [hcurr, hdest, Outcome.ok.injEq] at hs
      subst hs
      exact ⟨rfl, rfl⟩
    | none =>
      let κ := { k with
        activeProgs := Function.update k.activeProgs k.currTerm (some a), currPcbPtr := none, currTerm := dest, switchLock := false }
      have hswitch : doSwitch img k dest r = (executeFunc img κ shellCommand r).outcome
          (fun k => .stop .nullDeref { k with toConsole := terminalUpdateCursor k.toConsole }) := by
        unfold doSwitch
        simp only [hcurr, hdest, κ]
      have hlaunch : SameClocks k κ := ⟨rfl, rfl⟩
      rw [hswitch] at hs
      exact sameClocks_outcome (hlaunch.trans (sameClocks_execute img κ shellCommand r)) (fun _ _ hk => by cases hk) hs

/-- The display is none of them. -/
theorem sameClocks_displaying (k : Kernel) (dest : Term) : SameClocks k (ProcessAux.displaying k dest) := by
  unfold ProcessAux.displaying switchVidmap switchVidmem
  exact ⟨rfl, rfl⟩

/-- `switch_terminals` leaves them. -/
theorem sameClocks_switchTerminals {dest : Nat} (hs : switchTerminals img k dest r = .ok k') : SameClocks k k' := by
  rcases ProcessAux.switchTerminals_ok hs with rfl | ⟨t, k₁, -, -, -, rfl, ⟨-, hk⟩ | ⟨-, rfl⟩⟩
  · exact SameClocks.refl _
  · have hswitch := (sameClocks_displaying k t).trans (sameClocks_doSwitch hk)
    exact ⟨hswitch.freq, hswitch.counter⟩
  · have hdisplay := sameClocks_displaying k t
    exact ⟨hdisplay.freq, hdisplay.counter⟩

/-- `halt_func` of a program that has a parent sets the default rate, that of another leaves the clocks. -/
theorem clocks_halt {status : UInt8} (hs : haltFunc img k status r = .ok k') :
    if (k.currPcbPtr.bind (fun a => (k.pcbs a).parent)).isSome then
      k'.rtcFreq = Function.update k.rtcFreq k.currTerm defaultFreq ∧ k'.rtcCounter = Function.update k.rtcCounter k.currTerm 0
    else SameClocks k k' := by
  cases hcurr : k.currPcbPtr with
  | none =>
    unfold haltFunc at hs
    simp [hcurr] at hs
  | some a =>
    rw [Option.bind_some]
    cases hparent : (k.pcbs a).parent with
    | none =>
      have hhalt : haltFunc img k status r =
          (executeFunc img ((ProcessAux.decremented k).print "\nRestart the shell.\n") shellCommand r).outcome (.stop .spins) := by
        unfold haltFunc ProcessAux.decremented
        simp only [hcurr, hparent]
      have hprint : SameClocks k ((ProcessAux.decremented k).print "\nRestart the shell.\n") := by
        unfold ProcessAux.decremented Kernel.print
        exact ⟨rfl, rfl⟩
      rw [hhalt] at hs
      rw [if_neg (by decide)]
      exact sameClocks_outcome (hprint.trans (sameClocks_execute img _ shellCommand r)) (fun _ _ hk => by cases hk) hs
    | some parent =>
      unfold haltFunc at hs
      simp only [hcurr, hparent, Outcome.ok.injEq] at hs
      subst hs
      rw [if_pos Option.isSome_some]
      simp only [clearRetval, setTss, Kernel.modifyPCB, rtcDefaultRate, getParentPCB, swapPages, and_self]

/-- Every step of the kernel but the end of a program leaves them. -/
theorem sameClocks_step {e : Event} (hhalt : ∀ status r, e ≠ .halt status r) (hs : step img k e = .ok k') : SameClocks k k' := by
  cases e with
  | execute command r => exact sameClocks_outcome (sameClocks_execute img k command r) (fun _ _ hk => (Outcome.ok.inj hk).symm) hs
  | halt status r => exact absurd rfl (hhalt status r)
  | schedule newTerm r =>
    rcases ProcessAux.schedule_ok hs with rfl | ⟨k₁, -, -, rfl, hk⟩
    · exact SameClocks.refl _
    · have hswitch := sameClocks_doSwitch hk
      exact ⟨hswitch.freq, hswitch.counter⟩
  | switchTerminals dest r => exact sameClocks_switchTerminals hs
  | key scancode r =>
    rw [step, ProcessAux.getCKeyboard_eq] at hs
    split at hs
    · have hswitch := sameClocks_switchTerminals hs
      exact ⟨hswitch.freq, hswitch.counter⟩
    · exact Outcome.ok.inj hs ▸ ⟨rfl, rfl⟩
  | write bytes => exact Outcome.ok.inj hs ▸ ⟨rfl, rfl⟩
  | puts s => exact Outcome.ok.inj hs ▸ ⟨rfl, rfl⟩
  | printf format args => exact Outcome.ok.inj hs ▸ ⟨rfl, rfl⟩
  | readBegin => exact Outcome.ok.inj hs ▸ ⟨rfl, rfl⟩
  | readPoll => exact Outcome.ok.inj hs ▸ ⟨rfl, rfl⟩
  | readCopy nbytes =>
    rw [step] at hs
    split at hs
    · exact Outcome.ok.inj hs ▸ ⟨rfl, rfl⟩
    · exact Outcome.ok.inj hs ▸ SameClocks.refl _
  | vidmap screenStart =>
    obtain ⟨m, table, rfl⟩ := ProcessAux.vidmapFunc_eq hs
    exact ⟨rfl, rfl⟩
  | lock held => exact Outcome.ok.inj hs ▸ ⟨rfl, rfl⟩

/-! ### The calls -/

/-- A message leaves the clocks as they are. -/
theorem printf_rtc (d : DeviceState) (text : List UInt8) : (kernelDevices.printf d text).rtc = d.rtc := by
  unfold kernelDevices
  dsimp only

/-- Opening a file leaves the clock's registers and rates. -/
theorem openFunc_rtc {d : DeviceState} {p : PCB} {filename : CPtr} {out : CallOut DeviceState}
    (h : openFunc img kernelDevices d p filename = some out) : out.dev.rtc = d.rtc := by
  rcases FileDescAux.openFunc_dev h with hd | hd | ⟨text, hd⟩
  · rw [hd]
  · rw [hd]
    rfl
  · rw [hd, printf_rtc]

/-- Closing one leaves them. -/
theorem closeFunc_rtc (d : DeviceState) (p : PCB) (fd : Nat) : (closeFunc kernelDevices d p fd).dev.rtc = d.rtc := by
  rcases FileDescAux.closeFunc_dev kernelDevices d p fd with hd | ⟨text, hd⟩
  · rw [hd]
  · rw [hd, printf_rtc]

/-- Writing on the terminal leaves them. -/
theorem terminalWriteFunc_rtc (d : DeviceState) (bs : List UInt8) (nbytes : Int32) : (terminalWriteFunc d bs nbytes).2.rtc = d.rtc := by
  unfold terminalWriteFunc
  split
  · rfl
  · dsimp only

/-- `rtc_write` through a descriptor that is not in use. -/
theorem rtcWrite_rateWritten {flags : Nat} {bs : List UInt8} {nbytes : Int32} (hflags : flags ≠ inUse) :
    (kernelDevices.rtcWrite s.devices bs nbytes).2.rtc =
      match (if some Fops.rtc = some Fops.rtc ∧ flags ≠ inUse ∧ nbytes.toInt = byte4 ∧ 2 ≤ le32 (cstr bs) 0 ∧ le32 (cstr bs) 0 ≤ 1024 ∧
          le32 (cstr bs) 0 &&& (le32 (cstr bs) 0 - 1) = 0 then some (le32 (cstr bs) 0) else none) with
      | none => s.clocks
      | some f => { s.clocks with
          rtcFreq := Function.update s.kernel.rtcFreq s.kernel.currTerm (1024 / f)
          rtcCounter := Function.update s.kernel.rtcCounter s.kernel.currTerm 0 } := by
  rcases rtcWrite_cases s.clocks (some (cstr bs)) nbytes with ⟨he, hnone⟩ | ⟨f, ⟨-, hset⟩, -, -, -, he⟩
  · rw [if_neg]
    · exact he
    · rintro ⟨-, -, hn, htest⟩
      exact hnone s.clocks.currTerm _ ⟨rfl, Or.inr ⟨cstr bs, nbytes, rfl, hn, rfl, htest⟩⟩
  · rcases hset with ⟨hwrite, -⟩ | ⟨buf, n, hwrite, hn, rfl, htest⟩
    · cases hwrite
    · cases hwrite
      rw [if_pos ⟨rfl, hflags, hn, htest⟩]
      exact he

/-- `write_func` on the clocks, under the test that `rateWritten` makes. -/
theorem writeFunc_rtc {a : Addr} (hcurr : s.kernel.currPcbPtr = some a) (fd : Int) (buf : Option (List UInt8)) (nbytes : Int32) :
    (writeFunc kernelDevices s.devices (s.kernel.pcbs a) fd buf nbytes).dev.rtc =
      match s.rateWritten fd buf nbytes with
      | none => s.clocks
      | some f => { s.clocks with
          rtcFreq := Function.update s.kernel.rtcFreq s.kernel.currTerm (1024 / f)
          rtcCounter := Function.update s.kernel.rtcCounter s.kernel.currTerm 0 } := by
  unfold writeFunc RtcKernel.rateWritten
  rw [hcurr]
  cases fdIndex fd with
  | none => rfl
  | some i =>
    cases hf : ((s.kernel.pcbs a).fdA i).fopsPtr with
    | none => cases buf <;> simp [hf, CallOut.fail, RtcKernel.devices]
    | some fops =>
      cases buf with
      | none => simp [hf, CallOut.fail, RtcKernel.devices]
      | some bs =>
        simp only [hf]
        by_cases hfail : nbytes.toInt ≤ 0 ∨ ((s.kernel.pcbs a).fdA i).flags = inUse
        · rw [if_pos hfail, if_neg]
          · rfl
          · rintro ⟨-, hflags, hn, -⟩
            rcases hfail with hneg | hclosed
            · rw [hn] at hneg
              exact absurd hneg (by decide)
            · exact hflags hclosed
        · rw [if_neg hfail]
          push Not at hfail
          cases fops with
          | rtc => exact rtcWrite_rateWritten hfail.2
          | stdin => rw [if_neg (by simp)]; rfl
          | stdout =>
            rw [if_neg (by simp)]
            exact terminalWriteFunc_rtc s.devices bs nbytes
          | dir => rw [if_neg (by simp)]; rfl
          | file => rw [if_neg (by simp)]; rfl

/-- A call that returns has a program, and the clocks its device leaves. -/
theorem call_ok {c : Call} (hs : s.call img c = .ok s') :
    ∃ a out, s.kernel.currPcbPtr = some a ∧ c.out img kernelDevices s.devices (s.kernel.pcbs a) = some out ∧
      s'.kernel.rtcFreq = out.dev.rtc.rtcFreq ∧ s'.kernel.rtcCounter = out.dev.rtc.rtcCounter := by
  unfold RtcKernel.call at hs
  cases hcurr : s.kernel.currPcbPtr with
  | none =>
    rw [hcurr] at hs
    cases hs
  | some a =>
    simp only [hcurr] at hs
    cases hout : c.out img kernelDevices s.devices (s.kernel.pcbs a) with
    | none =>
      rw [hout] at hs
      cases hs
    | some out =>
      simp only [hout, Outcome.ok.injEq] at hs
      subst hs
      exact ⟨a, out, rfl, hout, rfl, rfl⟩

/-- A call that leaves the clocks of the devices leaves those of the kernel. -/
theorem sameClocks_call {out : CallOut DeviceState} (hfreq : s'.kernel.rtcFreq = out.dev.rtc.rtcFreq)
    (hcounter : s'.kernel.rtcCounter = out.dev.rtc.rtcCounter) (hrtc : out.dev.rtc = s.clocks) : SameClocks s.kernel s'.kernel := by
  rw [hrtc] at hfreq hcounter
  exact ⟨hfreq, hcounter⟩

/-! ### The rate through a run -/

/-- The rate last set on a terminal is its divisor's, and every clock goes round. -/
structure RateIs (t : Term) (f : Nat) (s : RtcKernel) : Prop where
  rate : f * s.kernel.rtcFreq t = 1024
  clocks : ∀ u, ClockOk s.clocks u

/-- The clocks of two states are the same. -/
theorem RateIs.same (h : RateIs t f s) (hsame : SameClocks s.kernel s'.kernel) : RateIs t f s' := by
  refine ⟨by rw [hsame.freq]; exact h.rate, fun u => ⟨?_, ?_⟩⟩
  · obtain ⟨i, hi, hfreq⟩ := (h.clocks u).freq
    exact ⟨i, hi, (congrFun hsame.freq u).trans hfreq⟩
  · have hcounter := (h.clocks u).counter
    exact (congrFun hsame.counter u).trans_lt (hcounter.trans_eq (congrFun hsame.freq u).symm)

/-- The running terminal is set to a rate that `rtc_write` takes. -/
theorem RateIs.set (h : RateIs t f s) {g : Nat} (hlow : 2 ≤ g) (hhigh : g ≤ 1024) (hpow : g &&& (g - 1) = 0)
    (hfreq : s'.kernel.rtcFreq = Function.update s.kernel.rtcFreq s.kernel.currTerm (1024 / g))
    (hcounter : s'.kernel.rtcCounter = Function.update s.kernel.rtcCounter s.kernel.currTerm 0) :
    RateIs t (if s.kernel.currTerm = t then g else f) s' := by
  obtain ⟨hrate, i, hi, hdiv⟩ := freq_of_check g (by omega) hlow hpow
  refine ⟨?_, fun u => ?_⟩
  · rw [hfreq]
    split
    · rename_i ht
      rw [ht, Function.update_self]
      exact hrate
    · rename_i ht
      rw [Function.update_of_ne (Ne.symm ht)]
      exact h.rate
  · have hclock := clock_setRate (u := s.kernel.currTerm) (h.clocks u) (Nat.le_of_lt_succ hi) hdiv
    refine ⟨?_, ?_⟩
    · obtain ⟨j, hj, hval⟩ := hclock.freq
      exact ⟨j, hj, (congrFun hfreq u).trans hval⟩
    · exact (congrFun hcounter u).trans_lt (hclock.counter.trans_eq (congrFun hfreq u).symm)

/-- A step that sets no rate keeps the one set last. -/
theorem rateAfter_none (h : s.setRate e = none) : rateAfter t s f e = f := by
  unfold rateAfter
  rw [h, Option.getD_none, ite_self]

/-- A step that sets a rate sets the running terminal's. -/
theorem rateAfter_some {g : Nat} (h : s.setRate e = some g) : rateAfter t s f e = if s.kernel.currTerm = t then g else f := by
  unfold rateAfter
  rw [h, Option.getD_some]

/-- A rate written is a power of two between 2 and 1024. -/
theorem rateWritten_check {fd : Int} {buf : Option (List UInt8)} {nbytes : Int32} {g : Nat}
    (h : s.rateWritten fd buf nbytes = some g) : 2 ≤ g ∧ g ≤ 1024 ∧ g &&& (g - 1) = 0 := by
  unfold RtcKernel.rateWritten at h
  split at h
  · dsimp only at h
    split at h
    · rename_i htest
      rw [Option.some.injEq] at h
      exact h ▸ htest.2.2.2
    · cases h
  · cases h

/-- An interrupt moves the counters and sets no rate. -/
theorem rateIs_irq (h : RateIs t f s) (hs : rtcKernelStep img s .irq = .ok s') :
    RateIs t f s' ∧ Interrupted s.clocks s'.clocks := by
  obtain ⟨k, he, hint, hok⟩ := rtcIrqHandler_eq h.clocks
  rw [rtcKernelStep, he] at hs
  simp only [Outcome.ok.injEq] at hs
  subst hs
  exact ⟨⟨(congrArg (f * ·) (congrFun hint.freq t)).trans h.rate, fun u => ⟨(hok u).freq, (hok u).counter⟩⟩,
    ⟨hint.freq, hint.counter, hint.raised, hint.rtcInt⟩⟩

/-- The rate a step of the kernel sets is the default one. -/
theorem setRate_kernel {e : Event} (h : s.setRate (.kernel e) ≠ none) : s.setRate (.kernel e) = some 2 := by
  unfold RtcKernel.setRate at h ⊢
  cases e with
  | halt status r =>
    dsimp only at h ⊢
    split at h
    · rename_i hparent
      rw [if_pos hparent]
    · exact absurd rfl h
  | _ => exact absurd rfl h

/-- A step of the kernel keeps the account of the rate. -/
theorem rateIs_kernel {e : Event} (h : RateIs t f s) (hs : rtcKernelStep img s (.kernel e) = .ok s') :
    RateIs t (rateAfter t s f (.kernel e)) s' := by
  rw [rtcKernelStep] at hs
  cases hk : step img s.kernel e with
  | stop r k =>
    rw [hk] at hs
    cases hs
  | ok k =>
    simp only [hk, Outcome.ok.injEq] at hs
    subst hs
    by_cases hhalt : ∃ status r, e = .halt status r
    · obtain ⟨status, r, rfl⟩ := hhalt
      rw [step] at hk
      have hclocks := clocks_halt hk
      by_cases hparent : (s.kernel.currPcbPtr.bind (fun a => (s.kernel.pcbs a).parent)).isSome
      · rw [if_pos hparent] at hclocks
        rw [rateAfter_some (s := s) (e := .kernel (.halt status r)) (if_pos hparent)]
        exact h.set (by decide) (by decide) (by decide) hclocks.1 hclocks.2
      · rw [if_neg hparent] at hclocks
        rw [rateAfter_none (s := s) (e := .kernel (.halt status r)) (if_neg hparent)]
        exact h.same hclocks
    · push Not at hhalt
      have hnone : s.setRate (.kernel e) = none := by
        cases e with
        | halt status r => exact absurd rfl (hhalt status r)
        | _ => rfl
      rw [rateAfter_none hnone]
      exact h.same (sameClocks_step hhalt hk)

/-- A step leaves the rate last set. -/
theorem rateIs_step (h : RateIs t f s) (hs : rtcKernelStep img s e = .ok s') : RateIs t (rateAfter t s f e) s' := by
  cases e with
  | kernel e => exact rateIs_kernel h hs
  | «open» filename =>
    rw [rtcKernelStep] at hs
    obtain ⟨a, out, -, hout, hfreq, hcounter⟩ := call_ok hs
    have hrtc := openFunc_rtc hout
    rw [rateAfter_none rfl]
    exact h.same (sameClocks_call hfreq hcounter hrtc)
  | close fd =>
    rw [rtcKernelStep] at hs
    obtain ⟨a, out, -, hout, hfreq, hcounter⟩ := call_ok hs
    rw [Call.out, Option.some.injEq] at hout
    have hrtc := closeFunc_rtc s.devices (s.kernel.pcbs a) fd
    rw [hout] at hrtc
    rw [rateAfter_none rfl]
    exact h.same (sameClocks_call hfreq hcounter hrtc)
  | write fd buf nbytes =>
    rw [rtcKernelStep] at hs
    obtain ⟨a, out, hcurr, hout, hfreq, hcounter⟩ := call_ok hs
    rw [Call.out, Option.some.injEq] at hout
    have hrtc := writeFunc_rtc hcurr fd buf nbytes
    rw [hout] at hrtc
    cases hset : s.rateWritten fd buf nbytes with
    | none =>
      rw [hset] at hrtc
      rw [rateAfter_none (s := s) (e := .write fd buf nbytes) hset]
      exact h.same (sameClocks_call hfreq hcounter hrtc)
    | some g =>
      rw [hset] at hrtc
      obtain ⟨hlow, hhigh, hpow⟩ := rateWritten_check hset
      rw [rateAfter_some (s := s) (e := .write fd buf nbytes) hset]
      exact h.set hlow hhigh hpow (by rw [hfreq, hrtc]) (by rw [hcounter, hrtc])
  | rtcRead =>
    rw [rtcKernelStep, Outcome.ok.injEq] at hs
    subst hs
    rw [rateAfter_none rfl]
    exact h.same ⟨rfl, rfl⟩
  | irq =>
    rw [rateAfter_none rfl]
    exact (rateIs_irq h hs).1

/-- A run leaves the rate last set. -/
theorem rateIs_run {es : List RtcKernelEvent} (h : RateIs t f s) (hrun : run (rtcKernelStep img) s es = .ok s') :
    RateIs t (lastRate img t s f es) s' := by
  induction es generalizing s f with
  | nil =>
    rw [run, Outcome.ok.injEq] at hrun
    exact hrun ▸ h
  | cons e es ih =>
    rw [run_cons, Outcome.andThen_eq_ok] at hrun
    obtain ⟨s₁, hs, hes⟩ := hrun
    have hrate := ih (rateIs_step h hs) hes
    rw [lastRate, hs]
    exact hrate

/-- At boot every rate is the default. -/
theorem rateIs_boot (t : Term) (m : CPtr) (p : Addr → PCB) : RateIs t 2 (bootRtc m p) :=
  ⟨rfl, fun _ => ⟨⟨9, Nat.le_refl 9, rfl⟩, Nat.zero_lt_succ 511⟩⟩

/-! ### The rate after an open -/

/-- Without a successful write the default rate stays. -/
theorem rateAfter_default (hw : NoRateWritten t s e) : rateAfter t s 2 e = 2 := by
  by_cases ht : s.kernel.currTerm = t
  · cases e with
    | kernel e =>
      by_cases hset : s.setRate (.kernel e) = none
      · exact rateAfter_none hset
      · have htwo : s.setRate (.kernel e) = some 2 := setRate_kernel hset
        rw [rateAfter_some htwo, if_pos ht]
    | write fd buf nbytes => exact rateAfter_none (hw ht)
    | «open» filename => exact rateAfter_none rfl
    | close fd => exact rateAfter_none rfl
    | rtcRead => exact rateAfter_none rfl
    | irq => exact rateAfter_none rfl
  · unfold rateAfter
    rw [if_neg ht]

/-- A terminal on which no rate is written stays at the default. -/
theorem rateIs_run_default {es : List RtcKernelEvent} (h : RateIs t 2 s) (hm : Meets (rtcKernelStep img) (NoRateWritten t) s es)
    (hrun : run (rtcKernelStep img) s es = .ok s') : RateIs t 2 s' := by
  refine run_invariant_of_meets (fun s e s' hrate hw hs => ?_) h hm hrun
  have hafter := rateIs_step hrate hs
  rwa [rateAfter_default hw] at hafter

/-- A clock set to two ticks a second, at an interrupt. -/
theorem atDefaultRate (h : RateIs t 2 s) : AtDefaultRate img t s := by
  have hfreq : s.kernel.rtcFreq t = defaultFreq := by
    have hrate := h.rate
    rw [defaultFreq]
    omega
  refine ⟨hfreq, fun s' hs => ?_⟩
  obtain ⟨-, hint⟩ := rateIs_irq h hs
  rw [← hfreq]
  exact ⟨hint.counter t, hint.raised t⟩

/-- Two accounts of a rate at its default agree. -/
theorem rateIs_of_atDefaultRate (h : RateIs t f s) (hdefault : AtDefaultRate img t s) : f = 2 := by
  have hrate := h.rate
  rw [hdefault.freq, defaultFreq] at hrate
  omega

/-- An open that reaches `rtc_open` succeeds. -/
theorem step_opensRtc {filename : CPtr} {a : Addr} {d : Dentry} {i : Fin 8} (h : OpensRtc img s.kernel filename a d i) :
    ∃ s₁, rtcKernelStep img s (.open filename) = .ok s₁ ∧ ((s₁.kernel.pcbs a).fdA i).fopsPtr = some .rtc := by
  have hroom : (s.kernel.pcbs a).fdTotalOpen < 7 := h.room
  obtain ⟨dev, hout⟩ := FileDescAux.openFunc_of_found kernelDevices s.devices hroom h.named h.closed (Or.inl h.rtc)
  have hcall : (Call.open filename).out img kernelDevices s.devices (s.kernel.pcbs a) = some
      { ret := i.val, bytes := [], pcb := FileDescAux.opened (s.kernel.pcbs a) i d, dev := dev } := hout
  refine ⟨{ s.setClocks dev.rtc with
    kernel := { (s.setClocks dev.rtc).kernel with toConsole := dev.console }.modifyPCB a
      (fun _ => FileDescAux.opened (s.kernel.pcbs a) i d) }, ?_, ?_⟩
  · rw [rtcKernelStep, RtcKernel.call, h.runs]
    simp only [hcall]
  · simp only [Kernel.modifyPCB, Function.update_self, FileDescAux.opened_fdA_self, openedFd, h.rtc]

end RtcOpeningAux

open RtcOpeningAux

/-- A program that opens the clock finds two ticks a second, and keeps them until its terminal's next successful `rtc_write`, exactly
when no other rate was the last one set on the terminal before. -/
theorem rtc_open_default_rate_iff (img : Image) (m : CPtr) (p : Addr → PCB) {before : List RtcKernelEvent} {s : RtcKernel}
    (hrun : run (rtcKernelStep img) (bootRtc m p) before = .ok s) {filename : CPtr} {a : Addr} {d : Dentry} {i : Fin 8}
    (hopens : OpensRtc img s.kernel filename a d i) :
    ∃ s₁, rtcKernelStep img s (.open filename) = .ok s₁ ∧ ((s₁.kernel.pcbs a).fdA i).fopsPtr = some .rtc ∧
      ((∀ after s₂, run (rtcKernelStep img) s₁ after = .ok s₂ →
          Meets (rtcKernelStep img) (NoRateWritten s.kernel.currTerm) s₁ after → AtDefaultRate img s.kernel.currTerm s₂) ↔
        lastRate img s.kernel.currTerm (bootRtc m p) 2 before = 2) := by
  obtain ⟨s₁, hopen, hrtc⟩ := step_opensRtc hopens
  refine ⟨s₁, hopen, hrtc, ?_⟩
  have hbefore := rateIs_run (rateIs_boot s.kernel.currTerm m p) hrun
  have hrate := rateIs_step hbefore hopen
  rw [rateAfter_none rfl] at hrate
  constructor
  · intro hall
    exact rateIs_of_atDefaultRate hrate (hall [] s₁ rfl trivial)
  · intro hlast after s₂ hafter hm
    rw [hlast] at hrate
    exact atDefaultRate (rateIs_run_default hrate hm hafter)

/-- The image of one shell, with the file of the clock. -/
def rtcImage : Image := Image.ofParts ((0, [2]) :: (128, ascii "rtc") :: shellImageParts)

def rtcName : CPtr := cstr (ascii "rtc")

/-- A shell starts, as the first program or as the child of the one running. -/
def shellStarts : RtcKernelEvent := .kernel (.execute shellCommand zeroResidue)

/-- A shell that opens the clock, sets 1024 ticks a second, and starts another shell. -/
def fastParent : List RtcKernelEvent := [shellStarts, .open rtcName, .write 2 (some [0, 4, 0, 0]) 4, shellStarts]

/-- The machine after events, from a memory of zeros. -/
def rtcRun (es : List RtcKernelEvent) : Outcome RtcKernelStop RtcKernel :=
  run (rtcKernelStep rtcImage) (bootRtc (fun _ => 0) (fun _ => rootShellPCB)) es

namespace RtcOpeningAux

/-- Whoever runs in a listed run, with its third descriptor closed, can open the clock. -/
theorem opensRtc_of_run {s : RtcKernel} {a : Addr} (hcurr : s.kernel.currPcbPtr = some a)
    (hroom : (s.kernel.pcbs a).fdTotalOpen < maxFd - 1) (hfree : findClosed (s.kernel.pcbs a).fdA = some 2) :
    ∃ d, OpensRtc rtcImage s.kernel rtcName a d 2 := by
  have hsome : (readDentryByName rtcImage rtcName).map Dentry.fileType = some 0 := by decide +kernel
  obtain ⟨d, hd, htype⟩ := Option.map_eq_some_iff.mp hsome
  exact ⟨d, hcurr, hroom, hd, htype, hfree⟩

end RtcOpeningAux

/-- The first shell opens the clock at two ticks a second. -/
theorem rtc_open_default_rate_iff_firstShell :
    ∃ s₁, rtcKernelStep rtcImage (rtcRun [shellStarts]).state (.open rtcName) = .ok s₁ ∧
      AtDefaultRate rtcImage (rtcRun [shellStarts]).state.kernel.currTerm s₁ := by
  have hrun : rtcRun [shellStarts] = .ok (rtcRun [shellStarts]).state := Outcome.eq_ok_of_isOk (by decide +kernel)
  have hcurr : (rtcRun [shellStarts]).state.kernel.currPcbPtr = some (pidToPCBAddr 0 0) := by decide +kernel
  obtain ⟨d, hopens⟩ := opensRtc_of_run hcurr (by decide +kernel) (by decide +kernel)
  obtain ⟨s₁, hopen, -, hiff⟩ := rtc_open_default_rate_iff rtcImage (fun _ => 0) (fun _ => rootShellPCB) hrun hopens
  exact ⟨s₁, hopen, hiff.mpr (by decide +kernel) [] s₁ rfl trivial⟩

/-- A shell whose parent has set 1024 ticks a second opens the clock, and its terminal ticks at every interrupt. -/
theorem fastParent_kept :
    ∃ s s₁ a d i, rtcRun fastParent = .ok s ∧ OpensRtc rtcImage s.kernel rtcName a d i ∧
      rtcKernelStep rtcImage s (.open rtcName) = .ok s₁ ∧ ¬AtDefaultRate rtcImage s.kernel.currTerm s₁ := by
  have hrun : rtcRun fastParent = .ok (rtcRun fastParent).state := Outcome.eq_ok_of_isOk (by decide +kernel)
  have hcurr : (rtcRun fastParent).state.kernel.currPcbPtr = some (pidToPCBAddr 1 0) := by decide +kernel
  obtain ⟨d, hopens⟩ := opensRtc_of_run hcurr (by decide +kernel) (by decide +kernel)
  obtain ⟨s₁, hopen, -⟩ := step_opensRtc hopens
  refine ⟨_, s₁, _, d, 2, hrun, hopens, hopen, fun hdefault => ?_⟩
  have hfreq : (rtcKernelStep rtcImage (rtcRun fastParent).state (.open rtcName)).state.kernel.rtcFreq 0 = 1 := by decide +kernel
  have hterm : (rtcRun fastParent).state.kernel.currTerm = 0 := by decide +kernel
  have hkept := hdefault.freq
  rw [hopen, Outcome.state_ok] at hfreq
  rw [hterm, hfreq] at hkept
  exact absurd hkept (by decide)

end ThreeTermOS
