import ThreeTermOS.Lemmas.Input

/-!
# Steps of the kernel, as far as the lines go

With each program in turn, a step leaves every line and every read alone, or is a key, or the output, the poll, the start or the copy
of the running program. Between reads a line stays empty.
-/

namespace ThreeTermOS

open Bytes Runs

/-- A program that is in `terminal_read` polls and copies and makes no other call, and one that is not does neither. The messages the
kernel prints in a program's calls and exceptions have formats of less than a line. -/
def InTurn (k : Kernel) : Event → Prop
  | .schedule _ _ => True
  | .switchTerminals _ _ => True
  | .key _ _ => True
  | .lock _ => True
  | .readPoll => k.readFlag k.currTerm = true
  | .readCopy _ => k.readFlag k.currTerm = true
  | .printf format _ => k.readFlag k.currTerm = false ∧ Short format
  | _ => k.readFlag k.currTerm = false

instance InTurn.decidable (k : Kernel) : (e : Event) → Decidable (InTurn k e)
  | .schedule _ _ | .switchTerminals _ _ | .key _ _ | .lock _ => isTrue trivial
  | .readPoll | .readCopy _ => inferInstanceAs (Decidable (k.readFlag k.currTerm = true))
  | .printf _ _ => inferInstanceAs (Decidable (_ ∧ _))
  | .execute _ _ | .halt _ _ | .write _ | .puts _ | .readBegin | .vidmap _ => inferInstanceAs (Decidable (k.readFlag k.currTerm = false))

/-- What the kernel keeps of every terminal's input while each program waits for its turn. -/
structure InputInv (k : Kernel) : Prop where
  proc : ProcInv k
  console : ConsoleOk k.toConsole
  idle : ∀ t, k.readFlag t = false → k.currIdx t = 0

namespace ReadingAux

open ProcessAux ConsoleInvAux RoutingAux OutputAux InputAux

variable {k k' : Kernel} {img : Image} {r : Residue} {t : Term} {e : Event}

/-! ### Steps, as far as the lines go -/

/-- No terminal's input and no poll changed. -/
structure SameReads (k k' : Kernel) : Prop where
  input : ∀ t, SameInput k.toConsole k'.toConsole t
  polled : k'.polled = k.polled

/-- The reads of a kernel are its own. -/
theorem SameReads.refl (k : Kernel) : SameReads k k := ⟨fun t => SameInput.refl _ t, rfl⟩

/-- They stay over two changes in a row. -/
theorem SameReads.trans {k'' : Kernel} (h : SameReads k k') (h' : SameReads k' k'') : SameReads k k'' :=
  ⟨fun t => (h.input t).trans (h'.input t), h'.polled.trans h.polled⟩

/-- The ways of a step. -/
inductive InputStep (k k' : Kernel) : Event → Prop where
  | same (e : Event) (same : SameReads k k') : InputStep k k' e
  | key (c : UInt8) (r : Residue) (k₁ : Console) (lines : KeyLines k.toConsole (k.keys.update c) c k₁)
      (write : k₁.writeFlag = k.writeFlag) (same : ∀ t, SameInput k₁ k'.toConsole t) (polled : k'.polled = k.polled) :
      InputStep k k' (.key c r)
  | output (e : Event) (turn : k.readFlag k.currTerm = false) (key : ∀ c r, e ≠ .key c r)
      (others : ∀ t, t ≠ k.currTerm → SameInput k.toConsole k'.toConsole t) (idx : k'.currIdx k.currTerm = 0)
      (polled : k'.polled = k.polled) : InputStep k k' e
  | poll (turn : k.readFlag k.currTerm = true)
      (eq : k' = { k with polled := Function.update k.polled k.currTerm (k.polled k.currTerm || k.toConsole.readPoll) }) :
      InputStep k k' .readPoll
  | begin (turn : k.readFlag k.currTerm = false)
      (eq : k' = { k with
        toConsole := terminalReadBegin k.toConsole
        polled := Function.update k.polled k.currTerm false }) : InputStep k k' .readBegin
  | copy (n : Nat) (turn : k.readFlag k.currTerm = true) (polled : k.polled k.currTerm = true)
      (eq : k' = { k with
        toConsole := (terminalReadCopy k.toConsole n).2
        polled := Function.update k.polled k.currTerm false }) : InputStep k k' (.readCopy n)

/-- The messages of `execute_func` are short. -/
theorem checkExecute_message {fileName : CPtr} {message : String} (h : checkExecute img k fileName r = .error message) :
    Short (cstr (ascii message)) := by
  unfold checkExecute checkFile at h
  split at h
  · rw [Except.error.injEq] at h
    subst h
    exact short_cstr (by decide)
  · split at h
    · rw [Except.error.injEq] at h
      subst h
      exact short_cstr (by decide)
    · split at h
      · rw [Except.error.injEq] at h
        subst h
        exact short_cstr (by decide)
      · split at h
        · rw [Except.error.injEq] at h
          subst h
          exact short_cstr (by decide)
        · cases h

/-- A message of the kernel on a terminal with no line begun. -/
theorem outputs_print (h : InputInv k) (hidle : k.readFlag k.currTerm = false) {message : String}
    (hshort : Short (cstr (ascii message))) : Outputs k.toConsole (k.print message).toConsole 0 :=
  outputs_printf h.console.quiet.ready (h.idle _ hidle) hshort _

/-- A message leaves what a read has polled. -/
theorem polled_print (k : Kernel) (message : String) : (k.print message).polled = k.polled := by
  unfold Kernel.print
  dsimp only

/-- A program started leaves the consoles as they are. -/
theorem sameReads_started {command : CPtr} (h : executeFunc img k command r = .started k') : SameReads k k' := by
  obtain ⟨d, m, -, rfl⟩ := started_eq h
  rw [startProgram_eq]
  exact ⟨fun t => ⟨fun _ _ => rfl, rfl, rfl, rfl, rfl⟩, rfl⟩

/-- `do_switch` leaves the reads. -/
theorem sameReads_doSwitch (h : ProcInv k) {dest : Term} (hs : doSwitch img k dest r = .ok k') : SameReads k k' := by
  rcases doSwitch_ok h hs with ⟨n, -, rfl⟩ | ⟨-, he⟩
  · exact ⟨fun t => ⟨fun _ _ => rfl, rfl, rfl, rfl, rfl⟩, rfl⟩
  · have hlaunch : SameReads k (launching k dest) := ⟨fun t => ⟨fun _ _ => rfl, rfl, rfl, rfl, rfl⟩, rfl⟩
    exact hlaunch.trans (sameReads_started he)

/-- The display leaves them. -/
theorem sameReads_displaying (k : Kernel) (dest : Term) : SameReads k (displaying k dest) := by
  unfold displaying switchVidmap switchVidmem
  exact ⟨fun t => ⟨fun _ _ => rfl, rfl, rfl, rfl, rfl⟩, rfl⟩

/-- The lock leaves them. -/
theorem sameReads_lock (k : Kernel) (held : Bool) : SameReads k { k with switchLock := held } :=
  ⟨fun t => SameInput.refl _ t, rfl⟩

/-- `switch_terminals` leaves them. -/
theorem sameReads_switchTerminals (h : ProcInv k) {dest : Nat} (hs : switchTerminals img k dest r = .ok k') : SameReads k k' := by
  rcases switchTerminals_ok hs with rfl | ⟨d, k₁, -, -, -, rfl, ⟨-, hk⟩ | ⟨-, rfl⟩⟩
  · exact SameReads.refl _
  · have hswitch := sameReads_doSwitch (procInv_congr h (sameProcs_displaying k d)) hk
    exact ((sameReads_displaying k d).trans hswitch).trans (sameReads_lock k₁ false)
  · exact (sameReads_displaying k d).trans (sameReads_lock _ false)

/-- A tick leaves them. -/
theorem sameReads_schedule (h : ProcInv k) {dest : Term} (hs : schedule img k dest r = .ok k') : SameReads k k' := by
  rcases schedule_ok hs with rfl | ⟨k₁, -, -, rfl, hk⟩
  · exact SameReads.refl _
  · have hswitch := sameReads_doSwitch (procInv_congr h (sameProcs_lock k true)) hk
    exact ((sameReads_lock k true).trans hswitch).trans (sameReads_lock k₁ false)

/-- A program is executed, or a message printed. -/
theorem inputStep_execute (h : InputInv k) (hidle : k.readFlag k.currTerm = false) {command : CPtr} {f : Kernel → Outcome Stop Kernel}
    (hf : ∀ k₁ k', f k₁ = .ok k' → k' = k₁) (hkey : ∀ c r, e ≠ .key c r) (hs : (executeFunc img k command r).outcome f = .ok k') :
    InputStep k k' e := by
  rcases outcome_eq_ok hs with he | ⟨k₁, he, hk⟩
  · exact .same e (sameReads_started he)
  · have heq := hf k₁ k' hk
    subst heq
    obtain ⟨message, hcheck, rfl⟩ := refused_eq he
    have hout := outputs_print h hidle (checkExecute_message hcheck)
    exact .output e hidle hkey hout.others (Nat.le_zero.mp hout.idx) (polled_print k message)

/-- A process halts: the process below it goes on, or a shell is started again. -/
theorem inputStep_halt (h : InputInv k) (hidle : k.readFlag k.currTerm = false) {status : UInt8}
    (hs : haltFunc img k status r = .ok k') : InputStep k k' (.halt status r) := by
  cases hn : k.nextPId k.currTerm with
  | zero =>
    have hnone : k.currPcbPtr = none := by rw [h.proc.curr, h.proc.tops, hn, Chain.top_zero]
    unfold haltFunc at hs
    simp [hnone] at hs
  | succ n =>
    cases n with
    | zero =>
      rw [haltFunc_root h.proc hn] at hs
      rcases outcome_eq_ok hs with he | ⟨k₁, -, hstop⟩
      · have hshort : Short (cstr (ascii "\nRestart the shell.\n")) := short_cstr (by decide)
        have hdec : Outputs k.toConsole ((decremented k).print "\nRestart the shell.\n").toConsole 0 := outputs_print h hidle hshort
        have hpolled : ((decremented k).print "\nRestart the shell.\n").polled = k.polled := polled_print _ _
        generalize (decremented k).print "\nRestart the shell.\n" = k₁ at he hdec hpolled
        have hstart := sameReads_started he
        refine .output _ hidle (fun c r he => by cases he) (fun t ht => (hdec.others t ht).trans (hstart.input t)) ?_
          (hstart.polled.trans hpolled)
        exact (hstart.input k.currTerm).idx.trans (Nat.le_zero.mp hdec.idx)
      · cases hstop
    | succ n =>
      rw [haltFunc_child h.proc hn, Outcome.ok.injEq] at hs
      subst hs
      exact .same _ ⟨fun t => ⟨fun _ _ => rfl, rfl, rfl, rfl, rfl⟩, rfl⟩

/-- A key acts on the lines, and may go on to switch the displayed terminal. -/
theorem sameReads_key (h : InputInv k) {c : UInt8} (hs : step img k (.key c r) = .ok k') :
    (k.toConsole.key (k.keys.update c) c).writeFlag = k.writeFlag ∧
      (∀ t, SameInput (k.toConsole.key (k.keys.update c) c) k'.toConsole t) ∧ k'.polled = k.polled := by
  have hquiet := key_quiet h.console.quiet (k.keys.update c) c
  refine ⟨?_, ?_⟩
  · funext t
    rw [hquiet.write t, h.console.quiet.write t]
  · rw [step, getCKeyboard_eq] at hs
    split at hs
    · have hswitch := sameReads_switchTerminals (procInv_congr h.proc (sameProcs_keyed k c)) hs
      exact ⟨hswitch.input, hswitch.polled⟩
    · rw [Outcome.ok.injEq] at hs
      subst hs
      exact ⟨fun t => SameInput.refl _ t, rfl⟩

/-- Every step in turn acts on the input one of the ways named. -/
theorem inputStep_step (h : InputInv k) (hturn : InTurn k e) (hs : step img k e = .ok k') : InputStep k k' e := by
  cases e with
  | execute command r =>
    exact inputStep_execute h hturn (fun _ _ hk => (Outcome.ok.inj hk).symm) (fun _ _ he => by cases he) hs
  | halt status r => exact inputStep_halt h hturn hs
  | schedule newTerm r => exact .same _ (sameReads_schedule h.proc hs)
  | switchTerminals dest r => exact .same _ (sameReads_switchTerminals h.proc hs)
  | key c r =>
    obtain ⟨hwrite, hsame, hpolled⟩ := sameReads_key h hs
    exact .key c r _ (key_lines (k.keys.update c) c (fun _ => h.console.quiet.listening)) hwrite hsame hpolled
  | write bytes =>
    rw [step, Outcome.ok.injEq] at hs
    subst hs
    obtain ⟨hothers, hidx, -⟩ := terminalWrite_input h.console.quiet (h.idle _ hturn) bytes
    exact .output _ hturn (fun _ _ he => by cases he) hothers hidx rfl
  | puts s =>
    rw [step, Outcome.ok.injEq] at hs
    subst hs
    have hout := outputs_puts h.console.quiet.ready (Nat.le_of_eq (h.idle _ hturn)) (by decide) (strcpyBytes s)
    exact .output _ hturn (fun _ _ he => by cases he) hout.others (Nat.le_zero.mp hout.idx) rfl
  | printf format args =>
    rw [step, Outcome.ok.injEq] at hs
    subst hs
    have hout := outputs_printf h.console.quiet.ready (h.idle _ hturn.1) hturn.2 args
    exact .output _ hturn.1 (fun _ _ he => by cases he) hout.others (Nat.le_zero.mp hout.idx) rfl
  | readBegin =>
    rw [step, Outcome.ok.injEq] at hs
    exact .begin hturn hs.symm
  | readPoll =>
    rw [step, Outcome.ok.injEq] at hs
    exact .poll hturn hs.symm
  | readCopy n =>
    rw [step] at hs
    split at hs
    · rename_i hpolled
      rw [Outcome.ok.injEq] at hs
      exact .copy n hturn hpolled hs.symm
    · rw [Outcome.ok.injEq] at hs
      exact hs ▸ .same _ (SameReads.refl k)
  | vidmap screenStart =>
    obtain ⟨m, table, rfl⟩ := vidmapFunc_eq hs
    exact .same _ ⟨fun t => ⟨fun _ _ => rfl, rfl, rfl, rfl, rfl⟩, rfl⟩
  | lock held =>
    rw [step, Outcome.ok.injEq] at hs
    exact hs ▸ .same _ (sameReads_lock k held)

/-! ### Between reads -/

/-- A line changed is emptied, or on a terminal that reads. -/
theorem idle_update (h : InputInv k) {u : Term} {n : Nat} (hn : n = 0 ∨ k.readFlag u = true) (hread : k.readFlag t = false) :
    Function.update k.currIdx u n t = 0 := by
  by_cases ht : t = u
  · subst ht
    rw [Function.update_self]
    rcases hn with hzero | htrue
    · exact hzero
    · rw [hread] at htrue
      cases htrue
  · rw [Function.update_of_ne ht]
    exact h.idle t hread

/-- After a key, a terminal in no read has an empty line. -/
theorem idle_keyLines (h : InputInv k) {f : Keys} {c : UInt8} {k₁ : Console} (hl : KeyLines k.toConsole f c k₁)
    (hread : k₁.readFlag t = false) : k₁.currIdx t = 0 := by
  cases hl with
  | none same =>
    rw [same.read] at hread
    rw [same.idx]
    exact h.idle t hread
  | clear key same =>
    rw [same.read] at hread
    rw [same.idx]
    exact idle_update h (Or.inl rfl) hread
  | enter types char same =>
    rw [same.read] at hread
    rw [same.idx]
    exact idle_update h (Or.inl rfl) hread
  | erase types char idx same =>
    rw [same.read] at hread
    rw [same.idx]
    exact idle_update h (Or.inr types.read) hread
  | append types char same =>
    rw [same.read] at hread
    rw [same.idx]
    exact idle_update h (Or.inr types.read) hread

/-- Every step in turn keeps the invariant. -/
theorem inputInv_step (h : InputInv k) (hturn : InTurn k e) (hs : step img k e = .ok k') : InputInv k' := by
  refine ⟨(procInv_step h.proc hs).1, consoleOk_step h.proc h.console hs, fun t hread => ?_⟩
  cases inputStep_step h hturn hs with
  | same e same =>
    have hin := same.input t
    rw [hin.read] at hread
    rw [hin.idx]
    exact h.idle t hread
  | key c r k₁ lines write same polled =>
    have hin := same t
    rw [hin.read] at hread
    rw [hin.idx]
    exact idle_keyLines h lines hread
  | output e turn key others idx polled =>
    by_cases ht : t = k.currTerm
    · rw [ht]
      exact idx
    · have hin := others t ht
      rw [hin.read] at hread
      rw [hin.idx]
      exact h.idle t hread
  | poll turn eq =>
    subst eq
    exact h.idle t hread
  | begin turn eq =>
    subst eq
    by_cases ht : t = k.currTerm
    · rw [ht]
      exact Function.update_self _ _ _
    · exact idle_update h (Or.inl rfl) ((Function.update_of_ne ht _ _).symm.trans hread)
  | copy n turn polled eq =>
    subst eq
    by_cases ht : t = k.currTerm
    · rw [ht]
      exact Function.update_self _ _ _
    · exact idle_update h (Or.inl rfl) ((Function.update_of_ne ht _ _).symm.trans hread)

/-- It holds at boot. -/
theorem inputInv_boot (m : CPtr) (p : Addr → PCB) : InputInv (boot m p) := ⟨procInv_boot m p, consoleOk_boot m p, fun _ _ => rfl⟩

end ReadingAux

end ThreeTermOS
