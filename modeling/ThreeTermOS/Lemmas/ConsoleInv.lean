import ThreeTermOS.Lemmas.ConsoleEvents
import ThreeTermOS.Lemmas.Output

/-!
# The consoles the kernel reaches

Between steps no output is under way, and the cursors of the three terminals lie on their screens.
-/

namespace ThreeTermOS

open Runs Screens

/-- Every cursor lies on its screen. -/
structure OnScreen (k : Console) : Prop where
  x : ∀ t, k.termX t < numCols
  y : ∀ t, k.termY t < numRows

/-- No output under way, and every cursor on its screen. -/
structure ConsoleOk (k : Console) : Prop where
  quiet : Quiet k
  x : ∀ t, k.termX t < numCols
  y : ∀ t, k.termY t < numRows

/-- Between calls the cursors lie on their screens. -/
theorem ConsoleOk.onScreen {k : Console} (h : ConsoleOk k) : OnScreen k := ⟨h.x, h.y⟩

namespace ConsoleInvAux

open OutputAux

variable {k k' : Console} {s : TextScreen}

/-- Every terminal shows a screen. -/
theorem exists_shows (h : OnScreen k) (t : Term) : ∃ s, Shows k t s :=
  ⟨{ cell := cells k.mem (k.screenBase t), x := ⟨k.termX t, h.x t⟩, y := ⟨k.termY t, h.y t⟩ }, rfl, rfl, rfl⟩

/-- A console that shows a screen on every terminal has its cursors on them. -/
theorem onScreen_of_shows (h : ∀ t, ∃ s, Shows k t s) : OnScreen k := by
  refine ⟨fun t => ?_, fun t => ?_⟩
  · obtain ⟨s, hs⟩ := h t
    rw [hs.x]
    exact s.x.isLt
  · obtain ⟨s, hs⟩ := h t
    rw [hs.y]
    exact s.y.isLt

/-- What acts on one screen leaves every cursor on its own. -/
theorem onScreen_of_acts (h : OnScreen k) {t : Term} {s' : TextScreen} (ha : Acts k k' t s') : OnScreen k' := by
  refine onScreen_of_shows (fun u => ?_)
  by_cases hu : u = t
  · exact ⟨s', hu ▸ ha.own⟩
  · obtain ⟨s, hs⟩ := exists_shows h u
    exact ⟨s, ha.others u hu s hs⟩

/-- An action on one screen that leaves the flags quiet keeps the invariant. -/
theorem consoleOk_of_acts (h : ConsoleOk k) {t : Term} {s' : TextScreen} (ha : Acts k k' t s') (hq : Quiet k') : ConsoleOk k' := by
  have hon := onScreen_of_acts h.onScreen ha
  exact ⟨hq, hon.x, hon.y⟩

/-- Printing keeps it. -/
theorem consoleOk_of_prints {bytes : List UInt8} (h : ConsoleOk k) (hp : Prints k k' bytes) : ConsoleOk k' := by
  obtain ⟨s, hs⟩ := exists_shows h.onScreen k.currTerm
  exact consoleOk_of_acts h (hp.acts s hs) (h.quiet.congr hp.flags)

/-- `terminal_write` keeps it. -/
theorem consoleOk_write (h : ConsoleOk k) (bytes : List UInt8) : ConsoleOk (terminalWrite k bytes) := by
  obtain ⟨s, hs⟩ := exists_shows h.onScreen k.currTerm
  exact consoleOk_of_acts h (terminalWrite_acts h.quiet hs bytes) (terminalWrite_quiet h.quiet bytes)

/-- A key keeps it. -/
theorem consoleOk_key (h : ConsoleOk k) (f : Keys) (c : UInt8) : ConsoleOk (k.key f c) := by
  obtain ⟨s, hs⟩ := exists_shows h.onScreen k.dispTerm
  obtain ⟨s', ha⟩ := exists_key_acts h.quiet.listening.apart h.quiet.fromKB hs f c
  exact consoleOk_of_acts h ha (key_quiet h.quiet f c)

/-- The beginning of a read keeps it. -/
theorem consoleOk_readBegin (h : ConsoleOk k) : ConsoleOk (terminalReadBegin k) := by
  unfold terminalReadBegin terminalResetBuffer Console.setFlags
  refine ⟨⟨fun t => ?_, h.quiet.fromKB⟩, h.x, h.y⟩
  dsimp only
  by_cases ht : t = k.currTerm
  · rw [ht, Function.update_self]
  · rw [Function.update_of_ne ht, h.quiet.write t]

/-- The copy at the end of a read keeps it. -/
theorem consoleOk_readCopy (h : ConsoleOk k) (nbytes : Nat) : ConsoleOk (terminalReadCopy k nbytes).2 :=
  ⟨⟨h.quiet.write, h.quiet.fromKB⟩, h.x, h.y⟩

/-- The switch of the display keeps it. -/
theorem consoleOk_display (h : ConsoleOk k) (dest : Term) : ConsoleOk (k.display dest) := by
  unfold Console.display
  exact ⟨⟨h.quiet.write, h.quiet.fromKB⟩, h.x, h.y⟩

/-- Nothing that happens to a console starts an output and leaves it under way, or moves a cursor off its screen. -/
theorem consoleOk_consoleStep (h : ConsoleOk k) {e : ConsoleEvent} (hs : consoleStep k e = .ok k') : ConsoleOk k' := by
  cases e with
  | key f scancode => exact Outcome.ok.inj hs ▸ consoleOk_key h f scancode
  | write bytes => exact Outcome.ok.inj hs ▸ consoleOk_write h bytes
  | puts s => exact Outcome.ok.inj hs ▸ consoleOk_of_prints h (prints_puts h.quiet.ready _)
  | printf format args => exact Outcome.ok.inj hs ▸ consoleOk_of_prints h (prints_printf h.quiet.ready format args)
  | readBegin => exact Outcome.ok.inj hs ▸ consoleOk_readBegin h
  | readCopy nbytes => exact Outcome.ok.inj hs ▸ consoleOk_readCopy h nbytes
  | run t => exact Outcome.ok.inj hs ▸ ⟨⟨h.quiet.write, h.quiet.fromKB⟩, h.x, h.y⟩
  | display t => exact Outcome.ok.inj hs ▸ consoleOk_display h t
  | updateCursor => exact Outcome.ok.inj hs ▸ ⟨⟨h.quiet.write, h.quiet.fromKB⟩, h.x, h.y⟩
  | memory m => exact Outcome.ok.inj hs ▸ ⟨⟨h.quiet.write, h.quiet.fromKB⟩, h.x, h.y⟩

/-- Any run of the console keeps it. -/
theorem consoleOk_run (h : ConsoleOk k) (hr : ConsoleRun k k') : ConsoleOk k' :=
  hr.invariant (fun _ _ _ hk hs => consoleOk_consoleStep hk hs) h

/-! ### The kernel -/

variable {κ κ' : Kernel} {img : Image}

/-- A step of the kernel is such a run. -/
theorem consoleOk_step (hp : ProcInv κ) (h : ConsoleOk κ.toConsole) {e : Event} (hs : step img κ e = .ok κ') :
    ConsoleOk κ'.toConsole :=
  consoleOk_run h (ConsoleEventsAux.consoleRun_step hp hs)

/-- It holds at boot. -/
theorem consoleOk_boot (m : CPtr) (p : Addr → PCB) : ConsoleOk (boot m p).toConsole := by
  unfold boot
  exact ⟨⟨fun _ => rfl, rfl⟩, fun _ => by dsimp only; decide, fun _ => by dsimp only; decide⟩

/-- It holds in every state the kernel reaches. -/
theorem consoleOk_reachable {m : CPtr} {p : Addr → PCB} (hr : Reachable (step img) (boot m p) κ) : ConsoleOk κ.toConsole :=
  consoleOk_run (consoleOk_boot m p) (ConsoleEventsAux.consoleRun_reachable hr)

/-- From the first shell on, the consoles are right. -/
theorem consoleOk_running {κ₀ : Kernel} (h₀ : FirstShell img κ₀) (hr : Reachable (step img) κ₀ κ) : ConsoleOk κ.toConsole := by
  obtain ⟨m, p, hboot⟩ := ProcessAux.reachable_boot h₀ hr
  exact consoleOk_reachable hboot

end ConsoleInvAux

end ThreeTermOS
