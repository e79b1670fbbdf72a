import ThreeTermOS.OutputCalls
import ThreeTermOS.Lemmas.ConsoleInv
import ThreeTermOS.Lemmas.VideoMap

/-!
# What the pieces of an output call do

Done one after the other with nothing in between, the pieces of a call are the call. Whatever comes in between, the flags of each
terminal are always those its next piece expects: `FlagsFit`. The states of a session keep the invariants of the kernel besides.
-/

namespace ThreeTermOS

open Runs Screens

/-- The pieces done one after the other, with no interrupt, lead from one console to the other. -/
inductive Completes : Console → List Piece → Console → Prop where
  | done (k : Console) : Completes k [] k
  | piece {k k' : Console} {p : Piece} {ps : List Piece} (rest : Completes (p.next k).1 ((p.next k).2 ++ ps) k') :
      Completes k (p :: ps) k'

/-- The flags of reading and of writing after a piece, but for one that leaves others in its place. -/
def Piece.flagsAfter : Piece → Bool × Bool → Bool × Bool
  | .setFlags, _ => (false, true)
  | .writeFlag b, flags => (flags.1, b)
  | .readFlag b, flags => (b, flags.2)
  | _, flags => flags

/-- Pieces that find these flags of reading and of writing: never both are set, a character is put out with the flags of output, and
in the end none is under way. -/
def FlagsFit : Bool × Bool → List Piece → Prop
  | flags, [] => flags.2 = false
  | flags, p :: ps =>
    (flags.1 = true → flags.2 = false) ∧ (∀ c, p = .putc c → flags = (false, true)) ∧ FlagsFit (p.flagsAfter flags) ps

/-- The flags of a terminal. -/
def Console.flags (k : Console) (t : Term) : Bool × Bool := (k.readFlag t, k.writeFlag t)

/-- A console in which these calls are under way: the cursors lie on their screens, no key is being handled, and each call finds the
flags it expects. -/
structure OutputOk (k : Console) (output : Term → List Piece) : Prop where
  screen : OnScreen k
  fromKB : k.charFromKB = false
  fits : ∀ t, FlagsFit (k.flags t) (output t)

open VideoMapAux in
/-- What holds of a session between any two steps. -/
structure SessionOk (s : Session) : Prop where
  video : VideoInv s.kernel
  displayed : DisplayedStarted s.kernel
  output : OutputOk s.kernel.toConsole s.output

/-- The cursors and the flags are the same in two consoles. -/
structure KeepsOutput (k k' : Console) : Prop where
  x : k'.termX = k.termX
  y : k'.termY = k.termY
  read : k'.readFlag = k.readFlag
  write : k'.writeFlag = k.writeFlag
  fromKB : k'.charFromKB = k.charFromKB

/-- A console keeps its own cursors and flags. -/
theorem KeepsOutput.refl (k : Console) : KeepsOutput k k := ⟨rfl, rfl, rfl, rfl, rfl⟩

/-- They stay over two changes in a row. -/
theorem KeepsOutput.trans {k k' k'' : Console} (h : KeepsOutput k k') (h' : KeepsOutput k' k'') : KeepsOutput k k'' :=
  ⟨h'.x.trans h.x, h'.y.trans h.y, h'.read.trans h.read, h'.write.trans h.write, h'.fromKB.trans h.fromKB⟩

/-- The pieces of one call and then those of another. -/
theorem Completes.append {k k' k'' : Console} {ps ps' : List Piece} (h : Completes k ps k') (h' : Completes k' ps' k'') :
    Completes k (ps ++ ps') k'' := by
  induction h with
  | done k => exact h'
  | piece rest ih =>
    refine .piece ?_
    have hrest := ih h'
    rw [List.append_assoc] at hrest
    exact hrest

namespace OutputCallsAux

open ProcessAux RoutingAux OutputAux ScreensAux ConsoleInvAux

variable {k k' : Console} {p : Piece} {ps : List Piece} {t : Term}

/-! ### A call with nothing in between -/

/-- No piece changes the terminals shown and running. -/
theorem next_sameTerms (k : Console) (p : Piece) : k.SameTerms (p.next k).1 := by
  cases p with
  | setFlags => exact ⟨rfl, rfl⟩
  | check => exact Console.SameTerms.refl k
  | reset => exact ⟨rfl, rfl⟩
  | putc c => exact TerminalAux.terminalPutc_sameTerms k c
  | puts s => exact Console.SameTerms.refl k
  | writeFlag b => exact ⟨rfl, rfl⟩
  | readFlag b => exact ⟨rfl, rfl⟩

/-- A piece that leaves nothing in its place. -/
theorem completes_cons (hnone : (p.next k).2 = []) (h : Completes (p.next k).1 ps k') : Completes k (p :: ps) k' := by
  refine .piece ?_
  rw [hnone]
  exact h

/-- The reset before a character, if one is due. -/
theorem completes_reset {q : Prop} [Decidable q] (h : Completes (if q then terminalResetBuffer k else k) ps k') :
    Completes k ((if q then [.reset] else []) ++ ps) k' := by
  by_cases hq : q
  · rw [if_pos hq] at h ⊢
    exact completes_cons rfl h
  · rw [if_neg hq] at h ⊢
    exact h

/-- The pieces of the loop of `terminal_write` are the loop. -/
theorem completes_writeLoop (bytes : List UInt8) :
    ∀ k, Completes k (bytes.flatMap (fun c => [.check, .putc c])) (terminalWriteLoop k bytes) := by
  induction bytes with
  | nil => exact fun k => .done k
  | cons c bytes ih =>
    intro k
    rw [List.flatMap_cons, terminalWriteLoop]
    refine .piece (completes_reset ?_)
    exact completes_cons rfl (ih _)

/-- The pieces of `terminal_write` are `terminal_write`. -/
theorem completes_write (k : Console) (bytes : List UInt8) : Completes k (terminalWritePieces bytes) (terminalWrite k bytes) := by
  refine completes_cons rfl ((completes_writeLoop bytes _).append ?_)
  exact completes_cons rfl (completes_cons rfl (.done _))

/-- A loop between the flags set and set back. -/
theorem completes_framed {loop : List Piece} (h : Completes (k.setFlags false true) loop k') :
    Completes k (k.framed loop) ((terminalResetBuffer k').setFlags (k.readFlag k.currTerm) (k.writeFlag k.currTerm)) := by
  refine completes_cons rfl (h.append ?_)
  exact completes_cons rfl (completes_cons rfl (completes_cons rfl (.done _)))

/-- The pieces of the loop of `terminal_puts` are the loop. -/
theorem completes_putsLoop (s : List UInt8) : ∀ k index, Completes k (terminalPutsPieces s index) (terminalPutsLoop k s index) := by
  induction s with
  | nil => exact fun k _ => .done k
  | cons c s ih =>
    intro k index
    rw [terminalPutsPieces, terminalPutsLoop]
    exact completes_reset (completes_cons rfl (ih _ (index + 1)))

/-- A piece that is a call of `terminal_puts`. -/
theorem completes_puts {s : List UInt8} (h : Completes (terminalPuts k s) ps k') : Completes k (.puts s :: ps) k' :=
  .piece ((completes_framed (completes_putsLoop s _ 0)).append h)

/-- The pieces of the loop of `terminal_printf` are the loop, from any character of the format on. -/
theorem completes_printfLoop (format : CPtr) (args : Nat → PrintfArg) (fuel : Nat) : ∀ k conv buf esp,
    Completes k (terminalPrintfPieces format args fuel conv buf esp) (terminalPrintfLoop format args fuel k conv buf esp).1 := by
  induction fuel with
  | zero => exact fun k _ _ _ => .done k
  | succ fuel ih =>
    intro k conv buf esp
    cases conv with
    | none =>
      rw [terminalPrintfPieces, terminalPrintfLoop]
      by_cases hend : format buf = 0
      · rw [if_pos hend, if_pos hend]
        exact .done k
      · rw [if_neg hend, if_neg hend]
        by_cases hconv : format buf = 0x25
        · rw [if_pos hconv, if_pos hconv]
          exact completes_reset (ih _ _ _ _)
        · rw [if_neg hconv, if_neg hconv]
          exact completes_reset (completes_cons rfl (ih _ _ _ _))
    | some alternate =>
      rw [terminalPrintfPieces, terminalPrintfLoop]
      by_cases h1 : format buf = 0x25
      · rw [if_pos h1, if_pos h1]
        exact completes_cons rfl (ih _ _ _ _)
      · rw [if_neg h1, if_neg h1]
        by_cases h2 : format buf = 0x23
        · rw [if_pos h2, if_pos h2]
          exact ih _ _ _ _
        · rw [if_neg h2, if_neg h2]
          by_cases h3 : format buf = 0x78 ∨ format buf = 0x75 ∨ format buf = 0x64 ∨ format buf = 0x73
          · rw [if_pos h3, if_pos h3]
            exact completes_puts (ih _ _ _ _)
          · rw [if_neg h3, if_neg h3]
            by_cases h4 : format buf = 0x63
            · rw [if_pos h4, if_pos h4]
              exact completes_cons rfl (ih _ _ _ _)
            · rw [if_neg h4, if_neg h4]
              exact ih _ _ _ _

/-- The pieces of `terminal_printf` are `terminal_printf`. -/
theorem completes_printf (k : Console) (format : CPtr) (args : Nat → PrintfArg) :
    Completes k (k.framed (terminalPrintfPieces format args addressSpace none 0 0)) (terminalPrintf k format args).1 :=
  completes_framed (completes_printfLoop format args addressSpace _ none 0 0)

/-! ### The kernel's steps as runs of a session -/

variable {κ κ' : Kernel} {s s' : Session} {img : Image}

/-- A call with a piece to do does it. -/
theorem goOn_cons (h : s.output s.kernel.currTerm = p :: ps) : s.goOn =
    { kernel := { s.kernel with toConsole := (p.next s.kernel.toConsole).1 }
      output := Function.update s.output s.kernel.currTerm ((p.next s.kernel.toConsole).2 ++ ps) } := by
  unfold Session.goOn
  rw [h]

/-- With no call under way nothing happens. -/
theorem goOn_nil (h : s.output s.kernel.currTerm = []) : s.goOn = s := by
  unfold Session.goOn
  rw [h]

/-- A call goes on to its end when nothing comes in between. -/
theorem reachable_completes (h : Completes k ps k') : ∀ {κ : Kernel} {output : Term → List Piece}, κ.toConsole = k →
    output κ.currTerm = ps → Reachable (sessionStep img) ⟨κ, output⟩
      ⟨{ κ with toConsole := k' }, Function.update output κ.currTerm []⟩ := by
  induction h with
  | done k =>
    rintro κ output rfl hnone
    rw [← hnone, Function.update_eq_self]
    exact Reachable.refl _
  | @piece k k' p ps rest ih =>
    rintro κ output rfl hps
    have hstep : sessionStep img ⟨κ, output⟩ .goOn = .ok ⟨{ κ with toConsole := (p.next κ.toConsole).1 },
        Function.update output κ.currTerm ((p.next κ.toConsole).2 ++ ps)⟩ := congrArg Outcome.ok (goOn_cons hps)
    have hcurr := (next_sameTerms κ.toConsole p).curr
    have hleft : Function.update output κ.currTerm ((p.next κ.toConsole).2 ++ ps) (p.next κ.toConsole).1.currTerm =
        (p.next κ.toConsole).2 ++ ps := by
      rw [hcurr, Function.update_self]
    have hrest := @ih { κ with toConsole := (p.next κ.toConsole).1 } _ rfl hleft
    dsimp only at hrest
    rw [hcurr, Function.update_idem] at hrest
    exact ((Reachable.refl _).snoc hstep).trans hrest

/-- What a step of the kernel does that is an output call. -/
theorem step_pieces {e : Event} (hp : e.pieces img κ = some ps) (hs : step img κ e = .ok κ') :
    ∃ k', Completes κ.toConsole ps k' ∧ κ' = { κ with toConsole := k' } := by
  cases e with
  | write bytes =>
    cases hp
    rw [step, Outcome.ok.injEq] at hs
    exact ⟨_, completes_write κ.toConsole bytes, hs.symm⟩
  | puts s =>
    cases hp
    rw [step, Outcome.ok.injEq] at hs
    exact ⟨_, completes_puts (.done _), hs.symm⟩
  | printf format args =>
    cases hp
    rw [step, Outcome.ok.injEq] at hs
    exact ⟨_, completes_printf κ.toConsole format args, hs.symm⟩
  | execute command r =>
    rcases executeFunc_cases img κ command r with ⟨message, hcheck, he⟩ | ⟨d, m, hcheck, hlt, -⟩
    · rw [Event.pieces, hcheck] at hp
      cases hp
      rw [step, he] at hs
      exact ⟨_, completes_printf κ.toConsole _ _, (Outcome.ok.inj hs).symm⟩
    · have hpassed : checkExecute img κ (getArgsFname command r).1 r = .ok d := (if_neg (Nat.not_le.mpr hlt)).trans hcheck
      rw [Event.pieces, hpassed] at hp
      cases hp
  | halt status r => cases hp
  | schedule newTerm r => cases hp
  | switchTerminals dest r => cases hp
  | key scancode r => cases hp
  | readBegin => cases hp
  | readPoll => cases hp
  | readCopy nbytes => cases hp
  | vidmap screenStart => cases hp
  | lock held => cases hp

/-- A step of the kernel is a run of a session in which no interrupt falls within a call. -/
theorem reachable_step {e : Event} (hs : step img κ e = .ok κ') :
    Reachable (sessionStep img) (Session.idle κ) (Session.idle κ') := by
  have hfree : ¬(e.byProgram = true ∧ (Session.idle κ).output (Session.idle κ).kernel.currTerm ≠ []) := fun h => h.2 rfl
  cases hp : e.pieces img κ with
  | none =>
    refine (Reachable.refl _).snoc (e := .event e) ?_
    rw [sessionStep, if_neg hfree]
    unfold Session.idle
    dsimp only
    rw [hp, hs]
    rfl
  | some ps =>
    obtain ⟨k', hdone, rfl⟩ := step_pieces hp hs
    have hbegin : sessionStep img (Session.idle κ) (.event e) =
        .ok ⟨κ, Function.update (fun _ => []) κ.currTerm ps⟩ := by
      rw [sessionStep, if_neg hfree]
      unfold Session.idle
      dsimp only
      rw [hp]
    have hrun : Reachable (sessionStep img) ⟨κ, Function.update (fun _ => []) κ.currTerm ps⟩ _ :=
      reachable_completes hdone rfl (Function.update_self _ _ _)
    rw [Function.update_idem, Function.update_eq_self_iff.mpr rfl] at hrun
    exact ((Reachable.refl _).snoc hbegin).trans hrun

/-- Wherever the kernel goes by whole calls, a session goes. -/
theorem reachable_idle (hr : Reachable (step img) κ κ') : Reachable (sessionStep img) (Session.idle κ) (Session.idle κ') :=
  Reachable.simulated (I := fun _ => True) (fun _ _ _ _ _ => trivial) (fun _ _ _ _ hs => reachable_step hs) trivial hr

/-! ### The flags a call finds -/

variable {flags : Bool × Bool} {output : Term → List Piece}

/-- No call expects both flags set. -/
theorem apart_of_fits (h : FlagsFit flags ps) : flags.1 = true → flags.2 = false := by
  cases ps with
  | nil => exact fun _ => h
  | cons p ps => exact h.1

/-- Pieces that leave the flags of output, before others. -/
theorem fits_loop {loop : List Piece} (hkeep : ∀ p ∈ loop, ∀ flags, p.flagsAfter flags = flags) (h : FlagsFit (false, true) ps) :
    FlagsFit (false, true) (loop ++ ps) := by
  induction loop with
  | nil => exact h
  | cons p loop ih =>
    refine ⟨nofun, fun _ _ => rfl, ?_⟩
    rw [hkeep p (List.mem_cons_self ..)]
    exact ih (fun q hq => hkeep q (List.mem_cons_of_mem p hq))

/-- The loop of `terminal_write` sets no flag. -/
theorem keeps_writeLoop (bytes : List UInt8) :
    ∀ p ∈ bytes.flatMap (fun c => [Piece.check, Piece.putc c]), ∀ flags, p.flagsAfter flags = flags := by
  intro p hp flags
  obtain ⟨c, -, hc⟩ := List.mem_flatMap.mp hp
  rcases List.mem_pair.mp hc with rfl | rfl
  · rfl
  · rfl

/-- A reset sets no flag. -/
theorem keeps_reset (index : Nat) : ∀ p ∈ resetPiece index, ∀ flags, p.flagsAfter flags = flags := by
  intro p hp flags
  unfold resetPiece at hp
  split at hp
  · rw [List.mem_singleton.mp hp]
    rfl
  · cases hp

/-- The loop of `terminal_puts` sets no flag. -/
theorem keeps_putsLoop (s : List UInt8) : ∀ index, ∀ p ∈ terminalPutsPieces s index, ∀ flags, p.flagsAfter flags = flags := by
  induction s with
  | nil => exact fun _ p hp => by cases hp
  | cons c s ih =>
    intro index p hp flags
    rw [terminalPutsPieces] at hp
    rcases List.mem_append.mp hp with hp | hp
    · exact keeps_reset index p hp flags
    · rcases List.mem_cons.mp hp with rfl | hp
      · rfl
      · exact ih (index + 1) p hp flags

/-- The loop of `terminal_printf` sets none itself. -/
theorem keeps_printfLoop (format : CPtr) (args : Nat → PrintfArg) (fuel : Nat) : ∀ conv buf esp,
    ∀ p ∈ terminalPrintfPieces format args fuel conv buf esp, ∀ flags, p.flagsAfter flags = flags := by
  induction fuel with
  | zero => exact fun _ _ _ p hp => by cases hp
  | succ fuel ih =>
    intro conv buf esp p hp flags
    cases conv with
    | none =>
      rw [terminalPrintfPieces] at hp
      split at hp
      · cases hp
      · split at hp
        · rcases List.mem_append.mp hp with hp | hp
          · exact keeps_reset buf p hp flags
          · exact ih _ _ _ p hp flags
        · rcases List.mem_append.mp hp with hp | hp
          · exact keeps_reset buf p hp flags
          · rcases List.mem_cons.mp hp with rfl | hp
            · rfl
            · exact ih _ _ _ p hp flags
    | some alternate =>
      rw [terminalPrintfPieces] at hp
      split at hp
      · rcases List.mem_cons.mp hp with rfl | hp
        · rfl
        · exact ih _ _ _ p hp flags
      · split at hp
        · exact ih _ _ _ p hp flags
        · split at hp
          · rcases List.mem_cons.mp hp with rfl | hp
            · rfl
            · exact ih _ _ _ p hp flags
          · split at hp
            · rcases List.mem_cons.mp hp with rfl | hp
              · rfl
              · exact ih _ _ _ p hp flags
            · exact ih _ _ _ p hp flags

/-- A framed loop, before pieces that find the flags as they are. -/
theorem fits_framed {loop : List Piece} (hkeep : ∀ p ∈ loop, ∀ flags, p.flagsAfter flags = flags)
    (h : FlagsFit (k.flags k.currTerm) ps) : FlagsFit (k.flags k.currTerm) (k.framed loop ++ ps) := by
  unfold Console.framed
  rw [List.cons_append, List.append_assoc]
  refine ⟨apart_of_fits h, nofun, fits_loop hkeep ?_⟩
  exact ⟨nofun, nofun, nofun, nofun, nofun, nofun, h⟩

/-- The call a program begins finds the flags it expects. -/
theorem fits_pieces {e : Event} (hp : e.pieces img κ = some ps) (h : FlagsFit (κ.flags κ.currTerm) []) :
    FlagsFit (κ.flags κ.currTerm) ps := by
  have hframed : ∀ {loop : List Piece}, (∀ p ∈ loop, ∀ flags, p.flagsAfter flags = flags) →
      FlagsFit (κ.flags κ.currTerm) (κ.framed loop) := by
    intro loop hkeep
    have hfits := fits_framed hkeep h
    rw [List.append_nil] at hfits
    exact hfits
  cases e with
  | write bytes =>
    cases hp
    exact ⟨apart_of_fits h, nofun, fits_loop (keeps_writeLoop bytes) ⟨nofun, nofun, nofun, nofun, rfl⟩⟩
  | puts s =>
    cases hp
    exact ⟨apart_of_fits h, nofun, h⟩
  | printf format args =>
    cases hp
    exact hframed (keeps_printfLoop _ _ _ _ _ _)
  | execute command r =>
    rw [Event.pieces] at hp
    split at hp
    · cases hp
      exact hframed (keeps_printfLoop _ _ _ _ _ _)
    · cases hp
  | halt status r => cases hp
  | schedule newTerm r => cases hp
  | switchTerminals dest r => cases hp
  | key scancode r => cases hp
  | readBegin => cases hp
  | readPoll => cases hp
  | readCopy nbytes => cases hp
  | vidmap screenStart => cases hp
  | lock held => cases hp

/-- After a piece, what is left finds the flags it expects. -/
theorem fits_next (h : FlagsFit (k.flags k.currTerm) (p :: ps)) :
    FlagsFit ((p.next k).1.flags k.currTerm) ((p.next k).2 ++ ps) := by
  obtain ⟨hapart, -, hrest⟩ := h
  cases p with
  | setFlags =>
    have hflags : (k.setFlags false true).flags k.currTerm = (false, true) :=
      Prod.ext (Function.update_self _ _ _) (Function.update_self _ _ _)
    exact hflags ▸ hrest
  | check =>
    unfold Piece.next
    dsimp only
    split
    · exact ⟨hapart, nofun, hrest⟩
    · exact hrest
  | reset => exact hrest
  | putc c =>
    have hflags : (terminalPutc k c).flags k.currTerm = k.flags k.currTerm :=
      Prod.ext (congrFun (terminalPutc_flags k c).1 _) (congrFun (terminalPutc_flags k c).2 _)
    exact hflags ▸ hrest
  | puts s => exact fits_framed (keeps_putsLoop s 0) hrest
  | writeFlag b =>
    have hflags : ((Piece.writeFlag b).next k).1.flags k.currTerm = (k.readFlag k.currTerm, b) :=
      Prod.ext rfl (Function.update_self _ _ _)
    exact hflags ▸ hrest
  | readFlag b =>
    have hflags : ((Piece.readFlag b).next k).1.flags k.currTerm = (b, k.writeFlag k.currTerm) :=
      Prod.ext (Function.update_self _ _ _) rfl
    exact hflags ▸ hrest

/-- A piece leaves the flags of the other terminals. -/
theorem next_flags_other (k : Console) (p : Piece) (ht : t ≠ k.currTerm) : (p.next k).1.flags t = k.flags t := by
  cases p with
  | setFlags => exact Prod.ext (Function.update_of_ne ht _ _) (Function.update_of_ne ht _ _)
  | check => rfl
  | reset => rfl
  | putc c => exact Prod.ext (congrFun (terminalPutc_flags k c).1 _) (congrFun (terminalPutc_flags k c).2 _)
  | puts s => rfl
  | writeFlag b => exact Prod.ext rfl (Function.update_of_ne ht _ _)
  | readFlag b => exact Prod.ext (Function.update_of_ne ht _ _) rfl

/-- A piece prints its byte on the screen of the running terminal. -/
theorem next_acts (h : FlagsFit (k.flags k.currTerm) (p :: ps)) (hkb : k.charFromKB = false) {s : TextScreen}
    (hs : Shows k k.currTerm s) : Acts k (p.next k).1 k.currTerm (printAll s p.printed) := by
  cases p with
  | setFlags => exact (sameScreens_setFlags k false true).acts hs
  | check => exact Acts.refl hs
  | reset => exact (sameScreens_resetBuffer k).acts hs
  | putc c =>
    have hflags := h.2.1 c rfl
    exact (prints_putc ⟨congrArg Prod.fst hflags, congrArg Prod.snd hflags, hkb⟩ c).acts s hs
  | puts s' => exact Acts.refl hs
  | writeFlag b =>
    have hsame : SameScreens k ((Piece.writeFlag b).next k).1 := ⟨⟨rfl, rfl⟩, rfl, rfl, rfl⟩
    exact hsame.acts hs
  | readFlag b =>
    have hsame : SameScreens k ((Piece.readFlag b).next k).1 := ⟨⟨rfl, rfl⟩, rfl, rfl, rfl⟩
    exact hsame.acts hs

/-! ### The bytes of a call -/

/-- No terminal is in a read and in an output call at once. -/
theorem apart_of_output (h : OutputOk k output) (t : Term) : k.readFlag t = true → k.writeFlag t = false := apart_of_fits (h.fits t)

/-- A terminal in an output call is in no read. -/
theorem not_reading (h : OutputOk k output) (hw : k.writeFlag t = true) : k.readFlag t = false := by
  by_contra hr
  exact Bool.false_ne_true ((apart_of_output h t (Bool.not_eq_false _ ▸ hr)).symm.trans hw)

/-- A change that keeps the cursors and the flags keeps the calls under way. -/
theorem outputOk_of_keeps (h : OutputOk k output) (hk : KeepsOutput k k') : OutputOk k' output := by
  refine ⟨⟨fun t => ?_, fun t => ?_⟩, hk.fromKB.trans h.fromKB, fun t => ?_⟩
  · rw [hk.x]
    exact h.screen.x t
  · rw [hk.y]
    exact h.screen.y t
  · have hflags : k'.flags t = k.flags t := Prod.ext (congrFun hk.read t) (congrFun hk.write t)
    exact hflags ▸ h.fits t

/-- Printing keeps them. -/
theorem outputOk_of_prints {bytes : List UInt8} (h : OutputOk k output) (hp : Prints k k' bytes) : OutputOk k' output := by
  obtain ⟨s, hs⟩ := exists_shows h.screen k.currTerm
  refine ⟨onScreen_of_acts h.screen (hp.acts s hs), hp.flags.fromKB.trans h.fromKB, fun t => ?_⟩
  have hflags : k'.flags t = k.flags t := Prod.ext (congrFun hp.flags.read t) (congrFun hp.flags.write t)
  exact hflags ▸ h.fits t

/-- A key keeps them, in whatever piece it comes. -/
theorem outputOk_key (h : OutputOk k output) (f : Keys) (c : UInt8) : OutputOk (k.key f c) output := by
  obtain ⟨hread, hwrite, hkb⟩ := key_flags k f c
  obtain ⟨s, hs⟩ := exists_shows h.screen k.dispTerm
  obtain ⟨s', hacts⟩ := exists_key_acts (apart_of_output h) h.fromKB hs f c
  refine ⟨onScreen_of_acts h.screen hacts, hkb, fun t => ?_⟩
  have hflags : (k.key f c).flags t = k.flags t := Prod.ext (congrFun hread t) (congrFun hwrite t)
  exact hflags ▸ h.fits t

/-- A program in no output call begins a read. -/
theorem outputOk_readBegin (h : OutputOk k output) (hnone : output k.currTerm = []) : OutputOk (terminalReadBegin k) output := by
  refine ⟨⟨h.screen.x, h.screen.y⟩, h.fromKB, fun t => ?_⟩
  by_cases ht : t = k.currTerm
  · rw [ht, hnone]
    exact Function.update_self _ _ _
  · have hflags : (terminalReadBegin k).flags t = k.flags t :=
      Prod.ext (Function.update_of_ne ht _ _) (Function.update_of_ne ht _ _)
    exact hflags ▸ h.fits t

/-- A program in no output call ends a read. -/
theorem outputOk_readCopy (h : OutputOk k output) (hnone : output k.currTerm = []) (nbytes : Nat) :
    OutputOk (terminalReadCopy k nbytes).2 output := by
  refine ⟨⟨h.screen.x, h.screen.y⟩, h.fromKB, fun t => ?_⟩
  by_cases ht : t = k.currTerm
  · have hfits := h.fits k.currTerm
    rw [hnone] at hfits
    rw [ht, hnone]
    exact hfits
  · have hflags : (terminalReadCopy k nbytes).2.flags t = k.flags t := Prod.ext (Function.update_of_ne ht _ _) rfl
    exact hflags ▸ h.fits t

/-- A call goes on. -/
theorem outputOk_next (h : OutputOk k output) (hps : output k.currTerm = p :: ps) :
    OutputOk (p.next k).1 (Function.update output k.currTerm ((p.next k).2 ++ ps)) := by
  have hfits := h.fits k.currTerm
  rw [hps] at hfits
  obtain ⟨s, hs⟩ := exists_shows h.screen k.currTerm
  have hkb : (p.next k).1.charFromKB = false := by
    cases p with
    | putc c => rfl
    | _ => exact h.fromKB
  refine ⟨onScreen_of_acts h.screen (next_acts hfits h.fromKB hs), hkb, fun t => ?_⟩
  by_cases ht : t = k.currTerm
  · rw [ht, Function.update_self]
    exact fits_next hfits
  · rw [Function.update_of_ne ht, next_flags_other k p ht]
    exact h.fits t

/-! ### The steps of the kernel that are no output -/

variable {r : Residue}

/-- A program started finds the console as it was. -/
theorem keepsOutput_started {command : CPtr} (hs : executeFunc img κ command r = .started κ') :
    KeepsOutput κ.toConsole κ'.toConsole := by
  obtain ⟨d, m, -, rfl⟩ := started_eq hs
  rw [startProgram_eq]
  exact ⟨rfl, rfl, rfl, rfl, rfl⟩

/-- `do_switch` keeps the cursors and the flags, also when it launches a shell. -/
theorem keepsOutput_doSwitch (h : ProcInv κ) {dest : Term} (hs : doSwitch img κ dest r = .ok κ') :
    KeepsOutput κ.toConsole κ'.toConsole := by
  rcases doSwitch_ok h hs with ⟨n, -, rfl⟩ | ⟨-, he⟩
  · exact ⟨rfl, rfl, rfl, rfl, rfl⟩
  · have hlaunch : KeepsOutput κ.toConsole (launching κ dest).toConsole := ⟨rfl, rfl, rfl, rfl, rfl⟩
    exact hlaunch.trans (keepsOutput_started he)

/-- Another terminal displayed brings its own screen with it. -/
theorem keepsOutput_displaying (κ : Kernel) (dest : Term) : KeepsOutput κ.toConsole (displaying κ dest).toConsole := by
  unfold displaying switchVidmap switchVidmem
  exact ⟨rfl, rfl, rfl, rfl, rfl⟩

/-- `switch_terminals` keeps the cursors and the flags. -/
theorem keepsOutput_switchTerminals (h : ProcInv κ) {dest : Nat} (hs : switchTerminals img κ dest r = .ok κ') :
    KeepsOutput κ.toConsole κ'.toConsole := by
  rcases switchTerminals_ok hs with rfl | ⟨t, κ₁, -, -, -, rfl, ⟨-, hk⟩ | ⟨-, rfl⟩⟩
  · exact KeepsOutput.refl _
  · have hswitch := keepsOutput_doSwitch (procInv_congr h (sameProcs_displaying κ t)) hk
    exact (keepsOutput_displaying κ t).trans hswitch
  · exact keepsOutput_displaying κ t

/-- A tick keeps them. -/
theorem keepsOutput_schedule (h : ProcInv κ) (hs : schedule img κ t r = .ok κ') : KeepsOutput κ.toConsole κ'.toConsole := by
  rcases schedule_ok hs with rfl | ⟨κ₁, -, -, rfl, hk⟩
  · exact KeepsOutput.refl _
  · have hswitch := keepsOutput_doSwitch (procInv_congr h (sameProcs_lock κ true)) hk
    exact hswitch

/-- A program that ends keeps the calls under way; the message before a shell is started again is printed whole. -/
theorem outputOk_halt (hp : ProcInv κ) (h : OutputOk κ.toConsole output) (status : UInt8)
    (hs : haltFunc img κ status r = .ok κ') : OutputOk κ'.toConsole output := by
  cases hn : κ.nextPId κ.currTerm with
  | zero =>
    have hnone : κ.currPcbPtr = none := by rw [hp.curr, hp.tops, hn, Chain.top_zero]
    unfold haltFunc at hs
    simp [hnone] at hs
  | succ n =>
    cases n with
    | zero =>
      rw [haltFunc_root hp hn] at hs
      have hprinted : OutputOk ((decremented κ).print "\nRestart the shell.\n").toConsole output :=
        outputOk_of_prints h (prints_printf ⟨h.fromKB⟩ _ _)
      rcases outcome_eq_ok hs with he | ⟨κ₁, -, hk⟩
      · exact outputOk_of_keeps hprinted (keepsOutput_started he)
      · cases hk
    | succ n =>
      rw [haltFunc_child hp hn, Outcome.ok.injEq] at hs
      subst hs
      exact h

/-- A step of the kernel that is no output call, by a program in none if it is a program's. -/
theorem outputOk_event (hp : ProcInv κ) (h : OutputOk κ.toConsole output) {e : Event} (hnone : e.pieces img κ = none)
    (hfree : e.byProgram = true → output κ.currTerm = []) (hs : step img κ e = .ok κ') : OutputOk κ'.toConsole output := by
  cases e with
  | execute command r =>
    rcases outcome_eq_ok hs with he | ⟨κ₁, he, -⟩
    · exact outputOk_of_keeps h (keepsOutput_started he)
    · obtain ⟨message, hcheck, -⟩ := refused_eq he
      rw [Event.pieces, hcheck] at hnone
      cases hnone
  | halt status r => exact outputOk_halt hp h status hs
  | schedule newTerm r => exact outputOk_of_keeps h (keepsOutput_schedule hp hs)
  | switchTerminals dest r => exact outputOk_of_keeps h (keepsOutput_switchTerminals hp hs)
  | key scancode r =>
    have hkeyed : OutputOk (keyed κ scancode).toConsole output := outputOk_key h (κ.keys.update scancode) scancode
    rw [step, getCKeyboard_eq] at hs
    split at hs
    · have hinv := procInv_congr hp (sameProcs_keyed κ scancode)
      exact outputOk_of_keeps hkeyed (keepsOutput_switchTerminals hinv hs)
    · rw [Outcome.ok.injEq] at hs
      exact hs ▸ hkeyed
  | write bytes => cases hnone
  | puts s => cases hnone
  | printf format args => cases hnone
  | readBegin =>
    rw [step, Outcome.ok.injEq] at hs
    exact hs ▸ outputOk_readBegin h (hfree rfl)
  | readPoll =>
    rw [step, Outcome.ok.injEq] at hs
    exact hs ▸ h
  | readCopy nbytes =>
    rw [step] at hs
    split at hs
    · rw [Outcome.ok.injEq] at hs
      exact hs ▸ outputOk_readCopy h (hfree rfl) nbytes
    · rw [Outcome.ok.injEq] at hs
      exact hs ▸ h
  | vidmap screenStart =>
    obtain ⟨m, table, rfl⟩ := vidmapFunc_eq hs
    exact ⟨⟨h.screen.x, h.screen.y⟩, h.fromKB, h.fits⟩
  | lock held =>
    rw [step, Outcome.ok.injEq] at hs
    exact hs ▸ ⟨⟨h.screen.x, h.screen.y⟩, h.fromKB, h.fits⟩

/-! ### The session -/

open VideoMapAux

/-- The ways a step of a session goes: a call goes on, nothing happens, a call begins, or the kernel takes a step that is none. -/
inductive SessionStep (img : Image) (s : Session) : SessionEvent → Session → Prop
  | goOn (p : Piece) (ps : List Piece) (hps : s.output s.kernel.currTerm = p :: ps) :
      SessionStep img s .goOn ⟨{ s.kernel with toConsole := (p.next s.kernel.toConsole).1 },
        Function.update s.output s.kernel.currTerm ((p.next s.kernel.toConsole).2 ++ ps)⟩
  | rest (hnone : s.output s.kernel.currTerm = []) : SessionStep img s .goOn s
  | busy (e : Event) (hby : e.byProgram = true) (hps : s.output s.kernel.currTerm ≠ []) : SessionStep img s (.event e) s
  | begins (e : Event) (ps : List Piece) (hnone : s.output s.kernel.currTerm = []) (hp : e.pieces img s.kernel = some ps) :
      SessionStep img s (.event e) ⟨s.kernel, Function.update s.output s.kernel.currTerm ps⟩
  | kernel (e : Event) (κ : Kernel) (hfree : e.byProgram = true → s.output s.kernel.currTerm = [])
      (hp : e.pieces img s.kernel = none) (hs : step img s.kernel e = .ok κ) : SessionStep img s (.event e) ⟨κ, s.output⟩

/-- Only a program makes an output call. -/
theorem byProgram_of_pieces {e : Event} (hp : e.pieces img κ = some ps) : e.byProgram = true := by
  cases e with
  | schedule newTerm r => cases hp
  | switchTerminals dest r => cases hp
  | key scancode r => cases hp
  | lock held => cases hp
  | _ => rfl

/-- Every step of a session goes one of the five ways. -/
theorem sessionStep_cases {e : SessionEvent} (hs : sessionStep img s e = .ok s') : SessionStep img s e s' := by
  cases e with
  | goOn =>
    rw [sessionStep, Outcome.ok.injEq] at hs
    subst hs
    cases hps : s.output s.kernel.currTerm with
    | nil =>
      rw [goOn_nil hps]
      exact .rest hps
    | cons p ps =>
      rw [goOn_cons hps]
      exact .goOn p ps hps
  | event e =>
    rw [sessionStep] at hs
    by_cases hbusy : e.byProgram = true ∧ s.output s.kernel.currTerm ≠ []
    · rw [if_pos hbusy, Outcome.ok.injEq] at hs
      subst hs
      exact .busy e hbusy.1 hbusy.2
    · rw [if_neg hbusy] at hs
      have hfree : e.byProgram = true → s.output s.kernel.currTerm = [] := fun hby => by
        by_contra hne
        exact hbusy ⟨hby, hne⟩
      cases hp : e.pieces img s.kernel with
      | none =>
        rw [hp, Outcome.map_eq_ok] at hs
        obtain ⟨κ, hs, rfl⟩ := hs
        exact .kernel e κ hfree hp hs
      | some ps =>
        rw [hp, Outcome.ok.injEq] at hs
        subst hs
        exact .begins e ps (hfree (byProgram_of_pieces hp)) hp

/-- No step breaks what holds between any two. -/
theorem sessionOk_step (h : SessionOk s) {e : SessionEvent} (hs : sessionStep img s e = .ok s') : SessionOk s' := by
  obtain ⟨hvideo, hdisplayed, hout⟩ := h
  cases sessionStep_cases hs with
  | goOn p ps hps =>
    have hterms := next_sameTerms s.kernel.toConsole p
    have hkeep := keepsVideo_console hterms
    exact ⟨⟨procInv_congr hvideo.procs (sameProcs_console hterms), videoMapped_of_keeps hvideo.mapped hkeep,
      idleDisplayed_console hvideo.idle hterms⟩, displayedStarted_of_keeps hdisplayed hkeep, outputOk_next hout hps⟩
  | rest hnone => exact ⟨hvideo, hdisplayed, hout⟩
  | busy e hby hps => exact ⟨hvideo, hdisplayed, hout⟩
  | begins e ps hnone hp =>
    refine ⟨hvideo, hdisplayed, hout.screen, hout.fromKB, fun t => ?_⟩
    dsimp only
    by_cases ht : t = s.kernel.currTerm
    · have hfits := hout.fits s.kernel.currTerm
      rw [hnone] at hfits
      rw [ht, Function.update_self]
      exact fits_pieces hp hfits
    · rw [Function.update_of_ne ht]
      exact hout.fits t
  | kernel e κ hfree hp hk =>
    exact ⟨videoInv_step hvideo hk, displayedStarted_step hvideo hdisplayed hk, outputOk_event hvideo.procs hout hp hfree hk⟩

/-- With no call under way, what holds of the kernel is enough. -/
theorem sessionOk_idle (hvideo : VideoInv κ) (hdisplayed : DisplayedStarted κ) (hok : ConsoleOk κ.toConsole) :
    SessionOk (Session.idle κ) :=
  ⟨hvideo, hdisplayed, hok.onScreen, hok.quiet.fromKB, fun t => hok.quiet.write t⟩

/-- From the first shell on, with output calls interrupted anywhere. -/
theorem sessionOk_running {κ₀ : Kernel} (h₀ : FirstShell img κ₀) (hr : Reachable (sessionStep img) (Session.idle κ₀) s) :
    SessionOk s := by
  have hr₀ : Reachable (step img) κ₀ κ₀ := Reachable.refl _
  exact hr.invariant (fun _ _ _ h hs => sessionOk_step h hs)
    (sessionOk_idle (videoInv_running h₀ hr₀) (displayedStarted_running h₀ hr₀) (consoleOk_running h₀ hr₀))

end OutputCallsAux

end ThreeTermOS
