import Mathlib.Data.Fintype.Basic
import Mathlib.Tactic.FinCases
import Mathlib.Tactic.Push
import ThreeTermOS.Rtc
import ThreeTermOS.Kernel

/-!
# The virtual clock rates

A terminal that has set the rate `f` is given every `1024 / f`-th interrupt, whatever the other terminals do.
-/

namespace ThreeTermOS

open Runs

/-- The event sets the rate of terminal `t` to `f` a second. -/
def SetsRate (t : Term) (f : Nat) (k : Rtc) (e : RtcEvent) : Prop :=
  k.currTerm = t ∧
    ((e = .defaultRate ∧ f = 2) ∨
      ∃ buf nbytes, e = .write (some buf) nbytes ∧ nbytes.toInt = byte4 ∧ f = le32 buf 0 ∧ 2 ≤ f ∧ f ≤ 1024 ∧ f &&& (f - 1) = 0)

/-- The event sets no rate of terminal `t`. -/
def KeepsRate (t : Term) (k : Rtc) (e : RtcEvent) : Prop := ∀ f, ¬SetsRate t f k e

/-- The clock of terminal `t`: its divisor is a power of two, its counter below it. -/
structure ClockOk (k : Rtc) (t : Term) : Prop where
  freq : ∃ i ≤ 9, k.rtcFreq t = 2 ^ i
  counter : k.rtcCounter t < k.rtcFreq t

/-- The rate of terminal `t` has just been set to `f`. -/
structure JustSet (k : Rtc) (t : Term) (f : Nat) : Prop where
  freq : f * k.rtcFreq t = 1024
  counter : k.rtcCounter t = 0

namespace RtcRatesAux

variable {k k' : Rtc} {e : RtcEvent} {t u : Term} {f : Nat}

/-- A number that passes the test of `rtc_write` divides 1024, and the quotient is a power of two. -/
theorem freq_of_check : ∀ f < 1025, 2 ≤ f → f &&& (f - 1) = 0 → f * (1024 / f) = 1024 ∧ ∃ i < 10, 1024 / f = 2 ^ i := by
  decide +kernel

/-- What one turn of the handler does to the clocks. -/
structure Turned (k k' : Rtc) (i : Term) : Prop where
  freq : k'.rtcFreq = k.rtcFreq
  counter : k'.rtcCounter = Function.update k.rtcCounter i ((k.rtcCounter i + 1) % k.rtcFreq i)
  raised : k'.raised = Function.update k.raised i (k.raised i + if (k.rtcCounter i + 1) % k.rtcFreq i = 0 then 1 else 0)
  rtcInt : k'.rtcInt = Function.update k.rtcInt i (if (k.rtcCounter i + 1) % k.rtcFreq i = 0 then true else k.rtcInt i)
  curr : k'.currTerm = k.currTerm

/-- An interrupt of the clock goes through, and turns the counter of each terminal. -/
theorem rtcIrqTurn_eq (h : ClockOk k u) : ∃ k', rtcIrqTurn k u = .ok k' ∧ Turned k k' u := by
  obtain ⟨⟨i, hi, hfreq⟩, hcounter⟩ := h
  have hpos : 0 < k.rtcFreq u := Nat.lt_of_le_of_lt (Nat.zero_le _) hcounter
  have hle : k.rtcFreq u ≤ 2 ^ 9 := by
    rw [hfreq]
    exact Nat.pow_le_pow_right (by decide) hi
  have hmod : (k.rtcCounter u + 1) % 2 ^ 32 = k.rtcCounter u + 1 := Nat.mod_eq_of_lt (by omega)
  unfold rtcIrqTurn
  dsimp only
  rw [if_neg (by omega)]
  simp only [Function.update_self, Function.update_idem, hmod]
  split
  · rename_i hz
    exact ⟨_, rfl, rfl, rfl, by rw [if_pos hz], by rw [if_pos hz], rfl⟩
  · rename_i hnz
    have hsame : Function.update k.raised u (k.raised u + 0) = k.raised := Function.update_eq_self _ _
    have hsame' : Function.update k.rtcInt u (k.rtcInt u) = k.rtcInt := Function.update_eq_self _ _
    exact ⟨_, rfl, rfl, rfl, by rw [if_neg hnz, hsame], by rw [if_neg hnz, hsame'], rfl⟩

/-- A turn keeps the counter below its period. -/
theorem Turned.clock (h : Turned k k' u) (hok : ClockOk k t) : ClockOk k' t := by
  have hpos : 0 < k.rtcFreq t := Nat.lt_of_le_of_lt (Nat.zero_le _) hok.counter
  refine ⟨by rw [h.freq]; exact hok.freq, ?_⟩
  rw [h.freq, h.counter]
  by_cases htu : t = u
  · subst htu
    rw [Function.update_self]
    exact Nat.mod_lt _ hpos
  · rw [Function.update_of_ne htu]
    exact hok.counter

/-- What an interrupt does to each clock. -/
structure Interrupted (k k' : Rtc) : Prop where
  freq : k'.rtcFreq = k.rtcFreq
  counter : ∀ t, k'.rtcCounter t = (k.rtcCounter t + 1) % k.rtcFreq t
  raised : ∀ t, k'.raised t = k.raised t + if (k.rtcCounter t + 1) % k.rtcFreq t = 0 then 1 else 0
  rtcInt : ∀ t, k'.rtcInt t = if (k.rtcCounter t + 1) % k.rtcFreq t = 0 then true else k.rtcInt t

/-- The handler takes one turn for each clock, and none divides by zero. -/
theorem rtcIrqHandler_eq (h : ∀ t, ClockOk k t) : ∃ k', rtcIrqHandler k = .ok k' ∧ Interrupted k k' ∧ ∀ t, ClockOk k' t := by
  obtain ⟨k₁, he₁, h₁⟩ := rtcIrqTurn_eq (h 0)
  have hok₁ : ∀ t, ClockOk k₁ t := fun t => h₁.clock (h t)
  obtain ⟨k₂, he₂, h₂⟩ := rtcIrqTurn_eq (hok₁ 1)
  have hok₂ : ∀ t, ClockOk k₂ t := fun t => h₂.clock (hok₁ t)
  obtain ⟨k₃, he₃, h₃⟩ := rtcIrqTurn_eq (hok₂ 2)
  refine ⟨k₃, ?_, ⟨by rw [h₃.freq, h₂.freq, h₁.freq], fun t => ?_, fun t => ?_, fun t => ?_⟩, fun t => h₃.clock (hok₂ t)⟩
  · rw [rtcIrqHandler, he₁, Outcome.andThen_ok, he₂, Outcome.andThen_ok, he₃]
  · rw [h₃.counter, h₂.counter, h₁.counter, h₂.freq, h₁.freq]
    fin_cases t <;> simp
  · rw [h₃.raised, h₂.raised, h₁.raised, h₂.counter, h₁.counter, h₂.freq, h₁.freq]
    fin_cases t <;> simp
  · rw [h₃.rtcInt, h₂.rtcInt, h₁.rtcInt, h₂.counter, h₁.counter, h₂.freq, h₁.freq]
    fin_cases t <;> simp

/-! ### Setting the rate -/

/-- A write to the clocks is refused, or sets the rate of the running terminal. -/
theorem rtcWrite_cases (k : Rtc) (buf : Option CPtr) (nbytes : Int32) :
    ((rtcWrite k buf nbytes).2 = k ∧ ∀ t f, ¬SetsRate t f k (.write buf nbytes)) ∨
      ∃ f, SetsRate k.currTerm f k (.write buf nbytes) ∧ 2 ≤ f ∧ f ≤ 1024 ∧ f &&& (f - 1) = 0 ∧
        (rtcWrite k buf nbytes).2 = { k with
          rtcFreq := Function.update k.rtcFreq k.currTerm (1024 / f)
          rtcCounter := Function.update k.rtcCounter k.currTerm 0 } := by
  unfold rtcWrite
  cases buf with
  | none =>
    refine Or.inl ⟨rfl, ?_⟩
    rintro t f ⟨-, ⟨he, -⟩ | ⟨buf, n, he, -⟩⟩
    · cases he
    · cases he
  | some buf =>
    dsimp only
    by_cases hn : nbytes.toInt ≠ byte4
    · rw [if_pos hn]
      refine Or.inl ⟨rfl, ?_⟩
      rintro t f ⟨-, ⟨he, -⟩ | ⟨buf', n, he, hn', -⟩⟩
      · cases he
      · cases he
        exact hn hn'
    · rw [if_neg hn]
      by_cases hbad : le32 buf 0 < 2 ∨ le32 buf 0 > 1024 ∨ le32 buf 0 &&& (le32 buf 0 - 1) ≠ 0
      · rw [if_pos hbad]
        refine Or.inl ⟨rfl, ?_⟩
        rintro t f ⟨-, ⟨he, -⟩ | ⟨buf', n, he, -, hf, h1, h2, h3⟩⟩
        · cases he
        · cases he
          subst hf
          rcases hbad with hbad | hbad | hbad
          · omega
          · omega
          · exact hbad h3
      · rw [if_neg hbad]
        push Not at hbad hn
        obtain ⟨h1, h2, h3⟩ := hbad
        exact Or.inr ⟨_, ⟨rfl, Or.inr ⟨buf, nbytes, rfl, hn, rfl, h1, h2, h3⟩⟩, h1, h2, h3, rfl⟩

/-- What setting the rate of terminal `u` does to the clocks. -/
theorem clock_setRate (h : ClockOk k t) {d i : Nat} (hi : i ≤ 9) (hd : d = 2 ^ i) :
    ClockOk { k with rtcFreq := Function.update k.rtcFreq u d, rtcCounter := Function.update k.rtcCounter u 0 } t := by
  by_cases htu : t = u
  · subst htu
    refine ⟨⟨i, hi, (Function.update_self _ _ _).trans hd⟩, ?_⟩
    dsimp only
    rw [Function.update_self, Function.update_self, hd]
    exact Nat.two_pow_pos i
  · refine ⟨?_, ?_⟩
    · dsimp only
      rw [Function.update_of_ne htu]
      exact h.freq
    · dsimp only
      rw [Function.update_of_ne htu, Function.update_of_ne htu]
      exact h.counter

/-- The clocks are set at the start. -/
theorem clock_init (t : Term) : ClockOk Rtc.init t := ⟨⟨9, Nat.le_refl 9, rfl⟩, show 0 < 512 by decide⟩

/-- No step stops, and every step keeps the clocks. -/
theorem rtcStep_ok (h : ∀ t, ClockOk k t) (e : RtcEvent) : ∃ k', rtcStep k e = .ok k' ∧ ∀ t, ClockOk k' t := by
  cases e with
  | irq =>
    obtain ⟨k', he, -, hok⟩ := rtcIrqHandler_eq h
    exact ⟨k', he, hok⟩
  | write buf nbytes =>
    refine ⟨_, rfl, fun t => ?_⟩
    rcases rtcWrite_cases k buf nbytes with ⟨he, -⟩ | ⟨f, -, h1, h2, h3, he⟩
    · rw [he]
      exact h t
    · rw [he]
      obtain ⟨-, i, hi, hd⟩ := freq_of_check f (by omega) h1 h3
      exact clock_setRate (h t) (Nat.le_of_lt_succ hi) hd
  | defaultRate => exact ⟨_, rfl, fun t => clock_setRate (h t) (Nat.le_refl 9) rfl⟩
  | read => exact ⟨_, rfl, fun t => ⟨(h t).freq, (h t).counter⟩⟩
  | switch dest => exact ⟨_, rfl, fun t => ⟨(h t).freq, (h t).counter⟩⟩

/-- Every step keeps them so. -/
theorem clocks_of_step (h : ∀ t, ClockOk k t) (hs : rtcStep k e = .ok k') : ∀ t, ClockOk k' t := by
  obtain ⟨k₁, he, hok⟩ := rtcStep_ok h e
  rw [hs, Outcome.ok.injEq] at he
  exact he ▸ hok

/-- They are so in every reachable state. -/
theorem clocks_reachable (hr : Reachable rtcStep Rtc.init k) : ∀ t, ClockOk k t :=
  Reachable.invariant (I := fun k => ∀ t, ClockOk k t) (fun _ _ _ h hs => clocks_of_step h hs) clock_init hr

/-- What another terminal does keeps a terminal's rate. -/
theorem keepsRate_of_ne (h : k.currTerm ≠ t) : KeepsRate t k e := fun _ hset => h hset.1

/-- What sets no rate keeps it. -/
theorem keepsRate_of_other (hd : e ≠ .defaultRate) (hw : ∀ buf nbytes, e ≠ .write buf nbytes) : KeepsRate t k e := by
  rintro f ⟨-, ⟨he, -⟩ | ⟨buf, nbytes, he, -⟩⟩
  · exact hd he
  · exact hw _ _ he

/-- An event that sets the rate leaves a clock that has just been set. -/
theorem justSet_of_sets (hset : SetsRate t f k e) (hs : rtcStep k e = .ok k') : JustSet k' t f ∧ k'.raised = k.raised := by
  obtain ⟨rfl, ⟨rfl, rfl⟩ | ⟨buf, nbytes, rfl, hn, hf, h1, h2, h3⟩⟩ := hset
  · rw [rtcStep, Outcome.ok.injEq] at hs
    subst hs
    refine ⟨⟨?_, Function.update_self _ _ _⟩, rfl⟩
    unfold Rtc.defaultRate
    dsimp only
    rw [Function.update_self]
  · rcases rtcWrite_cases k (some buf) nbytes with ⟨-, hno⟩ | ⟨f', ⟨-, ⟨he, -⟩ | ⟨buf', n, he, -, hf', -⟩⟩, h4, h5, h6, he'⟩
    · exact absurd ⟨rfl, Or.inr ⟨buf, nbytes, rfl, hn, hf, h1, h2, h3⟩⟩ (hno k.currTerm f)
    · cases he
    · cases he
      obtain rfl : f' = f := hf'.trans hf.symm
      rw [rtcStep, he', Outcome.ok.injEq] at hs
      subst hs
      refine ⟨⟨?_, Function.update_self _ _ _⟩, rfl⟩
      dsimp only
      rw [Function.update_self]
      exact (freq_of_check f' (by omega) h4 h6).1

/-- An event that sets no rate of terminal `t` and is no interrupt leaves its clock alone. -/
theorem clock_same (hk : KeepsRate t k e) (hirq : e ≠ .irq) (hs : rtcStep k e = .ok k') :
    k'.rtcFreq t = k.rtcFreq t ∧ k'.rtcCounter t = k.rtcCounter t ∧ k'.raised t = k.raised t := by
  cases e with
  | irq => exact absurd rfl hirq
  | write buf nbytes =>
    rw [rtcStep, Outcome.ok.injEq] at hs
    subst hs
    rcases rtcWrite_cases k buf nbytes with ⟨he, -⟩ | ⟨f, hset, -, -, -, he⟩
    · rw [he]
      exact ⟨rfl, rfl, rfl⟩
    · have hne : t ≠ k.currTerm := by
        rintro rfl
        exact hk f hset
      rw [he]
      exact ⟨Function.update_of_ne hne _ _, Function.update_of_ne hne _ _, rfl⟩
  | defaultRate =>
    rw [rtcStep, Outcome.ok.injEq] at hs
    subst hs
    have hne : t ≠ k.currTerm := by
      rintro rfl
      exact hk 2 ⟨rfl, Or.inl ⟨rfl, rfl⟩⟩
    exact ⟨Function.update_of_ne hne _ _, Function.update_of_ne hne _ _, rfl⟩
  | read =>
    rw [rtcStep, Outcome.ok.injEq] at hs
    subst hs
    exact ⟨rfl, rfl, rfl⟩
  | switch dest =>
    rw [rtcStep, Outcome.ok.injEq] at hs
    subst hs
    exact ⟨rfl, rfl, rfl⟩

/-! ### Runs -/

/-- The clock of terminal `t` when `n` interrupts have come since its rate was set to `f`. -/
structure Since (k₀ : Rtc) (t : Term) (f n : Nat) (k : Rtc) : Prop where
  clocks : ∀ u, ClockOk k u
  freq : f * k.rtcFreq t = 1024
  counter : k.rtcCounter t = n % k.rtcFreq t
  raised : k.raised t = k₀.raised t + n / k.rtcFreq t

/-- The count begins at the setting. -/
theorem since_start {k₀ : Rtc} (h : ∀ u, ClockOk k₀ u) (hset : JustSet k₀ t f) : Since k₀ t f 0 k₀ := by
  refine ⟨h, hset.freq, ?_, ?_⟩
  · rw [hset.counter, Nat.zero_mod]
  · rw [Nat.zero_div, Nat.add_zero]

/-- A step that sets no rate of terminal `t` counts an interrupt, or leaves the clock alone. -/
theorem since_step {k₀ : Rtc} {n : Nat} (h : Since k₀ t f n k) (hk : KeepsRate t k e) (hs : rtcStep k e = .ok k') :
    Since k₀ t f (n + irqs [e]) k' := by
  obtain ⟨hclocks, hfreq, hcounter, hraised⟩ := h
  have hclocks' := clocks_of_step hclocks hs
  by_cases hirq : e = .irq
  · subst hirq
    obtain ⟨k₁, he, hi, -⟩ := rtcIrqHandler_eq hclocks
    rw [rtcStep, he, Outcome.ok.injEq] at hs
    subst hs
    have hpos : 0 < k.rtcFreq t := Nat.lt_of_le_of_lt (Nat.zero_le _) (hclocks t).counter
    have hmod : (n % k.rtcFreq t + 1) % k.rtcFreq t = (n + 1) % k.rtcFreq t := Nat.mod_add_mod n _ 1
    refine ⟨hclocks', by rw [hi.freq]; exact hfreq, ?_, ?_⟩
    · rw [hi.freq, hi.counter, hcounter, hmod]
      rfl
    · rw [hi.freq, hi.raised, hcounter, hmod, hraised, Nat.add_assoc]
      congr 1
      have hdiv := Nat.succ_div (a := n) (b := k.rtcFreq t)
      rw [show n + irqs [.irq] = n + 1 from rfl, hdiv]
      congr 1
      by_cases hd : k.rtcFreq t ∣ n + 1
      · rw [if_pos hd, if_pos (Nat.mod_eq_zero_of_dvd hd)]
      · rw [if_neg hd, if_neg (fun hz => hd (Nat.dvd_of_mod_eq_zero hz))]
  · obtain ⟨h1, h2, h3⟩ := clock_same hk hirq hs
    have hz : irqs [e] = 0 := by
      cases e with
      | irq => exact absurd rfl hirq
      | _ => rfl
    rw [hz, Nat.add_zero]
    exact ⟨hclocks', by rw [h1]; exact hfreq, by rw [h1, h2]; exact hcounter, by rw [h1, h3]; exact hraised⟩

/-- The interrupts of a run, one event at a time. -/
theorem irqs_cons (e : RtcEvent) (es : List RtcEvent) : irqs (e :: es) = irqs [e] + irqs es := by
  cases e with
  | irq => exact Nat.add_comm _ _
  | _ => exact (Nat.zero_add _).symm

/-- The count goes on over a run that keeps the rate. -/
theorem since_run {k₀ : Rtc} {es : List RtcEvent} {n : Nat} (h : Since k₀ t f n k) (hm : Meets rtcStep (KeepsRate t) k es)
    (hs : run rtcStep k es = .ok k') : Since k₀ t f (n + irqs es) k' := by
  induction es generalizing k n with
  | nil =>
    rw [run_nil, Outcome.ok.injEq] at hs
    exact hs ▸ h
  | cons e es ih =>
    rw [run_cons, Outcome.andThen_eq_ok] at hs
    obtain ⟨k₁, hs₁, hs⟩ := hs
    have h₁ := ih (since_step h hm.1 hs₁) (hm.2 k₁ hs₁) hs
    rwa [Nat.add_assoc, ← irqs_cons] at h₁

/-- From clocks that are right no run stops. -/
theorem run_ok (es : List RtcEvent) (h : ∀ t, ClockOk k t) : ∃ k', run rtcStep k es = .ok k' := by
  induction es generalizing k with
  | nil => exact ⟨k, rfl⟩
  | cons e es ih =>
    obtain ⟨k₁, he, hok⟩ := rtcStep_ok h e
    obtain ⟨k', hs⟩ := ih hok
    exact ⟨k', by rw [run_cons, he, Outcome.andThen_ok, hs]⟩

end RtcRatesAux

open RtcRatesAux

/-- In every run the clocks stay right and the handler never divides by zero. After a terminal has set the rate `f` (2 at first and
after `rtc_default_rate`), and as long as it sets no other, `n` interrupts raise exactly `n * f / 1024` ticks for it, the next one
raising a tick (`rtc_int` is set) exactly when `1024 / f` divides its number: nothing the other terminals do matters. -/
theorem clocks_keep_rates {k : Rtc} (hr : Reachable rtcStep Rtc.init k) :
    (∀ t, (∃ i ≤ 9, k.rtcFreq t = 2 ^ i) ∧ k.rtcCounter t < k.rtcFreq t) ∧
      (∀ es, ∃ k', run rtcStep k es = .ok k') ∧
      ∀ (t : Term) (f : Nat) (k₁ : Rtc), (k₁ = Rtc.init ∧ f = 2) ∨ (∃ e, SetsRate t f k e ∧ rtcStep k e = .ok k₁) →
        ∀ es k₂, run rtcStep k₁ es = .ok k₂ → Meets rtcStep (KeepsRate t) k₁ es →
          k₂.raised t = k₁.raised t + irqs es * f / 1024 ∧
            ∀ k₃, rtcStep k₂ .irq = .ok k₃ →
              k₃.raised t = k₂.raised t + (if 1024 / f ∣ irqs es + 1 then 1 else 0) ∧
                k₃.rtcInt t = if 1024 / f ∣ irqs es + 1 then true else k₂.rtcInt t := by
  have hclocks := clocks_reachable hr
  refine ⟨fun t => ⟨(hclocks t).freq, (hclocks t).counter⟩, fun es => run_ok es hclocks, ?_⟩
  intro t f k₁ hset es k₂ hs hm
  have hstart : Since k₁ t f 0 k₁ := by
    rcases hset with ⟨rfl, rfl⟩ | ⟨e, hset, he⟩
    · exact since_start clock_init ⟨rfl, rfl⟩
    · exact since_start (clocks_of_step hclocks he) (justSet_of_sets hset he).1
  have hsince := since_run hstart hm hs
  rw [Nat.zero_add] at hsince
  have hf : 0 < f := by
    refine Nat.pos_of_ne_zero ?_
    rintro rfl
    have hfreq := hsince.freq
    rw [Nat.zero_mul] at hfreq
    cases hfreq
  have hperiod : 1024 / f = k₂.rtcFreq t := by
    rw [← hsince.freq]
    exact Nat.mul_div_cancel_left _ hf
  have hcount : ∀ n, n * f / 1024 = n / k₂.rtcFreq t := by
    intro n
    rw [← hsince.freq, Nat.mul_comm f, Nat.mul_div_mul_right _ _ hf]
  refine ⟨by rw [hsince.raised, hcount], fun k₃ hirq => ?_⟩
  obtain ⟨k', he, hi, -⟩ := rtcIrqHandler_eq hsince.clocks
  rw [rtcStep, he, Outcome.ok.injEq] at hirq
  subst hirq
  rw [hi.raised, hi.rtcInt, hsince.counter, Nat.mod_add_mod, hperiod]
  by_cases hd : k₂.rtcFreq t ∣ irqs es + 1
  · simp only [if_pos hd, if_pos (Nat.mod_eq_zero_of_dvd hd), and_self]
  · have hnz : (irqs es + 1) % k₂.rtcFreq t ≠ 0 := fun hz => hd (Nat.dvd_of_mod_eq_zero hz)
    simp only [if_neg hd, if_neg hnz, and_self]

/-- The interrupt rate 512, as a program of terminal 1 writes it. -/
def rate512 : RtcEvent := .write (some (cstr [0, 2])) 4

/-- Terminal 1 runs when its rate is set; terminal 0 sets its own in between. -/
theorem clocks_keep_rates_rate512 :
    ∃ k₁ k₂, rtcStep { Rtc.init with currTerm := 1 } rate512 = .ok k₁ ∧
      run rtcStep k₁ [.irq, .switch 0, .write (some (cstr [4])) 4, .irq, .irq] = .ok k₂ ∧ k₂.raised 1 = k₁.raised 1 + 1 := by
  have hr : Reachable rtcStep Rtc.init { Rtc.init with currTerm := 1 } := ⟨[.switch 1], rfl⟩
  have hset : SetsRate 1 512 { Rtc.init with currTerm := 1 } rate512 :=
    ⟨rfl, Or.inr ⟨cstr [0, 2], 4, rfl, by decide, by decide, by decide, by decide, by decide⟩⟩
  obtain ⟨-, -, hrate⟩ := clocks_keep_rates hr
  obtain ⟨-, hrun, -⟩ := clocks_keep_rates (hr.snoc (e := rate512) rfl)
  obtain ⟨k₂, hs⟩ := hrun [.irq, .switch 0, .write (some (cstr [4])) 4, .irq, .irq]
  refine ⟨_, k₂, rfl, hs, ?_⟩
  refine (hrate 1 512 _ (Or.inr ⟨rate512, hset, rfl⟩) _ k₂ hs ?_).1
  refine ⟨keepsRate_of_other nofun nofun, fun k₁ _ => ⟨keepsRate_of_other nofun nofun, fun k₂ hs => ⟨keepsRate_of_ne ?_, fun k₃ _ =>
    ⟨keepsRate_of_other nofun nofun, fun k₄ _ => ⟨keepsRate_of_other nofun nofun, fun _ _ => trivial⟩⟩⟩⟩⟩
  rw [rtcStep, Outcome.ok.injEq] at hs
  rw [← hs]
  exact show (0 : Term) ≠ 1 by decide

end ThreeTermOS
