import Mathlib.Logic.Basic
import Mathlib.Tactic.Push

/-!
# Runs of a machine whose steps may stop

A machine is a function from a state and an event to an outcome: the next state, or a stop for some reason, with the state in
which the machine stopped. A run takes the events in turn and ends at the first stop. The rules below carry a fact about one
step to a fact about every run; a development over a concrete machine proves its step lemmas and uses these by name.
-/

namespace Runs

universe u v w

/-- What one step yields: the next state, or a stop for a reason `r` in the state `s`. -/
inductive Outcome (ρ : Type u) (σ : Type v) where
  | ok (s : σ)
  | stop (r : ρ) (s : σ)
  deriving DecidableEq, Repr

variable {ρ : Type u} {σ : Type v} {ε : Type w}

/-- The state an outcome leaves, stopped or not. -/
def Outcome.state : Outcome ρ σ → σ
  | .ok s => s
  | .stop _ s => s

/-- The state of a step that goes on. -/
@[simp] theorem Outcome.state_ok (s : σ) : (Outcome.ok s : Outcome ρ σ).state = s := rfl

/-- The state in which a step stops. -/
@[simp] theorem Outcome.state_stop (r : ρ) (s : σ) : (Outcome.stop r s).state = s := rfl

/-- Go on from an outcome: a stop stays a stop. -/
def Outcome.andThen (o : Outcome ρ σ) (f : σ → Outcome ρ σ) : Outcome ρ σ :=
  match o with
  | .ok s => f s
  | .stop r s => .stop r s

/-- After a step that goes on comes the next. -/
@[simp] theorem Outcome.andThen_ok (s : σ) (f : σ → Outcome ρ σ) : (Outcome.ok s).andThen f = f s := rfl

/-- After a step that stops comes none. -/
@[simp] theorem Outcome.andThen_stop (r : ρ) (s : σ) (f : σ → Outcome ρ σ) :
    (Outcome.stop r s).andThen f = .stop r s := rfl

/-- An outcome that goes on to a state went through one. -/
theorem Outcome.andThen_eq_ok {o : Outcome ρ σ} {f : σ → Outcome ρ σ} {s' : σ} :
    o.andThen f = .ok s' ↔ ∃ s, o = .ok s ∧ f s = .ok s' := by
  cases o <;> simp

/-- The outcome of a machine as that of another whose states are made from its own. -/
def Outcome.map {τ : Type v} (f : σ → τ) : Outcome ρ σ → Outcome ρ τ
  | .ok s => .ok (f s)
  | .stop r s => .stop r (f s)

/-- A result mapped goes on when the result does. -/
theorem Outcome.map_eq_ok {τ : Type v} {o : Outcome ρ σ} {f : σ → τ} {t : τ} : o.map f = .ok t ↔ ∃ s, o = .ok s ∧ f s = t := by
  cases o <;> simp [Outcome.map]

/-- The outcome is a state to go on from. -/
def Outcome.isOk : Outcome ρ σ → Bool
  | .ok _ => true
  | .stop _ _ => false

/-- A step known to go on goes on with its state. -/
theorem Outcome.eq_ok_of_isOk {o : Outcome ρ σ} (h : o.isOk = true) : o = .ok o.state := by
  cases o with
  | ok s => rfl
  | stop r s => cases h

/-- The run of a list of events from a state. -/
def run (step : σ → ε → Outcome ρ σ) (s : σ) : List ε → Outcome ρ σ
  | [] => .ok s
  | e :: es => (step s e).andThen (fun s' => run step s' es)

/-- A state is reachable from another when some run ends in it. -/
def Reachable (step : σ → ε → Outcome ρ σ) (s₀ s : σ) : Prop := ∃ es, run step s₀ es = .ok s

/-- Every step a run takes meets the condition `G`, which looks at the state before the step and at the event. -/
def Meets (step : σ → ε → Outcome ρ σ) (G : σ → ε → Prop) (s : σ) : List ε → Prop
  | [] => True
  | e :: es => G s e ∧ ∀ s', step s e = .ok s' → Meets step G s' es

/-- Some step a run takes meets the condition `G`. -/
def Takes (step : σ → ε → Outcome ρ σ) (G : σ → ε → Prop) (s : σ) : List ε → Prop
  | [] => False
  | e :: es => G s e ∨ ∃ s', step s e = .ok s' ∧ Takes step G s' es

/-- What the steps of a run give out, in order. -/
def collect {α : Type*} (step : σ → ε → Outcome ρ σ) (out : σ → ε → List α) (s : σ) : List ε → List α
  | [] => []
  | e :: es =>
    out s e ++
      match step s e with
      | .ok s' => collect step out s' es
      | .stop _ _ => []

/-- Some run leads from a state to another and gives out the list on its way. -/
def Leads {α : Type*} (step : σ → ε → Outcome ρ σ) (out : σ → ε → List α) (s s' : σ) (l : List α) : Prop :=
  ∃ es, run step s es = .ok s' ∧ collect step out s es = l

instance Meets.decidable (step : σ → ε → Outcome ρ σ) (G : σ → ε → Prop) [∀ s e, Decidable (G s e)] :
    (s : σ) → (es : List ε) → Decidable (Meets step G s es)
  | _, [] => isTrue trivial
  | s, e :: es =>
    match h : step s e with
    | .ok s' =>
      have := Meets.decidable step G s' es
      decidable_of_iff (G s e ∧ Meets step G s' es) (by simp [Meets, h])
    | .stop _ _ => decidable_of_iff (G s e) (by simp [Meets, h])

instance Takes.decidable (step : σ → ε → Outcome ρ σ) (G : σ → ε → Prop) [∀ s e, Decidable (G s e)] :
    (s : σ) → (es : List ε) → Decidable (Takes step G s es)
  | _, [] => isFalse id
  | s, e :: es =>
    match h : step s e with
    | .ok s' =>
      have := Takes.decidable step G s' es
      decidable_of_iff (G s e ∨ Takes step G s' es) (by simp [Takes, h])
    | .stop _ _ => decidable_of_iff (G s e) (by simp [Takes, h])

section Rules

variable {step : σ → ε → Outcome ρ σ} {s₀ s s' : σ}

/-- No event, no step. -/
@[simp] theorem run_nil (s : σ) : run step s [] = .ok s := rfl

/-- A run takes its first step and then the rest. -/
@[simp] theorem run_cons (s : σ) (e : ε) (es : List ε) :
    run step s (e :: es) = (step s e).andThen (fun s' => run step s' es) := rfl

/-- A run of two lists of events is the second list run from where the first ends. -/
theorem run_append (s : σ) (es fs : List ε) :
    run step s (es ++ fs) = (run step s es).andThen (fun s' => run step s' fs) := by
  induction es generalizing s with
  | nil => rfl
  | cons e es ih =>
    rw [List.cons_append, run_cons, run_cons]
    cases step s e with
    | ok s' => simpa using ih s'
    | stop r s' => rfl

/-- A run that stops takes some steps and then the one it stops at. -/
theorem run_eq_stop {r : ρ} {es : List ε} (h : run step s es = .stop r s') :
    ∃ es₁ e es₂ s₁, es = es₁ ++ e :: es₂ ∧ run step s es₁ = .ok s₁ ∧ step s₁ e = .stop r s' := by
  induction es generalizing s with
  | nil => cases h
  | cons e es ih =>
    rw [run_cons] at h
    cases hs : step s e with
    | stop r₁ s₁ =>
      rw [hs, Outcome.andThen_stop] at h
      exact ⟨[], e, es, s, rfl, rfl, hs.trans h⟩
    | ok s₁ =>
      rw [hs, Outcome.andThen_ok] at h
      obtain ⟨es₁, e', es₂, s₂, rfl, hrun, hstop⟩ := ih h
      exact ⟨e :: es₁, e', es₂, s₂, rfl, by rw [run_cons, hs, Outcome.andThen_ok, hrun], hstop⟩

/-- A state is reachable from itself. -/
theorem Reachable.refl (s : σ) : Reachable step s s := ⟨[], rfl⟩

/-- The state a run of listed events ends in is reachable, once the run is seen not to stop. -/
theorem Reachable.of_isOk (es : List ε) (h : (run step s₀ es).isOk = true) : Reachable step s₀ (run step s₀ es).state :=
  ⟨es, Outcome.eq_ok_of_isOk h⟩

/-- One more step from a reachable state. -/
theorem Reachable.snoc (h : Reachable step s₀ s) {e : ε} (hs : step s e = .ok s') : Reachable step s₀ s' := by
  obtain ⟨es, hes⟩ := h
  refine ⟨es ++ [e], ?_⟩
  rw [run_append, hes, Outcome.andThen_ok, run_cons, hs, Outcome.andThen_ok, run_nil]

/-- A run behind one that reaches its start. -/
theorem Reachable.append (h : Reachable step s₀ s) {es : List ε} (hs : run step s es = .ok s') :
    Reachable step s₀ s' := by
  obtain ⟨fs, hfs⟩ := h
  exact ⟨fs ++ es, by rw [run_append, hfs, Outcome.andThen_ok, hs]⟩

/-- What is reachable from a reachable state is reachable. -/
theorem Reachable.trans {s'' : σ} (h : Reachable step s₀ s) (h' : Reachable step s s'') : Reachable step s₀ s'' := by
  obtain ⟨es, hes⟩ := h'
  exact h.append hes

/-- A fact that every step preserves holds along every run. -/
theorem run_invariant {I : σ → Prop} (hstep : ∀ s e s', I s → step s e = .ok s' → I s') {es : List ε} (h : I s)
    (hr : Runs.run step s es = .ok s') : I s' := by
  induction es generalizing s with
  | nil =>
    rw [run_nil, Outcome.ok.injEq] at hr
    exact hr ▸ h
  | cons e es ih =>
    rw [run_cons, Outcome.andThen_eq_ok] at hr
    obtain ⟨s₁, hs, hr⟩ := hr
    exact ih (hstep s e s₁ h hs) hr

/-- A fact that every step preserves holds of every reachable state. -/
theorem Reachable.invariant {I : σ → Prop} (hstep : ∀ s e s', I s → step s e = .ok s' → I s') (h : I s₀)
    (hr : Reachable step s₀ s) : I s := by
  obtain ⟨es, hes⟩ := hr
  exact run_invariant hstep h hes

/-- A machine that takes each step of another by a run of its own, under an invariant of the other, goes wherever that one does. -/
theorem Reachable.simulated {τ : Type*} {φ : Type*} {π : Type*} {step' : τ → φ → Outcome π τ} {f : σ → τ} {I : σ → Prop}
    (hI : ∀ s e s', I s → step s e = .ok s' → I s')
    (hstep : ∀ s e s', I s → step s e = .ok s' → Reachable step' (f s) (f s')) (h : I s₀) (hr : Reachable step s₀ s) :
    Reachable step' (f s₀) (f s) := by
  refine (Reachable.invariant (I := fun s => I s ∧ Reachable step' (f s₀) (f s)) ?_ ⟨h, Reachable.refl _⟩ hr).2
  rintro s e s' ⟨hs, hreach⟩ he
  exact ⟨hI s e s' hs he, hreach.trans (hstep s e s' hs he)⟩

/-- A machine that takes every step, and whose steps another matches under an invariant, giving out the same: its runs never stop, the
other matches them, and gives out the same along them. -/
theorem run_matched {τ : Type*} {π : Type*} {α : Type*} {step' : τ → ε → Outcome π τ} {out : σ → ε → List α} {out' : τ → ε → List α}
    {f : σ → τ} {I : σ → Prop}
    (hstep : ∀ s e, I s → ∃ s', step s e = .ok s' ∧ I s' ∧ step' (f s) e = .ok (f s') ∧ out s e = out' (f s) e) (es : List ε)
    (h : I s) : ∃ s', run step s es = .ok s' ∧ I s' ∧ run step' (f s) es = .ok (f s') ∧
      collect step out s es = collect step' out' (f s) es := by
  induction es generalizing s with
  | nil => exact ⟨s, rfl, h, rfl, rfl⟩
  | cons e es ih =>
    obtain ⟨s₁, he, h₁, he', hout⟩ := hstep s e h
    obtain ⟨s', hs, hI, hs', hrest⟩ := ih h₁
    refine ⟨s', by rw [run_cons, he, Outcome.andThen_ok, hs], hI, by rw [run_cons, he', Outcome.andThen_ok, hs'], ?_⟩
    simp only [collect, he, he', hout, hrest]

/-- A fact `J` that follows from an invariant `I` after any step, stopped or not, holds of the state any run leaves. -/
theorem run_state {I J : σ → Prop} (hIJ : ∀ s, I s → J s) (hstep : ∀ s e s', I s → step s e = .ok s' → I s')
    (hstop : ∀ s e, I s → J (step s e).state) {es : List ε} (h : I s) : J (Runs.run step s es).state := by
  induction es generalizing s with
  | nil => exact hIJ s h
  | cons e es ih =>
    rw [run_cons]
    cases hs : step s e with
    | ok s₁ => exact ih (hstep s e s₁ h hs)
    | stop r s₁ => simpa [hs] using hstop s e h

/-- A fact that every step meeting `G` preserves holds along every run whose steps all meet `G`. -/
theorem run_invariant_of_meets {I : σ → Prop} {G : σ → ε → Prop}
    (hstep : ∀ s e s', I s → G s e → step s e = .ok s' → I s') {es : List ε} (h : I s) (hm : Meets step G s es)
    (hr : Runs.run step s es = .ok s') : I s' := by
  induction es generalizing s with
  | nil =>
    rw [run_nil, Outcome.ok.injEq] at hr
    exact hr ▸ h
  | cons e es ih =>
    rw [run_cons, Outcome.andThen_eq_ok] at hr
    obtain ⟨s₁, hs, hr⟩ := hr
    exact ih (hstep s e s₁ h hm.1 hs) (hm.2 s₁ hs) hr

/-- Along a run whose steps all meet `G`, with an invariant that such steps preserve, they meet what follows from both. -/
theorem Meets.of_invariant {I : σ → Prop} {G G' : σ → ε → Prop}
    (hstep : ∀ s e s', I s → G s e → step s e = .ok s' → I s') (hG : ∀ s e, I s → G s e → G' s e) {es : List ε} (h : I s)
    (hm : Meets step G s es) : Meets step G' s es := by
  induction es generalizing s with
  | nil => trivial
  | cons e es ih => exact ⟨hG s e h hm.1, fun s' hs => ih (hstep s e s' h hm.1 hs) (hm.2 s' hs)⟩

/-- Every step of a run meets what follows from an invariant. -/
theorem meets_of_invariant {I : σ → Prop} {G : σ → ε → Prop} (hstep : ∀ s e s', I s → step s e = .ok s' → I s')
    (hG : ∀ s e, I s → G s e) (es : List ε) (h : I s) : Meets step G s es := by
  induction es generalizing s with
  | nil => trivial
  | cons e es ih => exact ⟨hG s e h, fun s' hs => ih (hstep s e s' h hs)⟩

/-- Along a run that keeps an invariant, two conditions that agree under it are met alike. -/
theorem Meets.iff_of_invariant {I : σ → Prop} {G G' : σ → ε → Prop} (hstep : ∀ s e s', I s → step s e = .ok s' → I s')
    (hG : ∀ s e, I s → (G s e ↔ G' s e)) {es : List ε} (h : I s) : Meets step G s es ↔ Meets step G' s es :=
  ⟨Meets.of_invariant (fun s e s' hI _ hs => hstep s e s' hI hs) (fun s e hI hg => (hG s e hI).mp hg) h,
    Meets.of_invariant (fun s e s' hI _ hs => hstep s e s' hI hs) (fun s e hI hg => (hG s e hI).mpr hg) h⟩

/-- All that a run gives out is `P` when all that each of its steps gives out is. -/
theorem forall_mem_collect_iff {α : Type*} {out : σ → ε → List α} {P : α → Prop} {es : List ε} :
    (∀ a ∈ collect step out s es, P a) ↔ Meets step (fun s e => ∀ a ∈ out s e, P a) s es := by
  induction es generalizing s with
  | nil => simp [collect, Meets]
  | cons e es ih =>
    unfold collect Meets
    rw [List.forall_mem_append]
    refine and_congr_right (fun _ => ?_)
    cases hs : step s e with
    | ok s' => simpa using ih
    | stop r s' => simp

/-- A part of the state that each step changes by what it gives out is, after a run, changed by all that the run gave out. -/
theorem foldl_collect {α β : Type*} {out : σ → ε → List α} (part : σ → β) (change : β → α → β)
    (hstep : ∀ s e, part (step s e).state = (out s e).foldl change (part s)) (es : List ε) :
    part (Runs.run step s es).state = (collect step out s es).foldl change (part s) := by
  induction es generalizing s with
  | nil => rfl
  | cons e es ih =>
    have hone := hstep s e
    rw [run_cons]
    unfold collect
    rw [List.foldl_append, ← hone]
    cases hs : step s e with
    | ok s' => exact ih
    | stop r s' => rfl

/-- A measure that each step raises by as much as it takes in and lowers by as much as it gives out balances, along a run, what the
run takes in and gives out. -/
theorem length_collect_balance {α β : Type*} (out₁ : σ → ε → List α) (out₂ : σ → ε → List β) {I : σ → Prop} (measure : σ → Nat)
    (hstep : ∀ s e s', I s → step s e = .ok s' →
      I s' ∧ (out₁ s e).length + measure s = (out₂ s e).length + measure s') {es : List ε} (h : I s)
    (hr : Runs.run step s es = .ok s') :
    (collect step out₁ s es).length + measure s = (collect step out₂ s es).length + measure s' := by
  induction es generalizing s with
  | nil =>
    rw [run_nil, Outcome.ok.injEq] at hr
    rw [hr]
    rfl
  | cons e es ih =>
    rw [run_cons, Outcome.andThen_eq_ok] at hr
    obtain ⟨s₁, hs, hr⟩ := hr
    obtain ⟨h₁, hone⟩ := hstep s e s₁ h hs
    have hrest := ih h₁ hr
    simp only [collect, hs, List.length_append]
    omega

/-- A run whose steps give nothing out gives nothing out. -/
theorem collect_eq_nil {α : Type*} {out : σ → ε → List α} (hout : ∀ s e, out s e = []) (s : σ) (es : List ε) :
    collect step out s es = [] := by
  induction es generalizing s with
  | nil => rfl
  | cons e es ih =>
    unfold collect
    rw [hout]
    cases step s e with
    | ok s' => exact ih s'
    | stop r s' => rfl

/-- A measure that each step lowers by as much as it gives out is lowered, along a run, by as much as the run gives out. -/
theorem length_collect_add {α : Type*} {out : σ → ε → List α} {I : σ → Prop} (measure : σ → Nat)
    (hstep : ∀ s e s', I s → step s e = .ok s' → I s' ∧ (out s e).length + measure s' = measure s) {es : List ε} (h : I s)
    (hr : Runs.run step s es = .ok s') : (collect step out s es).length + measure s' = measure s := by
  have hbalance := length_collect_balance (fun _ _ => ([] : List α)) out measure
    (fun s e s' h hs => ⟨(hstep s e s' h hs).1, by rw [(hstep s e s' h hs).2, List.length_nil, Nat.zero_add]⟩) h hr
  rw [collect_eq_nil (fun _ _ => rfl), List.length_nil, Nat.zero_add] at hbalance
  exact hbalance.symm

/-- What is given out in two kinds, counted. -/
theorem length_collect_split {α β γ : Type*} {out : σ → ε → List α} {out₁ : σ → ε → List β} {out₂ : σ → ε → List γ}
    (hout : ∀ s e, (out s e).length = (out₁ s e).length + (out₂ s e).length) (s : σ) (es : List ε) :
    (collect step out s es).length = (collect step out₁ s es).length + (collect step out₂ s es).length := by
  induction es generalizing s with
  | nil => rfl
  | cons e es ih =>
    have hone := hout s e
    unfold collect
    cases step s e with
    | ok s' =>
      have hrest := ih s'
      simp only [List.length_append]
      omega
    | stop r s' => simpa using hone

/-- What a run of two lists of events gives out. -/
theorem collect_append {α : Type*} {out : σ → ε → List α} {es fs : List ε} (hs : Runs.run step s es = .ok s') :
    collect step out s (es ++ fs) = collect step out s es ++ collect step out s' fs := by
  induction es generalizing s with
  | nil =>
    rw [run_nil, Outcome.ok.injEq] at hs
    rw [hs]
    rfl
  | cons e es ih =>
    rw [run_cons, Outcome.andThen_eq_ok] at hs
    obtain ⟨s₁, he, hs⟩ := hs
    simp only [List.cons_append, collect, he, ih hs, List.append_assoc]

/-- The first part of a run gives out the first part of what the run gives out. -/
theorem collect_initial {α : Type*} (step : σ → ε → Outcome ρ σ) (out : σ → ε → List α) (s : σ) (es fs : List ε) :
    collect step out s es <+: collect step out s (es ++ fs) := by
  induction es generalizing s with
  | nil => exact List.nil_prefix
  | cons e es ih =>
    simp only [List.cons_append, collect]
    cases step s e with
    | ok s' => exact (List.prefix_append_right_inj _).mpr (ih s')
    | stop r s' => exact List.prefix_rfl

/-- One run behind another collects the lists of both. -/
theorem Leads.trans {α : Type*} {out : σ → ε → List α} {s'' : σ} {l l' : List α} (h : Leads step out s s' l)
    (h' : Leads step out s' s'' l') : Leads step out s s'' (l ++ l') := by
  obtain ⟨es, hrun, hout⟩ := h
  obtain ⟨fs, hrun', hout'⟩ := h'
  exact ⟨es ++ fs, by simp [run_append, hrun, hrun'], by rw [collect_append hrun, hout, hout']⟩

/-- A run that meets two conditions meets both at once. -/
theorem Meets.and {G G' : σ → ε → Prop} {es : List ε} (h : Meets step G s es) (h' : Meets step G' s es) :
    Meets step (fun s e => G s e ∧ G' s e) s es := by
  induction es generalizing s with
  | nil => trivial
  | cons e es ih => exact ⟨⟨h.1, h'.1⟩, fun s' hs => ih (h.2 s' hs) (h'.2 s' hs)⟩

/-- The first part of a run meets `G` as well. -/
theorem Meets.append_left {G : σ → ε → Prop} {es fs : List ε} (h : Meets step G s (es ++ fs)) : Meets step G s es := by
  induction es generalizing s with
  | nil => trivial
  | cons e es ih => exact ⟨h.1, fun s' hs => ih (h.2 s' hs)⟩

/-- What comes after the first part of a run meets `G` as well. -/
theorem Meets.append_right {G : σ → ε → Prop} {es fs : List ε} (h : Meets step G s (es ++ fs)) (hs : Runs.run step s es = .ok s') :
    Meets step G s' fs := by
  induction es generalizing s with
  | nil =>
    rw [run_nil, Outcome.ok.injEq] at hs
    exact hs ▸ h
  | cons e es ih =>
    rw [run_cons, Outcome.andThen_eq_ok] at hs
    obtain ⟨s₁, he, hs⟩ := hs
    exact ih (h.2 s₁ he) hs

/-- Either every step meets `G` or one is taken that does not. -/
theorem meets_or_takes (step : σ → ε → Outcome ρ σ) (G : σ → ε → Prop) (s : σ) (es : List ε) :
    Meets step G s es ∨ Takes step (fun s e => ¬G s e) s es := by
  induction es generalizing s with
  | nil => exact Or.inl trivial
  | cons e es ih =>
    by_cases hG : G s e
    · by_cases hrest : ∀ s', step s e = .ok s' → Meets step G s' es
      · exact Or.inl ⟨hG, hrest⟩
      · push Not at hrest
        obtain ⟨s', hs, hm⟩ := hrest
        exact Or.inr (Or.inr ⟨s', hs, (ih s').resolve_left hm⟩)
    · exact Or.inr (Or.inl hG)

/-- A step that meets `G`, taken from `I`, leads to `J`: along a run that takes one, if steps that meet `H` preserve both, `J` holds
in the end. -/
theorem run_of_takes {I J : σ → Prop} {G H : σ → ε → Prop} (hI : ∀ s e s', I s → H s e → step s e = .ok s' → I s')
    (htake : ∀ s e s', I s → H s e → G s e → step s e = .ok s' → J s') (hJ : ∀ s e s', J s → H s e → step s e = .ok s' → J s')
    {es : List ε} (h : I s) (hm : Meets step H s es) (ht : Takes step G s es) (hr : Runs.run step s es = .ok s') : J s' := by
  induction es generalizing s with
  | nil => exact absurd ht id
  | cons e es ih =>
    rw [run_cons, Outcome.andThen_eq_ok] at hr
    obtain ⟨s₁, hs, hr⟩ := hr
    rcases ht with hG | ⟨s₂, hs₂, ht⟩
    · exact run_invariant_of_meets hJ (htake s e s₁ h hm.1 hG hs) (hm.2 s₁ hs) hr
    · rw [hs, Outcome.ok.injEq] at hs₂
      subst hs₂
      exact ih (hI s e s₁ h hm.1 hs) (hm.2 s₁ hs) ht hr

/-- A run whose steps all meet `G` does not stop for a reason that no such step, from a reachable state, stops for. -/
theorem run_ne_stop_of_meets {G : σ → ε → Prop} {r : ρ}
    (hstep : ∀ s e, Reachable step s₀ s → G s e → ∀ s', step s e ≠ .stop r s') {es : List ε} (hm : Meets step G s₀ es) :
    ∀ s', run step s₀ es ≠ .stop r s' := by
  have hrun : ∀ (es : List ε) (s : σ), Reachable step s₀ s → Meets step G s es → ∀ s', run step s es ≠ .stop r s' := by
    intro es
    induction es with
    | nil => exact fun _ _ _ _ => nofun
    | cons e es ih =>
      intro s hr hm s' hs
      rw [run_cons] at hs
      cases he : step s e with
      | ok s₁ =>
        rw [he, Outcome.andThen_ok] at hs
        exact ih s₁ (hr.snoc he) (hm.2 s₁ he) s' hs
      | stop r' s₁ =>
        rw [he, Outcome.andThen_stop, Outcome.stop.injEq] at hs
        obtain ⟨rfl, rfl⟩ := hs
        exact hstep s e hr hm.1 s₁ he
  exact hrun es s₀ (Reachable.refl s₀) hm

end Rules

end Runs
