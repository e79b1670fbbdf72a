import Mathlib.Data.List.Basic
import ThreeTermOS.Library.Bytes
import ThreeTermOS.Library.Runs

/-!
# Scanners of a memory

A scanner reads a memory from an address on, one value a step, and keeps a control that says how it takes the next value, or that it
ends there. A machine with more state than that `Follows` a scanner when each of its steps reads one value, moves the control as the
scanner does, and stops with a reason of its own exactly where the scanner ends. Such a machine comes to its end without reading behind
the terminator of a text exactly when it gets through the text and the scanner ends at the terminator.
-/

namespace Scan

open Bytes Runs

universe u v w x

variable {ρ : Type u} {σ : Type v} {α : Type w} {κ : Type x}

/-- The machine reads as the scanner does, and stops for the reason `done` exactly where the scanner ends. -/
structure Follows (step : σ → Unit → Outcome ρ σ) (pos : σ → Nat) (control : σ → κ) (next : κ → α → Option κ) (m : Nat → α)
    (done : ρ) : Prop where
  goes : ∀ s s', step s () = .ok s' → next (control s) (m (pos s)) = some (control s') ∧ pos s' = pos s + 1
  ends : ∀ s, next (control s) (m (pos s)) = none → step s () = .stop done s
  stops : ∀ s s', step s () = .stop done s' → next (control s) (m (pos s)) = none

/-- The addresses the machine reads in a number of steps. -/
def reads (step : σ → Unit → Outcome ρ σ) (pos : σ → Nat) (s : σ) (n : Nat) : List Nat :=
  collect step (fun s _ => [pos s]) s (List.replicate n ())

variable {step : σ → Unit → Outcome ρ σ} {pos : σ → Nat} {control : σ → κ} {next : κ → α → Option κ} {m : Nat → α} {done : ρ}
  {s s' : σ} {n len : Nat}

/-- After a number of steps, the machine is as far on, and the control is that of the values read. -/
theorem Follows.run (h : Follows step pos control next m done) (hr : Runs.run step s (List.replicate n ()) = .ok s') :
    pos s' = pos s + n ∧ (slice m (pos s) n).foldlM next (control s) = some (control s') := by
  induction n generalizing s with
  | zero =>
    rw [List.replicate_zero, run_nil, Outcome.ok.injEq] at hr
    exact ⟨by rw [hr, Nat.add_zero], by rw [hr]; rfl⟩
  | succ n ih =>
    rw [List.replicate_succ, run_cons, Outcome.andThen_eq_ok] at hr
    obtain ⟨s₁, hs, hr⟩ := hr
    obtain ⟨hnext, hpos⟩ := h.goes s s₁ hs
    obtain ⟨hpos', hfold⟩ := ih hr
    refine ⟨by rw [hpos', hpos]; omega, ?_⟩
    rw [slice, List.foldlM_cons, hnext, ← hpos]
    exact hfold

/-- The last address read in a run. -/
theorem Follows.mem_reads (h : Follows step pos control next m done) (hr : Runs.run step s (List.replicate n ()) = .ok s') :
    pos s + n ∈ reads step pos s (n + 1) := by
  unfold reads
  rw [List.replicate_succ', collect_append hr, ← (h.run hr).1]
  exact List.mem_append_right _ List.mem_cons_self

/-- A number of steps reads no more values than there are steps. -/
theorem Follows.reads_lt (h : Follows step pos control next m done) : ∀ i ∈ reads step pos s n, i < pos s + n := by
  induction n generalizing s with
  | zero => simp [reads, collect]
  | succ n ih =>
    intro i hi
    unfold reads at hi
    rw [List.replicate_succ, collect, List.singleton_append, List.mem_cons] at hi
    rcases hi with rfl | hi
    · omega
    · cases hs : step s () with
      | stop r s₁ => simp [hs] at hi
      | ok s₁ =>
        rw [hs] at hi
        have hlt := ih i hi
        rw [(h.goes s s₁ hs).2] at hlt
        omega

/-- With a text of `len` values in which the scanner cannot end: the machine comes to its end without reading behind the text exactly
when it gets through the text and the scanner ends where the text does. -/
theorem Follows.ends_iff (h : Follows step pos control next m done) (hpos : pos s = 0) (hstay : ∀ i < len, ∀ k, next k (m i) ≠ none) :
    ((∀ n, ∀ i ∈ reads step pos s n, i ≤ len) ∧ ∃ n s', Runs.run step s (List.replicate n ()) = .stop done s') ↔
      ∃ s', Runs.run step s (List.replicate len ()) = .ok s' ∧ next (control s') (m len) = none := by
  constructor
  · rintro ⟨hin, n, s', hstop⟩
    obtain ⟨es, e, es', s₁, -, hrun, hlast⟩ := run_eq_stop hstop
    have hes : es = List.replicate es.length () := List.eq_replicate_of_mem (fun _ _ => rfl)
    rw [hes] at hrun
    have hend := h.stops s₁ s' hlast
    have hat := (h.run hrun).1
    rw [hpos, Nat.zero_add] at hat
    rw [hat] at hend
    -- not before the end of the text, and not behind it
    have hge : len ≤ es.length := Nat.le_of_not_lt (fun hlt => hstay _ hlt _ hend)
    have hle := hin _ _ (h.mem_reads hrun)
    rw [hpos, Nat.zero_add] at hle
    have hlen : es.length = len := Nat.le_antisymm hle hge
    rw [hlen] at hrun hend
    exact ⟨s₁, hrun, hend⟩
  · rintro ⟨s', hrun, hend⟩
    have hat := (h.run hrun).1
    rw [hpos, Nat.zero_add] at hat
    have hstop := h.ends s' (by rwa [hat])
    refine ⟨fun n i hi => ?_, len + 1, s', by rw [List.replicate_succ', run_append, hrun, Outcome.andThen_ok, run_cons, hstop]; rfl⟩
    rcases Nat.lt_or_ge len n with hlt | hge
    · obtain ⟨j, rfl⟩ := Nat.exists_eq_add_of_lt hlt
      unfold reads at hi
      rw [Nat.add_assoc, ← List.replicate_append_replicate, collect_append hrun, List.replicate_succ, collect, hstop, hat] at hi
      rcases List.mem_append.mp hi with hi | hi
      · have hlt' := h.reads_lt i hi
        omega
      · exact Nat.le_of_eq (by simpa using hi)
    · have hlt' := h.reads_lt i hi
      omega

end Scan
