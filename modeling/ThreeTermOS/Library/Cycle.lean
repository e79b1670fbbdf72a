import Mathlib.Algebra.Group.Fin.Basic
import Mathlib.Data.List.Count
import ThreeTermOS.Library.Runs

/-!
# A counter that goes round

A machine with a counter modulo `n + 1` that some of its steps move on by one, each giving out the value it finds. The values given
out go round, whatever steps come between, so any of them is given out as often as any other, but for one turn at most.
-/

namespace Runs

variable {ρ σ ε : Type*} {n : Nat}

/-- The first `m` values of the counter, from `c` on. -/
def cycle (c : Fin (n + 1)) : Nat → List (Fin (n + 1))
  | 0 => []
  | m + 1 => c :: cycle (c + 1) m

@[simp] theorem length_cycle (c : Fin (n + 1)) (m : Nat) : (cycle c m).length = m := by
  induction m generalizing c with
  | zero => rfl
  | succ m ih => rw [cycle, List.length_cons, ih]

/-- How often a value comes up: once in every `n + 1`, the first time after as many others as lie between. -/
theorem count_cycle (c t : Fin (n + 1)) (m : Nat) : (cycle c m).count t = (m + n - (t - c).val) / (n + 1) := by
  induction m generalizing c with
  | zero =>
    have hle := Fin.is_le (t - c)
    rw [cycle, List.count_nil, Nat.div_eq_of_lt (by omega)]
  | succ m ih =>
    have hnext : t - (c + 1) = t - c - 1 := sub_add_eq_sub_sub t c 1
    rw [cycle, List.count_cons, ih, hnext, Fin.coe_sub_one]
    by_cases ht : c = t
    · subst ht
      have hone : (m + 1 + n) / (n + 1) = m / (n + 1) + 1 := by
        rw [show m + 1 + n = m + (n + 1) by omega, Nat.add_div_right _ (Nat.succ_pos n)]
      simp only [sub_self, if_true, beq_self_eq_true, Fin.val_zero, Nat.sub_zero, Nat.add_sub_cancel, hone]
    · have hne : t - c ≠ 0 := fun h => ht (sub_eq_zero.mp h).symm
      have hpos : (t - c).val ≠ 0 := fun h => hne (Fin.ext h)
      have hle := Fin.is_le (t - c)
      rw [if_neg hne, if_neg (by simpa using ht), Nat.add_zero]
      congr 1
      omega

/-- Along a run whose steps keep the counter, giving out nothing, or move it on, giving out its value, the values given out go
round. -/
theorem collect_eq_cycle {step : σ → ε → Outcome ρ σ} (out : σ → ε → List (Fin (n + 1))) (counter : σ → Fin (n + 1)) {I : σ → Prop}
    (hstep : ∀ s e s', I s → step s e = .ok s' →
      I s' ∧ (out s e = [] ∧ counter s' = counter s ∨ out s e = [counter s] ∧ counter s' = counter s + 1))
    {s s' : σ} {es : List ε} (h : I s) (hr : run step s es = .ok s') :
    collect step out s es = cycle (counter s) (collect step out s es).length := by
  induction es generalizing s with
  | nil => rfl
  | cons e es ih =>
    rw [run_cons, Outcome.andThen_eq_ok] at hr
    obtain ⟨s₁, he, hr⟩ := hr
    obtain ⟨h₁, ⟨hout, hc⟩ | ⟨hout, hc⟩⟩ := hstep s e s₁ h he
    · have hrest := ih h₁ hr
      simp only [collect, he, hout, List.nil_append, ← hc]
      exact hrest
    · have hrest := ih h₁ hr
      simp only [collect, he, hout, List.singleton_append, List.length_cons, cycle, ← hc]
      rw [← hrest]

end Runs
