import CyberSentinel.Runs
import Mathlib.Order.WellFounded

/-!
# Machines fed without end

A machine that is fed an endless sequence of inputs reaches a goal when some of the inputs, that
keep coming, bring it nearer, and no other input takes it further away again.
-/

namespace Runs

variable {σ ι ο α : Type*} (step : σ → ι → σ × ο)

/-- The state after the first `n` inputs. -/
def after (s : σ) (inputs : ℕ → ι) (n : ℕ) : σ :=
  (run step s ((List.range n).map inputs)).1

theorem after_succ (s : σ) (inputs : ℕ → ι) (n : ℕ) :
    after step s inputs (n + 1) = (step (after step s inputs n) (inputs n)).1 := by
  rw [after, List.range_succ, List.map_append, run_append]
  rfl

variable [Preorder α] {step} (measure : σ → α) (goal : σ → Prop) {A works : ι → Prop}

theorem measure_after_le (hkeeps : ∀ s i, A i → ¬ goal s → measure (step s i).1 ≤ measure s) {s : σ}
    {inputs : ℕ → ι} (hnever : ∀ n, ¬ goal (after step s inputs n)) {n k : ℕ}
    (hinputs : ∀ j, n ≤ j → A (inputs j)) (hle : n ≤ k) :
    measure (after step s inputs k) ≤ measure (after step s inputs n) := by
  induction k, hle using Nat.le_induction with
  | base => exact le_rfl
  | succ k hle ih =>
    rw [after_succ]
    exact (hkeeps _ _ (hinputs k hle) (hnever k)).trans ih

/-- The inputs `A` take nothing back, and those of them that work bring the goal nearer. -/
theorem reaches_of_measure [WellFoundedLT α]
    (hkeeps : ∀ s i, A i → ¬ goal s → measure (step s i).1 ≤ measure s)
    (hworks : ∀ s i, A i → works i → ¬ goal s → measure (step s i).1 < measure s)
    {inputs : ℕ → ι} {first : ℕ} (hinputs : ∀ n, first ≤ n → A (inputs n))
    (hfair : ∀ n, ∃ k, n ≤ k ∧ works (inputs k)) (s : σ) : ∃ n, goal (after step s inputs n) := by
  by_contra hnone
  rw [not_exists] at hnone
  have hdescends (a : α) : ∀ n, first ≤ n → measure (after step s inputs n) ≠ a := by
    induction a using WellFoundedLT.induction with
    | ind a ih =>
      rintro n hfirst rfl
      obtain ⟨k, hle, hwork⟩ := hfair n
      have hinput := hinputs k (hfirst.trans hle)
      have hlt : measure (after step s inputs (k + 1)) < measure (after step s inputs n) := by
        rw [after_succ]
        exact (hworks _ _ hinput hwork (hnone k)).trans_le
          (measure_after_le measure goal hkeeps hnone (fun j hj => hinputs j (hfirst.trans hj)) hle)
      exact ih _ hlt (k + 1) (hfirst.trans (hle.trans k.le_succ)) rfl
  exact hdescends _ first le_rfl rfl

end Runs
