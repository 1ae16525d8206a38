import CyberSentinel.Bytes
import CyberSentinel.Runs

/-!
# Code that may crash

A computation that can crash answers none when it does. `sub?`, `add?`, `copy?` and `removeFirst?`
are integer and vector operations with the checks they make. `attempt` runs a step that may crash
over a list of inputs, up to the first crash. The rule: where an invariant rules the crash out and
the checked step answers as the plain one, the whole run does.
-/

namespace Crashes

open Bytes

variable {α : Type*}

/-- `a - b` on unsigned integers. -/
def sub? (a b : ℕ) : Option ℕ := if b ≤ a then some (a - b) else none

/-- `a + b` on unsigned integers up to `limit`. -/
def add? (limit a b : ℕ) : Option ℕ := if a + b ≤ limit then some (a + b) else none

/-- `v[start..stop].copy_from_slice(src)`. -/
def copy? (v : List α) (start stop : ℕ) (src : List α) : Option (List α) :=
  (slice? v start stop).bind fun target =>
    if target.length = src.length then some (overwrite v start stop src) else none

/-- `v.remove(0)`. -/
def removeFirst? : List α → Option (List α)
  | [] => none
  | _ :: rest => some rest

theorem sub?_of_le {a b : ℕ} (h : b ≤ a) : sub? a b = some (a - b) := if_pos h

theorem add?_of_le {limit a b : ℕ} (h : a + b ≤ limit) : add? limit a b = some (a + b) := if_pos h

theorem copy?_of_le {v src : List α} {start stop : ℕ} (h : start ≤ stop) (hv : stop ≤ v.length)
    (hsrc : src.length = stop - start) :
    copy? v start stop src = some (overwrite v start stop src) := by
  rw [copy?, slice?_of_le h hv, Option.bind_some, length_slice v hv, if_pos hsrc.symm]

theorem removeFirst?_of_ne_nil {v : List α} (h : v ≠ []) : removeFirst? v = some v.tail := by
  cases v with
  | nil => exact absurd rfl h
  | cons first rest => rfl

end Crashes

namespace Runs

variable {σ ι ο : Type*}

def attempt (step? : σ → ι → Option (σ × ο)) (s : σ) : List ι → Option (σ × List ο)
  | [] => some (s, [])
  | i :: is =>
    (step? s i).bind fun next =>
      (attempt step? next.1 is).map fun rest => (rest.1, next.2 :: rest.2)

variable {step? : σ → ι → Option (σ × ο)} {step : σ → ι → σ × ο}

theorem attempt_cons_of_none {s : σ} {i : ι} (h : step? s i = none) (is : List ι) :
    attempt step? s (i :: is) = none := by
  rw [attempt, h, Option.bind_none]

/-- A run whose steps do not crash where the invariant holds is the plain run. -/
theorem attempt_eq_run (I : σ → Prop) (hsafe : ∀ s i, I s → step? s i = some (step s i))
    (hkept : ∀ s i, I s → I (step s i).1) {s : σ} (hs : I s) (is : List ι) :
    attempt step? s is = some (run step s is) := by
  induction is generalizing s with
  | nil => rfl
  | cons i is ih =>
    rw [attempt, hsafe s i hs, Option.bind_some, ih (hkept s i hs), Option.map_some, run_cons]

end Runs
