import Mathlib.Data.List.Infix
import Mathlib.Tactic

/-!
# Stacks that may be popped when they are empty

A stack takes pushes and pops in any order. A pop of the empty stack leaves it empty and is noted.
It happens exactly if, up to some point, there are more pops than pushes.
-/

namespace Stacks

variable {α : Type*}

inductive Move (α : Type*)
  | push (a : α)
  | pop
  | stay

namespace Move

def isPop : Move α → Bool
  | pop => true
  | _ => false

def pushed : Move α → Option α
  | push a => some a
  | _ => none

/-- The stack, its top at the end, and whether it has been popped when it was empty. -/
def step (s : List α × Bool) : Move α → List α × Bool
  | push a => (s.1 ++ [a], s.2)
  | pop => (s.1.dropLast, s.2 || s.1.isEmpty)
  | stay => s

end Move

open Move

def run (moves : List (Move α)) : List α × Bool := moves.foldl step ([], false)

def pushes (moves : List (Move α)) : ℕ := (moves.filterMap pushed).length

def pops (moves : List (Move α)) : ℕ := moves.countP isPop

/-- What is on the stack does not depend on whether it has been popped when it was empty. -/
theorem foldl_step_congr {s t : List α × Bool} (h : s.1 = t.1) (moves : List (Move α)) :
    (moves.foldl step s).1 = (moves.foldl step t).1 := by
  induction moves generalizing s t with
  | nil => exact h
  | cons m moves ih =>
    apply ih
    cases m with
    | push a => exact congrArg (· ++ [a]) h
    | pop => exact congrArg List.dropLast h
    | stay => exact h

theorem run_concat (moves : List (Move α)) (m : Move α) :
    run (moves ++ [m]) = step (run moves) m := by
  rw [run, List.foldl_append]
  rfl

theorem pushes_concat (moves : List (Move α)) (m : Move α) :
    pushes (moves ++ [m]) = pushes moves + m.pushed.toList.length := by
  rw [pushes, List.filterMap_append, List.length_append]
  cases m <;> rfl

theorem pops_concat (moves : List (Move α)) (m : Move α) :
    pops (moves ++ [m]) = pops moves + if m.isPop then 1 else 0 := by
  rw [pops, List.countP_append, List.countP_singleton]
  rfl

/-- As long as every pop found something, the stack holds what was pushed and not popped, and no
beginning has more pops than pushes. -/
theorem run_sound (moves : List (Move α)) (h : (run moves).2 = false) :
    (run moves).1.length + pops moves = pushes moves ∧ ∀ taken, taken <+: moves →
    pops taken ≤ pushes taken := by
  induction moves using List.reverseRecOn with
  | nil =>
    refine ⟨rfl, fun taken htaken => ?_⟩
    rw [List.prefix_nil.1 htaken]
    exact le_rfl
  | append_singleton moves m ih =>
    rw [run_concat] at h ⊢
    have hbefore : (run moves).2 = false := by
      cases m with
      | push a => exact h
      | pop => exact (Bool.or_eq_false_iff.1 h).1
      | stay => exact h
    obtain ⟨hlength, hprefix⟩ := ih hbefore
    have hcount : (step (run moves) m).1.length + pops (moves ++ [m]) = pushes (moves ++ [m]) := by
      rw [pushes_concat, pops_concat, ← hlength]
      cases m with
      | push a =>
        simp only [step, pushed, isPop, List.length_append, List.length_singleton,
          Option.toList_some,
          Bool.false_eq_true, if_false]
        omega
      | pop =>
        have hne : (run moves).1 ≠ [] := List.isEmpty_eq_false_iff.1 (Bool.or_eq_false_iff.1 h).2
        have hpos := List.length_pos_of_ne_nil hne
        simp only [step, pushed, isPop, List.length_dropLast, Option.toList_none,
          List.length_nil, if_true]
        omega
      | stay =>
        simp only [step, pushed, isPop, Option.toList_none, List.length_nil,
          Bool.false_eq_true, if_false,
          Nat.add_zero]
    refine ⟨hcount, fun taken htaken => ?_⟩
    rcases List.prefix_concat_iff.1 htaken with rfl | hearlier
    · omega
    · exact hprefix taken hearlier

/-- Once a pop has found nothing, some beginning has more pops than pushes. -/
theorem run_underflow (moves : List (Move α)) (h : (run moves).2 = true) :
    ∃ taken, taken <+: moves ∧ pushes taken < pops taken := by
  induction moves using List.reverseRecOn with
  | nil => exact absurd h Bool.noConfusion
  | append_singleton moves m ih =>
    rw [run_concat] at h
    cases hbefore : (run moves).2 with
    | true =>
      obtain ⟨taken, htaken, hmore⟩ := ih hbefore
      exact ⟨taken, htaken.trans (List.prefix_append _ _), hmore⟩
    | false =>
      have hlength := (run_sound moves hbefore).1
      refine ⟨moves ++ [m], List.prefix_rfl, ?_⟩
      rw [pushes_concat, pops_concat]
      cases m with
      | push a => exact absurd (hbefore.symm.trans h) Bool.noConfusion
      | pop =>
        rw [step, hbefore, Bool.false_or, List.isEmpty_iff] at h
        rw [h, List.length_nil] at hlength
        simp only [pushed, isPop, Option.toList_none, List.length_nil, if_true]
        omega
      | stay => exact absurd (hbefore.symm.trans h) Bool.noConfusion

theorem underflow_iff (moves : List (Move α)) :
    (run moves).2 = true ↔ ∃ taken, taken <+: moves ∧ pushes taken < pops taken := by
  constructor
  · exact run_underflow moves
  · rintro ⟨taken, htaken, hmore⟩
    by_contra hnever
    have hle := (run_sound moves (Bool.not_eq_true _ ▸ hnever)).2 taken htaken
    omega

theorem run_sublist (moves : List (Move α)) : (run moves).1.Sublist (moves.filterMap pushed) := by
  induction moves using List.reverseRecOn with
  | nil => exact List.Sublist.refl _
  | append_singleton moves m ih =>
    rw [run_concat, List.filterMap_append]
    cases m with
    | push a => exact ih.append (List.Sublist.refl _)
    | pop => exact ((List.dropLast_sublist _).trans ih).trans (List.sublist_append_left _ _)
    | stay => exact ih.trans (List.sublist_append_left _ _)

theorem run_of_no_pop (moves : List (Move α)) (h : ∀ m ∈ moves, m.isPop = false) :
    run moves = (moves.filterMap pushed, false) := by
  induction moves using List.reverseRecOn with
  | nil => rfl
  | append_singleton moves m ih =>
    rw [run_concat, ih fun other hother =>
      h other (List.mem_append_left _ hother), List.filterMap_append]
    have hm := h m (by simp)
    cases m with
    | push a => rfl
    | pop => exact absurd hm Bool.noConfusion
    | stay => simp [step, pushed]

end Stacks
