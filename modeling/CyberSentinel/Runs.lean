import Mathlib.Data.List.Basic
import Mathlib.Tactic

/-!
# Runs of a deterministic machine with outputs

A machine is a step function that takes a state and an input to a state and an output. `run` feeds
it a list of inputs and collects the outputs. `Along` asks a condition of every step of a run, in
the state the step is taken in. The rules: an invariant of the steps holds after every run, and a
relation kept by two machines that answer alike makes their runs answer alike.
-/

namespace Runs

variable {σ τ ι ο : Type*}

def run (step : σ → ι → σ × ο) (s : σ) : List ι → σ × List ο
  | [] => (s, [])
  | i :: is =>
    let next := step s i
    let rest := run step next.1 is
    (rest.1, next.2 :: rest.2)

/-- Every step of the run meets `A` in the state it is taken in. -/
def Along (step : σ → ι → σ × ο) (A : σ → ι → Prop) (s : σ) : List ι → Prop
  | [] => True
  | i :: is => A s i ∧ Along step A (step s i).1 is

instance Along.decidable (step : σ → ι → σ × ο) (A : σ → ι → Prop)
    [∀ s i, Decidable (A s i)] (s : σ) :
    (is : List ι) → Decidable (Along step A s is)
  | [] => .isTrue trivial
  | i :: is =>
    have := Along.decidable step A (step s i).1 is
    inferInstanceAs (Decidable (_ ∧ _))

variable (step : σ → ι → σ × ο)

@[simp] theorem run_nil (s : σ) : run step s [] = (s, []) := rfl

@[simp] theorem run_cons (s : σ) (i : ι) (is : List ι) :
    run step s (i :: is) =
      ((run step (step s i).1 is).1, (step s i).2 :: (run step (step s i).1 is).2) := rfl

theorem length_run (s : σ) (is : List ι) : (run step s is).2.length = is.length := by
  induction is generalizing s with
  | nil => rfl
  | cons i is ih => simp [ih]

theorem run_append (s : σ) (is js : List ι) :
    run step s (is ++ js) =
      ((run step (run step s is).1 js).1,
      (run step s is).2 ++ (run step (run step s is).1 js).2) := by
  induction is generalizing s with
  | nil => simp
  | cons i is ih => simp [ih]

theorem along_append (A : σ → ι → Prop) (s : σ) (is js : List ι) :
    Along step A s (is ++ js) ↔ Along step A s is ∧ Along step A (run step s is).1 js := by
  induction is generalizing s with
  | nil => simp [Along]
  | cons i is ih => simp [Along, ih, and_assoc]

theorem along_and (A B : σ → ι → Prop) (s : σ) (is : List ι) :
    Along step (fun s i => A s i ∧ B s i) s is ↔ Along step A s is ∧ Along step B s is := by
  induction is generalizing s with
  | nil => simp [Along]
  | cons i is ih => simp only [Along, ih, and_and_and_comm]

theorem invariant (P : σ → Prop) (hstep : ∀ s i, P s → P (step s i).1) {s : σ} (hs : P s)
    (is : List ι) : P (run step s is).1 := by
  induction is generalizing s with
  | nil => exact hs
  | cons i is ih => exact ih (hstep s i hs)

theorem invariant_along (P : σ → Prop) (A : σ → ι → Prop)
    (hstep : ∀ s i, P s → A s i → P (step s i).1) {s : σ} (hs : P s) {is : List ι}
    (ha : Along step A s is) : P (run step s is).1 := by
  induction is generalizing s with
  | nil => exact hs
  | cons i is ih => exact ih (hstep s i hs ha.1) ha.2

/-- An invariant of the state together with all that was put out so far. -/
theorem invariant_outputs {α : Type*} {step : σ → ι → σ × List α} (P : List α → σ → Prop)
    {A : σ → ι → Prop}
    (hstep : ∀ out s i, P out s → A s i → P (out ++ (step s i).2) (step s i).1)
    {out : List α} {s : σ}
    (hs : P out s) {is : List ι} (ha : Along step A s is) :
    P (out ++ (run step s is).2.flatten) (run step s is).1 := by
  induction is generalizing out s with
  | nil =>
    rw [run_nil, List.flatten_nil, List.append_nil]
    exact hs
  | cons i is ih =>
    rw [run_cons, List.flatten_cons, ← List.append_assoc]
    exact ih (hstep out s i hs ha.1) ha.2

theorem along_iff (A : σ → ι → Prop) (s : σ) (is : List ι) :
    Along step A s is ↔ ∀ before i after, is = before ++ i :: after →
      A (run step s before).1 i := by
  constructor
  · intro h before i after heq
    rw [heq, along_append] at h
    exact h.2.1
  · intro h
    induction is generalizing s with
    | nil => trivial
    | cons i is ih =>
      refine ⟨h [] i is rfl, ih _ ?_⟩
      intro before j after heq
      exact h (i :: before) j after (by rw [heq, List.cons_append])

theorem outputs_eq_map {step : σ → ι → σ × ο} (f : ι → ο) (s : σ) {is : List ι}
    (h : ∀ before i after, is = before ++ i :: after → (step (run step s before).1 i).2 = f i) :
    (run step s is).2 = is.map f := by
  induction is generalizing s with
  | nil => rfl
  | cons i is ih =>
    rw [run_cons, List.map_cons, ← h [] i is rfl, run_nil, ih (step s i).1]
    intro before j after heq
    exact h (i :: before) j after (by rw [heq, List.cons_append])

/-- A property that a step keeps exactly when it meets `A`: along the run every step does so just
when the property holds at its end. -/
theorem along_iff_of_step (I P : σ → Prop) (A : σ → ι → Prop)
    (hinvariant : ∀ s i, I s → I (step s i).1)
    (hstep : ∀ s i, I s → (P (step s i).1 ↔ P s ∧ A s i)) {s : σ} (hs : I s) (is : List ι) :
    P (run step s is).1 ↔ P s ∧ Along step A s is := by
  induction is generalizing s with
  | nil => simp [Along]
  | cons i is ih => rw [run_cons, ih (hinvariant s i hs), hstep s i hs, Along, and_assoc]

section Projection

variable {κ ο' : Type*} {step : σ → ι → σ × ο} {step' : τ → κ → τ × ο'} (part : σ → τ)
  {call : ι → Option κ} {I : σ → Prop}

/-- A part of the state that only changes by the calls an input makes on it goes through the run of
these calls. -/
theorem run_project (hinvariant : ∀ s i, I s → I (step s i).1)
    (hpart : ∀ s i, I s →
      part (step s i).1 = (call i).elim (part s) (fun k => (step' (part s) k).1))
    {s : σ} (hs : I s) (is : List ι) :
    part (run step s is).1 = (run step' (part s) (is.filterMap call)).1 := by
  induction is generalizing s with
  | nil => rfl
  | cons i is ih =>
    have hnext := hpart s i hs
    rw [run_cons, ih (hinvariant s i hs), hnext]
    cases hcall : call i with
    | none => rw [List.filterMap_cons_none hcall, Option.elim_none]
    | some k => rw [List.filterMap_cons_some hcall, Option.elim_some, run_cons]

theorem along_project (hinvariant : ∀ s i, I s → I (step s i).1)
    (hpart : ∀ s i, I s →
      part (step s i).1 = (call i).elim (part s) (fun k => (step' (part s) k).1))
    {A : σ → ι → Prop} {B : τ → κ → Prop}
    (hcalls : ∀ s i, I s → (A s i ↔ ∀ k ∈ call i, B (part s) k)) {s : σ} (hs : I s) (is : List ι) :
    Along step A s is ↔ Along step' B (part s) (is.filterMap call) := by
  induction is generalizing s with
  | nil => exact Iff.rfl
  | cons i is ih =>
    have hnext := hpart s i hs
    have hrest := ih (hinvariant s i hs)
    rw [hnext] at hrest
    rw [Along, hcalls s i hs]
    cases hcall : call i with
    | none =>
      rw [hcall, Option.elim_none] at hrest
      rw [List.filterMap_cons_none hcall, hrest]
      simp
    | some k =>
      rw [hcall, Option.elim_some] at hrest
      rw [List.filterMap_cons_some hcall, Along, hrest]
      simp

end Projection

theorem forall_output_iff {step : σ → ι → σ × ο} {G : ο → Prop} {A : σ → ι → Prop}
    (h : ∀ s i, G (step s i).2 ↔ A s i) (s : σ) (is : List ι) :
    (∀ o ∈ (run step s is).2, G o) ↔ Along step A s is := by
  induction is generalizing s with
  | nil => simp [Along]
  | cons i is ih => rw [run_cons, List.forall_mem_cons, h, ih, Along]

theorem simulation {step : σ → ι → σ × ο} {step' : τ → ι → τ × ο} (R : σ → τ → Prop)
    (hstep : ∀ s t i, R s t → R (step s i).1 (step' t i).1 ∧ (step s i).2 = (step' t i).2)
    {s : σ} {t : τ} (h : R s t) (is : List ι) :
    R (run step s is).1 (run step' t is).1 ∧ (run step s is).2 = (run step' t is).2 := by
  induction is generalizing s t with
  | nil => exact ⟨h, rfl⟩
  | cons i is ih =>
    obtain ⟨hnext, hout⟩ := hstep s t i h
    obtain ⟨hrest, houts⟩ := ih hnext
    exact ⟨hrest, by simp [hout, houts]⟩

/-- Two machines whose states stay related as long as both answer within bounds: then all their
answers are related. -/
theorem simulation_within {ο' : Type*} {step : σ → ι → σ × ο} {step' : τ → ι → τ × ο'}
    (R : σ → τ → Prop) (Q : ο → ο' → Prop) (B : ο → Prop) (B' : ο' → Prop)
    (hstep : ∀ s t i, R s t → B (step s i).2 → B' (step' t i).2 →
      R (step s i).1 (step' t i).1 ∧ Q (step s i).2 (step' t i).2)
    {s : σ} {t : τ} (h : R s t) (is : List ι) (hb : ∀ o ∈ (run step s is).2, B o)
    (hb' : ∀ o ∈ (run step' t is).2, B' o) :
    List.Forall₂ Q (run step s is).2 (run step' t is).2 := by
  induction is generalizing s t with
  | nil => exact List.Forall₂.nil
  | cons i is ih =>
    obtain ⟨hfirst, hrest⟩ := List.forall_mem_cons.1 hb
    obtain ⟨hfirst', hrest'⟩ := List.forall_mem_cons.1 hb'
    obtain ⟨hnext, hout⟩ := hstep s t i h hfirst hfirst'
    exact List.Forall₂.cons hout (ih hnext hrest hrest')

/-- A fold over a list and a fold over a part of it, where the other elements do not disturb the
relation. -/
theorem foldl_filter_simulation {α : Type*} (R : σ → τ → Prop) (p : α → Bool) {f : σ → α → σ}
    {g : τ → α → τ} {l : List α}
    (hkept : ∀ x ∈ l, p x = true → ∀ s t, R s t → R (f s x) (g t x))
    (hother : ∀ x ∈ l, p x = false → ∀ s t, R s t → R (f s x) t) {s : σ} {t : τ} (h : R s t) :
    R (l.foldl f s) ((l.filter p).foldl g t) := by
  induction l generalizing s t with
  | nil => exact h
  | cons x rest ih =>
    have ih := @ih (fun y hy => hkept y (List.mem_cons_of_mem _ hy))
      (fun y hy => hother y (List.mem_cons_of_mem _ hy))
    cases hx : p x with
    | true =>
      rw [List.filter_cons_of_pos hx, List.foldl_cons, List.foldl_cons]
      exact ih (hkept x List.mem_cons_self hx s t h)
    | false =>
      rw [List.filter_cons_of_neg (by simp [hx]), List.foldl_cons]
      exact ih (hother x List.mem_cons_self hx s t h)

/-- A run whose inputs are related pairwise: what one step does to the state and the history of
inputs and outputs, given that its input is related to all earlier ones, holds of the whole run. -/
theorem history_invariant (P : σ → List (ι × ο) → Prop) (R : ι → ι → Prop)
    (hstep : ∀ s history i, P s history → (∀ e ∈ history, R e.1 i) →
      P (step s i).1 (history ++ [(i, (step s i).2)]))
    {s : σ} {history : List (ι × ο)} (hs : P s history) {is : List ι}
    (hpast : ∀ e ∈ history, ∀ i ∈ is, R e.1 i) (his : is.Pairwise R) :
    P (run step s is).1 (history ++ is.zip (run step s is).2) := by
  induction is generalizing s history with
  | nil => simpa using hs
  | cons i is ih =>
    obtain ⟨hi, his⟩ := List.pairwise_cons.1 his
    have hnext := hstep s history i hs (fun e he => hpast e he i (by simp))
    have hrest := ih hnext ?_ his
    · simpa using hrest
    · intro e he j hj
      rcases List.mem_append.1 he with he | he
      · exact hpast e he j (by simp [hj])
      · rw [List.mem_singleton.1 he]
        exact hi j hj

/-- The latest entry of a history that satisfies `P`, with what has happened since. -/
def Latest {ε : Type*} (P : ε → Prop) (history : List ε) (e : ε) (since : List ε) : Prop :=
  ∃ before, history = before ++ e :: since ∧ P e ∧ ∀ x ∈ since, ¬ P x

theorem latest_snoc_of_pos {ε : Type*} {P : ε → Prop} {history since : List ε} {x e : ε}
    (hx : P x) :
    Latest P (history ++ [x]) e since ↔ e = x ∧ since = [] := by
  constructor
  · rintro ⟨before, heq, he, hsince⟩
    rcases List.eq_nil_or_concat since with hnil | ⟨rest, y, hrest⟩
    · subst hnil
      have := List.append_inj' heq rfl
      exact ⟨(List.cons.inj this.2).1.symm, rfl⟩
    · subst hrest
      rw [List.concat_eq_append, ← List.cons_append, ← List.append_assoc] at heq
      have hlast := List.append_inj' heq rfl
      have hyx : x = y := (List.cons.inj hlast.2).1
      exact absurd hx (hyx ▸ hsince y (by simp))
  · rintro ⟨he, hsince⟩
    subst he hsince
    exact ⟨history, rfl, hx, by simp⟩

theorem latest_snoc_of_neg {ε : Type*} {P : ε → Prop} {history since : List ε} {x e : ε}
    (hx : ¬ P x) :
    Latest P (history ++ [x]) e since ↔
      ∃ earlier, since = earlier ++ [x] ∧ Latest P history e earlier := by
  constructor
  · rintro ⟨before, heq, he, hsince⟩
    rcases List.eq_nil_or_concat since with hnil | ⟨rest, y, hrest⟩
    · subst hnil
      have hlast := List.append_inj' heq rfl
      exact absurd he ((List.cons.inj hlast.2).1 ▸ hx)
    · subst hrest
      rw [List.concat_eq_append, ← List.cons_append, ← List.append_assoc] at heq
      have hlast := List.append_inj' heq rfl
      have hyx : x = y := (List.cons.inj hlast.2).1
      refine ⟨rest, by rw [hyx, List.concat_eq_append], before, hlast.1, he, ?_⟩
      exact fun z hz => hsince z (by simp [hz])
  · rintro ⟨earlier, hsince, before, heq, he, hnot⟩
    refine ⟨before, by rw [heq, hsince]; simp, he, ?_⟩
    intro z hz
    rw [hsince] at hz
    rcases List.mem_append.1 hz with hz | hz
    · exact hnot z hz
    · exact List.mem_singleton.1 hz ▸ hx

theorem Latest.unique {ε : Type*} {P : ε → Prop} {history since since' : List ε} {e e' : ε}
    (h : Latest P history e since) (h' : Latest P history e' since') : e = e' := by
  induction history using List.reverseRecOn generalizing since since' with
  | nil =>
    obtain ⟨before, heq, _⟩ := h
    simp at heq
  | append_singleton history x ih =>
    by_cases hx : P x
    · exact ((latest_snoc_of_pos hx).1 h).1.trans ((latest_snoc_of_pos hx).1 h').1.symm
    · obtain ⟨_, _, hearlier⟩ := (latest_snoc_of_neg hx).1 h
      obtain ⟨_, _, hearlier'⟩ := (latest_snoc_of_neg hx).1 h'
      exact ih hearlier hearlier'

end Runs
