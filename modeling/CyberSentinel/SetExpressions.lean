import Mathlib.Data.Set.Lattice
import Mathlib.Tactic

/-!
# Expressions that denote sets

Sets written with literals, negations and lists, and a flat form of them: whether everything is in,
the literals that are in and those that are not, whatever else says. An expression is flattened by
the number of negations its literals stand under. Flattened lists mean their broad elements
together, so that a list keeps its meaning under a condition (`KeepsMeaning`).
-/

namespace SetExpr

structure Flat (ι : Type*) where
  any : Bool := false
  included : List ι := []
  /-- These are out, whatever else says. -/
  excluded : List ι := []
  deriving DecidableEq

namespace Flat

variable {ι α : Type*}

def toSet (mem : ι → Set α) (s : Flat ι) : Set α :=
  {a | (∀ i ∈ s.excluded, a ∉ mem i) ∧ (s.any = true ∨ ∃ i ∈ s.included, a ∈ mem i)}

theorem mem_toSet {mem : ι → Set α} {a : α} {test : ι → Bool} (h : ∀ i, test i = true ↔ a ∈ mem i)
    (s : Flat ι) :
    (if s.excluded.any test then false else s.any || s.included.any test) = true ↔
    a ∈ s.toSet mem := by
  have hout : s.excluded.any test = false ↔ ∀ i ∈ s.excluded, a ∉ mem i := by
    simp only [List.any_eq_false, h]
  have hin : (s.any || s.included.any test) = true ↔
      s.any = true ∨ ∃ i ∈ s.included, a ∈ mem i := by
    simp only [Bool.or_eq_true, List.any_eq_true, h]
  rw [toSet, Set.mem_ofPred_eq, ← hout, ← hin]
  cases s.excluded.any test <;> simp

def everything : Flat ι := { any := true }

def single (i : ι) : Flat ι := { included := [i] }

def merge (s t : Flat ι) : Flat ι :=
  ⟨s.any || t.any, s.included ++ t.included, s.excluded ++ t.excluded⟩

@[simp] theorem merge_empty (s : Flat ι) : s.merge {} = s := by
  simp [merge]

@[simp] theorem empty_merge (s : Flat ι) : ({} : Flat ι).merge s = s := by
  simp [merge]

theorem merge_assoc (s t u : Flat ι) : (s.merge t).merge u = s.merge (t.merge u) := by
  simp [merge, Bool.or_assoc]

def negate (s : Flat ι) : Option (Flat ι) :=
  match s.any, s.included.isEmpty, s.excluded.isEmpty with
  | true, true, true => some {}
  | true, true, false => some { included := s.excluded }
  | false, false, true => some { any := true, excluded := s.included }
  | false, true, true => some everything
  | _, _, _ => none

end Flat

inductive Expr (ι : Type*)
  | any
  | leaf (i : ι)
  | not (e : Expr ι)
  | list (es : List (Expr ι))

namespace Expr

variable {ι α : Type*}

@[elab_as_elim, induction_eliminator]
theorem induct {P : Expr ι → Prop} (any : P .any) (leaf : ∀ i, P (.leaf i))
    (not : ∀ e, P e → P (.not e)) (list : ∀ es, (∀ e ∈ es, P e) → P (.list es)) : ∀ e, P e
  | .any => any
  | .leaf i => leaf i
  | .not e => not e (induct any leaf not list e)
  | .list es => list es fun e _ => induct any leaf not list e

def IsNot (e : Expr ι) : Prop := ∃ x, e = .not x

@[simp] theorem isNot_not (e : Expr ι) : (not e).IsNot := ⟨e, rfl⟩

@[simp] theorem not_isNot_any : ¬(any : Expr ι).IsNot := fun ⟨_, h⟩ => nomatch h

@[simp] theorem not_isNot_leaf (i : ι) : ¬(leaf i).IsNot := fun ⟨_, h⟩ => nomatch h

@[simp] theorem not_isNot_list (es : List (Expr ι)) : ¬(list es).IsNot := fun ⟨_, h⟩ => nomatch h

section Denote

variable (mem : ι → Set α)

/-- The set an expression denotes. Of a list, the elements that are not negated make up the set, all
of it if there are none, and what the negated ones negate is taken away. -/
def denote : Expr ι → Set α
  | any => Set.univ
  | leaf i => mem i
  | not e => (denote e)ᶜ
  | list es =>
    {a | ((∃ e, ∃ _ : e ∈ es, ¬e.IsNot ∧ a ∈ denote e) ∨ ∀ e ∈ es, e.IsNot) ∧
      ∀ x, (_ : not x ∈ es) → a ∉ denote x}
  termination_by e => sizeOf e
  decreasing_by
    · simp
    · have := List.sizeOf_lt_of_mem ‹_ ∈ es›
      simp only [list.sizeOf_spec]
      omega
    · have := List.sizeOf_lt_of_mem ‹not x ∈ es›
      simp only [list.sizeOf_spec, not.sizeOf_spec] at this ⊢
      omega

@[simp] theorem denote_any : denote mem any = Set.univ := by rw [denote]

@[simp] theorem denote_leaf (i : ι) : denote mem (leaf i) = mem i := by rw [denote]

@[simp] theorem denote_not (e : Expr ι) : denote mem (not e) = (denote mem e)ᶜ := by rw [denote]

theorem mem_denote_list {es : List (Expr ι)} {a : α} :
    a ∈ denote mem (list es) ↔
      ((∃ e ∈ es, ¬e.IsNot ∧ a ∈ denote mem e) ∨ ∀ e ∈ es, e.IsNot) ∧ ∀ x, not x ∈ es →
      a ∉ denote mem x := by
  rw [denote]
  simp only [Set.mem_ofPred_eq, exists_prop]

end Denote

mutual

def broad : Expr ι → Bool
  | any => true
  | leaf _ => false
  | not e => !broad e
  | list es => anyBroad es

def anyBroad : List (Expr ι) → Bool
  | [] => false
  | e :: es => broad e || anyBroad es

end

mutual

/-- The literals under an even number of negations, or those under an odd number. -/
def leaves : Expr ι → (even : Bool) → List ι
  | any, _ => []
  | leaf i, even => if even then [i] else []
  | not e, even => leaves e (!even)
  | list es, even => allLeaves es even

def allLeaves : List (Expr ι) → (even : Bool) → List ι
  | [], _ => []
  | e :: es, even => leaves e even ++ allLeaves es even

end

theorem anyBroad_eq (es : List (Expr ι)) : anyBroad es = es.any broad := by
  induction es with
  | nil => rfl
  | cons e es ih => rw [anyBroad, ih, List.any_cons]

theorem allLeaves_eq (es : List (Expr ι)) (even : Bool) :
    allLeaves es even = es.flatMap (leaves · even) := by
  induction es with
  | nil => rfl
  | cons e es ih => rw [allLeaves, ih, List.flatMap_cons]

def flat (e : Expr ι) : Flat ι := ⟨e.broad, e.leaves true, e.leaves false⟩

/-- Nothing is negated that is written as everything with some literals besides. -/
inductive Expressible : Expr ι → Prop
  | any : Expressible any
  | leaf (i : ι) : Expressible (leaf i)
  | not {e : Expr ι} : Expressible e → (e.broad = true → e.leaves true = []) → Expressible (not e)
  | list {es : List (Expr ι)} : (∀ e ∈ es, Expressible e) → Expressible (list es)

@[simp] theorem flat_any : (any : Expr ι).flat = .everything := rfl

@[simp] theorem flat_leaf (i : ι) : (leaf i).flat = .single i := rfl

theorem flat_list_nil : (list [] : Expr ι).flat = {} := rfl

theorem flat_list_cons (e : Expr ι) (es : List (Expr ι)) :
    (list (e :: es)).flat = e.flat.merge (list es).flat := by
  simp only [flat, broad, anyBroad, leaves, allLeaves, Flat.merge]

theorem Expressible.broad_of_excluded {e : Expr ι} (h : e.Expressible) (hne : e.leaves false ≠ []) :
    e.broad = true := by
  induction h with
  | any => rfl
  | leaf i => simp [leaves] at hne
  | @not e h hmixed ih =>
    rw [leaves, Bool.not_false] at hne
    rw [broad, Bool.not_eq_true']
    by_contra hbroad
    rw [Bool.not_eq_false] at hbroad
    exact hne (hmixed hbroad)
  | @list es h ih =>
    rw [leaves, allLeaves_eq] at hne
    obtain ⟨i, hi⟩ := List.exists_mem_of_ne_nil _ hne
    obtain ⟨e, he, hi⟩ := List.mem_flatMap.1 hi
    rw [broad, anyBroad_eq, List.any_eq_true]
    exact ⟨e, he, ih e he (List.ne_nil_of_mem hi)⟩

theorem Expressible.excluded_eq_nil {e : Expr ι} (h : e.Expressible) (hbroad : e.broad = false) :
    e.leaves false = [] := by
  by_contra hne
  exact Bool.false_ne_true (hbroad.symm.trans (h.broad_of_excluded hne))

theorem negate_flat {e : Expr ι} (h : e.Expressible) {s : Flat ι} :
    e.flat.negate = some s ↔ (not e).Expressible ∧ s = (not e).flat := by
  have hnot : (not e).Expressible ↔ (e.broad = true → e.leaves true = []) :=
    ⟨fun hnot => by cases hnot; assumption, .not h⟩
  rw [hnot]
  simp only [flat, Flat.negate, broad, leaves, Bool.not_true, Bool.not_false, Flat.everything]
  cases hbroad : e.broad with
  | true =>
    cases hin : e.leaves true with
    | nil => cases hout : e.leaves false <;> simp [eq_comm]
    | cons i included => cases hout : e.leaves false <;> simp
  | false =>
    cases hin : e.leaves true <;> simp [h.excluded_eq_nil hbroad, eq_comm]

section Meaning

variable (mem : ι → Set α)

theorem mem_flat_not {e : Expr ι} (h : (not e).Expressible) {a : α} :
    a ∈ (not e).flat.toSet mem ↔ a ∉ e.flat.toSet mem := by
  obtain _ | _ | ⟨h, hmixed⟩ := h
  simp only [Flat.toSet, flat, broad, leaves, Bool.not_true, Bool.not_false, Set.mem_ofPred_eq]
  cases hbroad : e.broad with
  | true => simp [hmixed hbroad]
  | false => simp [h.excluded_eq_nil hbroad]

/-- A flat list means its broad elements together, or what any of its elements means if none is
broad. -/
theorem mem_flat_list {es : List (Expr ι)} (h : ∀ e ∈ es, e.Expressible) {a : α} :
    a ∈ (list es).flat.toSet mem ↔
      if es.any broad then ∀ e ∈ es, e.broad = true → a ∈ e.flat.toSet mem
      else ∃ e ∈ es, a ∈ e.flat.toSet mem := by
  have hnarrow : ∀ e ∈ es, e.broad = false → e.leaves false = [] :=
    fun e he => (h e he).excluded_eq_nil
  simp only [Flat.toSet, flat, broad, leaves, anyBroad_eq, allLeaves_eq, Set.mem_ofPred_eq,
    List.mem_flatMap]
  split_ifs with hany
  · simp only [hany, true_or, and_true]
    constructor
    · intro hout e he hbroad
      exact ⟨fun i hi => hout i ⟨e, he, hi⟩, .inl hbroad⟩
    · rintro hall i ⟨e, he, hi⟩
      have hbroad : e.broad = true := (h e he).broad_of_excluded (List.ne_nil_of_mem hi)
      exact (hall e he hbroad).1 i hi
  · rw [Bool.not_eq_true] at hany
    have hall : ∀ e ∈ es, e.broad = false := fun e he => by
      simpa using List.any_eq_false.1 hany e he
    simp only [hany, Bool.false_eq_true, false_or]
    constructor
    · rintro ⟨_, i, ⟨e, he, hi⟩, ha⟩
      refine ⟨e, he, ?_, .inr ⟨i, hi, ha⟩⟩
      rw [hnarrow e he (hall e he)]
      simp
    · rintro ⟨e, he, _, hin⟩
      obtain ⟨i, hi, ha⟩ := hin.resolve_left (by simp [hall e he])
      refine ⟨?_, i, ⟨e, he, hi⟩, ha⟩
      rintro j ⟨e', he', hj⟩
      rw [hnarrow e' he' (hall e' he')] at hj
      cases hj

def Means (e : Expr ι) : Prop := ∀ a, a ∈ e.flat.toSet mem ↔ a ∈ e.denote mem

/-- The broad elements of a list together, or all its elements if none is broad, are what it
denotes. -/
def KeepsMeaning (es : List (Expr ι)) : Prop :=
  ∀ a, (if es.any broad then ∀ e ∈ es, e.broad = true → a ∈ e.denote mem
    else ∃ e ∈ es, a ∈ e.denote mem) ↔
    a ∈ (list es).denote mem

theorem means_any : (any : Expr ι).Means mem := by
  intro a
  simp [Flat.toSet, Flat.everything]

theorem means_leaf (i : ι) : (leaf i).Means mem := by
  intro a
  simp [Flat.toSet, Flat.single]

variable {mem}

theorem Means.not {e : Expr ι} (hmeans : e.Means mem) (h : e.not.Expressible) :
    e.not.Means mem := by
  intro a
  rw [mem_flat_not mem h, hmeans, denote_not, Set.mem_compl_iff]

theorem means_list_iff {es : List (Expr ι)} (hmeans : ∀ e ∈ es, e.Means mem)
    (h : ∀ e ∈ es, e.Expressible) :
    (list es).Means mem ↔ KeepsMeaning mem es := by
  refine forall_congr' fun a => ?_
  rw [mem_flat_list mem h]
  have hall : (∀ e ∈ es, e.broad = true → a ∈ e.flat.toSet mem) ↔
      ∀ e ∈ es, e.broad = true → a ∈ e.denote mem :=
    forall₂_congr fun e he => by rw [hmeans e he a]
  have hsome : (∃ e ∈ es, a ∈ e.flat.toSet mem) ↔ ∃ e ∈ es, a ∈ e.denote mem :=
    exists_congr fun e => and_congr_right fun he => hmeans e he a
  rw [hall, hsome]

/-- A flat form is not empty if something is left of everything, or some literal stands for
something. -/
theorem flat_nonempty_iff {e : Expr ι} (h : e.Expressible) :
    (e.flat.toSet mem).Nonempty ↔
      if e.broad then ∃ a, ∀ i ∈ e.leaves false, a ∉ mem i
        else ∃ i ∈ e.leaves true, (mem i).Nonempty := by
  simp only [Flat.toSet, flat, Set.Nonempty, Set.mem_ofPred_eq]
  split_ifs with hbroad
  · simp [hbroad]
  · rw [Bool.not_eq_true] at hbroad
    simp only [hbroad, h.excluded_eq_nil hbroad, Bool.false_eq_true, false_or]
    constructor
    · rintro ⟨a, _, i, hi, ha⟩
      exact ⟨i, hi, a, ha⟩
    · rintro ⟨i, hi, a, ha⟩
      exact ⟨a, by simp, i, hi, ha⟩

end Meaning

end Expr

end SetExpr
