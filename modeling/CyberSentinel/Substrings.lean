import Mathlib.Data.List.Infix
import Mathlib.Tactic

/-!
# Finding and replacing a part of a list

`find` is the first place where a needle occurs, `replace` puts another part for every occurrence
from the left. A needle whose first element occurs in it only once cannot cross into a part that
begins with that element.
-/

namespace Substrings

variable {α : Type*}

def StartsWith (m : α) (text : List α) : Prop := ∀ c ∈ text.head?, c = m

theorem isPrefix_of_not_mem {m : α} {n text rest : List α} (hn : m ∉ n)
    (hrest : StartsWith m rest) (h : n <+: text ++ rest) : n <+: text := by
  induction n generalizing text with
  | nil => exact List.nil_prefix
  | cons x n ih =>
    rw [List.mem_cons, not_or] at hn
    cases text with
    | nil =>
      obtain ⟨tail, htail⟩ := h
      exact absurd (hrest x (by rw [← List.nil_append rest, ← htail]; rfl)) (Ne.symm hn.1)
    | cons y text =>
      rw [List.cons_append, List.cons_prefix_cons] at h
      exact List.cons_prefix_cons.2 ⟨h.1, ih hn.2 h.2⟩

/-- A needle that has its first element only once does not cross into a part that begins with it. -/
theorem isPrefix_cons_of_append {m c : α} {n text rest : List α} (hn : m ∉ n)
    (hrest : StartsWith m rest) (h : m :: n <+: c :: text ++ rest) : m :: n <+: c :: text := by
  rw [List.cons_append, List.cons_prefix_cons] at h
  exact List.cons_prefix_cons.2 ⟨h.1, isPrefix_of_not_mem hn hrest h.2⟩

variable [DecidableEq α]

def find (needle : List α) : List α → Option ℕ
  | [] => if needle = [] then some 0 else none
  | c :: rest => if needle <+: c :: rest then some 0 else (find needle rest).map (· + 1)

theorem find_of_isPrefix {needle text : List α} (h : needle <+: text) :
    find needle text = some 0 := by
  cases text with
  | nil => exact if_pos (List.prefix_nil.1 h)
  | cons c rest => exact if_pos h

theorem find_cons {needle : List α} {c : α} {rest : List α} (h : ¬needle <+: c :: rest) :
    find needle (c :: rest) = (find needle rest).map (· + 1) := if_neg h

theorem isPrefix_drop_of_find {needle text : List α} {i : ℕ} (h : find needle text = some i) :
    needle <+: text.drop i := by
  induction text generalizing i with
  | nil =>
    rw [find] at h
    split_ifs at h with hneedle
    rw [hneedle]
    exact List.nil_prefix
  | cons c rest ih =>
    rw [find] at h
    split_ifs at h with hbegins
    · obtain rfl : 0 = i := Option.some.inj h
      exact hbegins
    · obtain ⟨j, hj, rfl⟩ := Option.map_eq_some_iff.1 h
      exact ih hj

theorem length_le_of_find {needle text : List α} {i : ℕ} (h : find needle text = some i) :
    needle.length ≤ text.length - i := by
  have hle := (isPrefix_drop_of_find h).length_le
  rwa [List.length_drop] at hle

theorem find_le (needle before rest : List α) :
    ∃ i ≤ before.length, find needle (before ++ (needle ++ rest)) = some i := by
  induction before with
  | nil => exact ⟨0, le_rfl, find_of_isPrefix (List.prefix_append needle rest)⟩
  | cons c before ih =>
    by_cases hbegins : needle <+: c :: (before ++ (needle ++ rest))
    · exact ⟨0, Nat.zero_le _, find_of_isPrefix hbegins⟩
    · obtain ⟨i, hi, hfind⟩ := ih
      refine ⟨i + 1, Nat.succ_le_succ hi, ?_⟩
      rw [List.cons_append, find_cons hbegins, hfind, Option.map_some]

theorem find_skip {m : α} {n before : List α} (h : m ∉ before) (rest : List α) :
    find (m :: n) (before ++ rest) = (find (m :: n) rest).map (· + before.length) := by
  induction before with
  | nil => simp
  | cons c before ih =>
    rw [List.mem_cons, not_or] at h
    have hnot : ¬m :: n <+: c :: (before ++ rest) := fun hbegins =>
      h.1 (List.cons_prefix_cons.1 hbegins).1
    rw [List.cons_append, find_cons hnot, ih h.2, Option.map_map]
    rfl

/-- A part without the needle is passed over, when the next one begins with its first element. -/
theorem find_skip_part {m : α} {n part rest : List α} (hn : m ∉ n) (hpart : ¬m :: n <:+: part)
    (hrest : StartsWith m rest) :
    find (m :: n) (part ++ rest) = (find (m :: n) rest).map (· + part.length) := by
  induction part with
  | nil => simp
  | cons c part ih =>
    have hnot : ¬m :: n <+: c :: (part ++ rest) := fun h =>
      hpart (isPrefix_cons_of_append hn hrest h).isInfix
    rw [List.cons_append, find_cons hnot,
      ih (fun h => hpart (h.trans (List.suffix_cons c part).isInfix)), Option.map_map]
    rfl

/-- Replace every occurrence from the left, once `skip` more elements of the last one are past. -/
def replaceFrom (needle new : List α) : (skip : ℕ) → List α → List α
  | _, [] => []
  | skip + 1, _ :: rest => replaceFrom needle new skip rest
  | 0, c :: rest =>
    if needle <+: c :: rest then new ++ replaceFrom needle new (needle.length - 1) rest
    else c :: replaceFrom needle new 0 rest

def replace (text needle new : List α) : List α := replaceFrom needle new 0 text

theorem replaceFrom_skip (needle new text rest : List α) :
    replaceFrom needle new text.length (text ++ rest) = replaceFrom needle new 0 rest := by
  induction text with
  | nil => rfl
  | cons c text ih => exact ih

@[simp] theorem replace_nil (needle new : List α) : replace [] needle new = [] := rfl

theorem replace_cons {needle : List α} {c : α} {rest : List α} (h : ¬needle <+: c :: rest)
    (new : List α) : replace (c :: rest) needle new = c :: replace rest needle new := if_neg h

theorem replace_needle (m : α) (n new rest : List α) :
    replace (m :: n ++ rest) (m :: n) new = new ++ replace rest (m :: n) new := by
  have hbegins : m :: n <+: m :: (n ++ rest) := List.prefix_append (m :: n) rest
  rw [replace, List.cons_append, replaceFrom, if_pos hbegins]
  exact congrArg _ (replaceFrom_skip (m :: n) new n rest)

theorem replace_skip {m : α} {n text : List α} (h : m ∉ text) (new rest : List α) :
    replace (text ++ rest) (m :: n) new = text ++ replace rest (m :: n) new := by
  induction text with
  | nil => rfl
  | cons c text ih =>
    rw [List.mem_cons, not_or] at h
    have hnot : ¬m :: n <+: c :: (text ++ rest) := fun hbegins =>
      h.1 (List.cons_prefix_cons.1 hbegins).1
    rw [List.cons_append, replace_cons hnot, ih h.2, List.cons_append]

end Substrings
