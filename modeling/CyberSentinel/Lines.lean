import Mathlib.Data.List.Basic
import Mathlib.Tactic

/-!
# Lines

A sequence falls into the lines that a separator ends and an unfinished rest. Behind an unfinished
rest, more of the sequence continues its first line: `cut_append` says so, and with it a reader that
is given a sequence in parts can be compared with one that is given the whole.
-/

namespace Lines

variable {α : Type*}

def extend (unfinished : List α) : List (List α) × List α → List (List α) × List α
  | ([], rest) => ([], unfinished ++ rest)
  | (line :: lines, rest) => ((unfinished ++ line) :: lines, rest)

@[simp] theorem extend_nil (p : List (List α) × List α) : extend [] p = p := by
  obtain ⟨_ | ⟨line, lines⟩, rest⟩ := p <;> rfl

theorem extend_append (u v : List α) (p : List (List α) × List α) :
    extend (u ++ v) p = extend u (extend v p) := by
  obtain ⟨_ | ⟨line, lines⟩, rest⟩ := p <;> simp [extend]

variable [DecidableEq α] (sep : α)

/-- The lines that the separator ends, without it, and the unfinished rest. -/
def cut : List α → List (List α) × List α
  | [] => ([], [])
  | a :: text => if a = sep then ([] :: (cut text).1, (cut text).2) else extend [a] (cut text)

def splitInclusive : List α → List (List α)
  | [] => []
  | a :: text =>
    if a = sep then [a] :: splitInclusive text
    else
      match splitInclusive text with
      | [] => [[a]]
      | piece :: pieces => (a :: piece) :: pieces

theorem cut_cons_sep (text : List α) :
    cut sep (sep :: text) = ([] :: (cut sep text).1, (cut sep text).2) := by
  rw [cut, if_pos rfl]

variable {sep}

theorem cut_cons_of_ne {a : α} (h : a ≠ sep) (text : List α) :
    cut sep (a :: text) = extend [a] (cut sep text) := by
  rw [cut, if_neg h]

theorem cut_append_of_not_mem {u : List α} (h : sep ∉ u) (text : List α) :
    cut sep (u ++ text) = extend u (cut sep text) := by
  induction u with
  | nil => simp
  | cons a u ih =>
    rw [List.mem_cons, not_or] at h
    rw [List.cons_append, cut_cons_of_ne (Ne.symm h.1), ih h.2, ← extend_append]
    rfl

theorem cut_append (text more : List α) :
    cut sep (text ++ more) = ((cut sep text).1 ++ (extend (cut sep text).2 (cut sep more)).1,
      (extend (cut sep text).2 (cut sep more)).2) := by
  induction text with
  | nil => simp [cut]
  | cons a text ih =>
    by_cases ha : a = sep
    · rw [ha, List.cons_append, cut_cons_sep, cut_cons_sep, ih]
      rfl
    · rw [List.cons_append, cut_cons_of_ne ha, cut_cons_of_ne ha, ih]
      obtain ⟨_ | ⟨line, lines⟩, rest⟩ := cut sep text
      · change extend [a] (extend rest (cut sep more)) = extend ([a] ++ rest) (cut sep more)
        rw [extend_append]
      · rfl

theorem not_mem_cut_rest (text : List α) : sep ∉ (cut sep text).2 := by
  induction text with
  | nil => simp [cut]
  | cons a text ih =>
    by_cases ha : a = sep
    · rw [ha, cut_cons_sep]
      exact ih
    · rw [cut_cons_of_ne ha]
      generalize cut sep text = p at ih ⊢
      obtain ⟨_ | ⟨line, lines⟩, rest⟩ := p
      · rw [extend, List.singleton_append, List.mem_cons, not_or]
        exact ⟨Ne.symm ha, ih⟩
      · exact ih

theorem cut_rest_of_nil {text : List α} (h : (cut sep text).1 = []) : (cut sep text).2 = text := by
  induction text with
  | nil => rfl
  | cons a text ih =>
    by_cases ha : a = sep
    · rw [ha, cut_cons_sep] at h
      exact absurd h (List.cons_ne_nil _ _)
    · rw [cut_cons_of_ne ha] at h ⊢
      generalize cut sep text = p at h ih ⊢
      obtain ⟨_ | ⟨line, lines⟩, rest⟩ := p
      · exact congrArg (a :: ·) (ih rfl)
      · exact absurd h (List.cons_ne_nil _ _)

/-- The pieces are the lines with their separators, and the rest if there is one. -/
theorem splitInclusive_eq (text : List α) :
    splitInclusive sep text = (cut sep text).1.map (· ++ [sep]) ++
      if (cut sep text).2 = [] then [] else [(cut sep text).2] := by
  induction text with
  | nil => rfl
  | cons a text ih =>
    by_cases ha : a = sep
    · rw [ha, splitInclusive, if_pos rfl, cut_cons_sep, ih]
      rfl
    · rw [splitInclusive, if_neg ha, cut_cons_of_ne ha, ih]
      obtain ⟨_ | ⟨line, lines⟩, rest⟩ := cut sep text
      · cases rest <;> rfl
      · rfl

variable (sep) in
def join (lines : List (List α)) : List α := lines.flatMap fun line => line ++ [sep]

omit [DecidableEq α] in
theorem join_cons (line : List α) (lines : List (List α)) :
    join sep (line :: lines) = line ++ sep :: join sep lines := by
  rw [join, List.flatMap_cons, List.append_assoc, List.singleton_append]
  rfl

omit [DecidableEq α] in
theorem join_append (lines others : List (List α)) :
    join sep (lines ++ others) = join sep lines ++ join sep others := List.flatMap_append

theorem cut_join {lines : List (List α)} (h : ∀ line ∈ lines, sep ∉ line) :
    cut sep (join sep lines) = (lines, []) := by
  induction lines with
  | nil => rfl
  | cons line rest ih =>
    obtain ⟨hline, hrest⟩ := List.forall_mem_cons.1 h
    rw [join_cons, cut_append_of_not_mem hline, cut_cons_sep, ih hrest, extend, List.append_nil]

theorem join_cut (text : List α) : join sep (cut sep text).1 ++ (cut sep text).2 = text := by
  induction text with
  | nil => rfl
  | cons a text ih =>
    by_cases ha : a = sep
    · rw [ha, cut_cons_sep, join_cons, List.nil_append, List.cons_append, ih]
    · rw [cut_cons_of_ne ha]
      generalize cut sep text = p at ih ⊢
      obtain ⟨_ | ⟨line, lines⟩, rest⟩ := p
      · exact congrArg (a :: ·) ih
      · rw [join_cons] at ih
        rw [extend, join_cons]
        exact congrArg (a :: ·) ih

theorem cut_concat_rest (text : List α) : (cut sep (text ++ [sep])).2 = [] := by
  rw [cut_append, cut_cons_sep]
  rfl

/-- A part of the text that ends with a separator is some of the lines. -/
theorem eq_join_of_prefix {lines : List (List α)} (h : ∀ line ∈ lines, sep ∉ line) {text : List α}
    (hbegins : text ++ [sep] <+: join sep lines) :
    ∃ before after, lines = before ++ after ∧ text ++ [sep] = join sep before := by
  obtain ⟨more, hmore⟩ := hbegins
  have hlines : (cut sep (text ++ [sep] ++ more)).1 = lines := by rw [hmore, cut_join h]
  rw [cut_append, cut_concat_rest, extend_nil] at hlines
  have htext : join sep (cut sep (text ++ [sep])).1 ++ (cut sep (text ++ [sep])).2 =
      text ++ [sep] :=
    join_cut _
  rw [cut_concat_rest, List.append_nil] at htext
  exact ⟨_, _, hlines.symm, htext.symm⟩

omit [DecidableEq α] in
theorem join_eq_intercalate (lines : List (List α)) :
    join sep lines = [sep].intercalate (lines ++ [[]]) := by
  induction lines with
  | nil => rfl
  | cons line rest ih =>
    rw [join_cons, ih]
    cases rest with
    | nil => rfl
    | cons next others =>
      simp only [List.cons_append, List.intercalate_cons_cons, List.append_assoc, List.nil_append]

theorem splitOn_join {lines : List (List α)} (h : ∀ line ∈ lines, sep ∉ line) :
    (join sep lines).splitOn sep = lines ++ [[]] := by
  rw [join_eq_intercalate]
  refine List.splitOn_intercalate sep (fun line hline => ?_)
    (List.append_ne_nil_of_right_ne_nil _ (List.cons_ne_nil _ _))
  rcases List.mem_append.1 hline with hmem | hlast
  · exact h line hmem
  · rw [List.mem_singleton.1 hlast]
    exact List.not_mem_nil

/-- The pieces of a text are made of what is in it, the separator apart. -/
theorem mem_of_mem_splitOn {text piece : List α} (h : piece ∈ text.splitOn sep) {a : α}
    (ha : a ∈ piece) :
    a ∈ text ∧ a ≠ sep := by
  induction text generalizing piece with
  | nil =>
    rw [List.splitOn_nil, List.mem_singleton] at h
    exact absurd (h ▸ ha) List.not_mem_nil
  | cons b text ih =>
    rw [List.splitOn_cons_eq_if_modifyHead] at h
    split_ifs at h with hb
    · rcases List.mem_cons.1 h with rfl | h
      · exact absurd ha List.not_mem_nil
      · exact (ih h ha).imp_left (List.mem_cons_of_mem _)
    · cases hpieces : text.splitOn sep with
      | nil => exact absurd hpieces (List.splitOn_ne_nil _ _)
      | cons first others =>
        rw [hpieces] at h ih
        rcases List.mem_cons.1 h with rfl | h
        · rcases List.mem_cons.1 ha with rfl | ha
          · exact ⟨List.mem_cons_self, fun heq => hb (beq_iff_eq.2 heq)⟩
          · exact (ih List.mem_cons_self ha).imp_left (List.mem_cons_of_mem _)
        · exact (ih (List.mem_cons_of_mem _ h) ha).imp_left (List.mem_cons_of_mem _)

omit [DecidableEq α]

theorem intercalate_concat {pieces : List (List α)} (hne : pieces ≠ []) (separator piece : List α) :
    separator.intercalate (pieces ++ [piece]) = separator.intercalate pieces ++
      (separator ++ piece) := by
  induction pieces with
  | nil => exact absurd rfl hne
  | cons first pieces ih =>
    by_cases hlast : pieces = []
    · rw [hlast, List.intercalate_singleton]
      simp [List.intercalate_cons_cons]
    · rw [List.cons_append,
        List.intercalate_cons_of_ne_nil (List.append_ne_nil_of_left_ne_nil hlast _),
        List.intercalate_cons_of_ne_nil hlast, ih hlast]
      simp only [List.append_assoc]

theorem mem_intercalate {a : α} {separator : List α} {pieces : List (List α)}
    (h : a ∈ separator.intercalate pieces) : a ∈ separator ∨ ∃ piece ∈ pieces, a ∈ piece := by
  induction pieces with
  | nil => exact absurd h List.not_mem_nil
  | cons piece pieces ih =>
    by_cases hne : pieces = []
    · rw [hne, List.intercalate_singleton] at h
      exact Or.inr ⟨piece, List.mem_cons_self, h⟩
    · rw [List.intercalate_cons_of_ne_nil hne, List.mem_append, List.mem_append] at h
      rcases h with (hin | hsep) | hrest
      · exact Or.inr ⟨piece, List.mem_cons_self, hin⟩
      · exact Or.inl hsep
      · exact (ih hrest).imp_right fun ⟨other, hother, hin⟩ =>
          ⟨other, List.mem_cons_of_mem _ hother, hin⟩

theorem length_intercalate_singleton {pieces : List (List α)} (hne : pieces ≠ []) (separator : α) :
    ([separator].intercalate pieces).length + 1 =
    (pieces.map fun piece => piece.length + 1).sum := by
  induction pieces with
  | nil => exact absurd rfl hne
  | cons piece pieces ih =>
    rw [List.map_cons, List.sum_cons]
    by_cases hlast : pieces = []
    · rw [hlast, List.intercalate_singleton]
      rfl
    · have hrest := ih hlast
      rw [List.intercalate_cons_of_ne_nil hlast, List.length_append, List.length_append,
        List.length_singleton]
      omega

end Lines
