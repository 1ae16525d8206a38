import Mathlib.Data.List.DropRight
import Mathlib.Tactic

/-!
# Blanks at the ends of a list

`strip p` drops the elements with `p` from both ends. What is left begins and ends without one, and
what is added at an end in blanks alone does not show.
-/

namespace Blanks

variable {α : Type*} (p : α → Bool)

def strip (text : List α) : List α := (text.dropWhile p).rdropWhile p

variable {p}

theorem dropWhile_eq_self {text : List α} (h : ∀ c ∈ text.head?, p c = false) :
    text.dropWhile p = text := by
  cases text with
  | nil => rfl
  | cons c rest => exact List.dropWhile_cons_of_neg (by rw [h c rfl]; exact Bool.false_ne_true)

theorem rdropWhile_eq_self {text : List α} (h : ∀ c ∈ text.getLast?, p c = false) :
    text.rdropWhile p = text := by
  rw [List.rdropWhile_eq_self_iff]
  intro hne
  rw [h _ (List.getLast?_eq_getLast_of_ne_nil hne)]
  exact Bool.false_ne_true

theorem strip_infix (text : List α) : strip p text <:+: text :=
  (List.rdropWhile_prefix p _).isInfix.trans (List.dropWhile_suffix p).isInfix

theorem strip_eq_self {text : List α} (hhead : ∀ c ∈ text.head?, p c = false)
    (hlast : ∀ c ∈ text.getLast?, p c = false) : strip p text = text := by
  rw [strip, dropWhile_eq_self hhead, rdropWhile_eq_self hlast]

theorem rdropWhile_append {text blank : List α} (h : ∀ c ∈ blank, p c = true) :
    (text ++ blank).rdropWhile p = text.rdropWhile p := by
  induction blank using List.reverseRecOn with
  | nil => rw [List.append_nil]
  | append_singleton blank c ih =>
    rw [← List.append_assoc, List.rdropWhile_concat_pos _ _ _ (h c (by simp)),
      ih fun d hd => h d (List.mem_append_left _ hd)]

theorem strip_blank_append {blank : List α} (h : ∀ c ∈ blank, p c = true) (text : List α) :
    strip p (blank ++ text) = strip p text := by
  rw [strip, strip, List.dropWhile_append_of_pos h]

theorem strip_append_blank {blank : List α} (h : ∀ c ∈ blank, p c = true) (text : List α) :
    strip p (text ++ blank) = strip p text := by
  rw [strip, strip, List.dropWhile_append]
  split_ifs with hempty
  · rw [List.isEmpty_iff.1 hempty, List.dropWhile_eq_nil_iff.2 h]
  · exact rdropWhile_append h

theorem strip_eq_nil_iff {text : List α} : strip p text = [] ↔ ∀ c ∈ text, p c = true := by
  rw [strip, List.rdropWhile_eq_nil_iff]
  constructor
  · intro h
    have hnil : text.dropWhile p = [] := by
      by_contra hne
      have hhead := List.head_dropWhile_not p hne
      rw [h _ (List.head_mem hne)] at hhead
      exact Bool.false_ne_true hhead.symm
    exact List.dropWhile_eq_nil_iff.1 hnil
  · intro h c hc
    exact h c ((List.dropWhile_suffix p).subset hc)

theorem rdropWhile_append_cons {c : α} (hc : p c = false) (text rest : List α) :
    (text ++ c :: rest).rdropWhile p = text ++ c :: rest.rdropWhile p := by
  induction rest using List.reverseRecOn with
  | nil =>
    rw [List.rdropWhile_concat_neg _ _ _ (by rw [hc]; exact Bool.false_ne_true)]
    rfl
  | append_singleton rest d ih =>
    have hassoc : text ++ c :: (rest ++ [d]) = text ++ c :: rest ++ [d] := by simp
    by_cases hd : p d = true
    · rw [hassoc, List.rdropWhile_concat_pos _ _ _ hd, ih, List.rdropWhile_concat_pos _ _ _ hd]
    · rw [hassoc, List.rdropWhile_concat_neg _ _ _ hd, List.rdropWhile_concat_neg _ _ _ hd, hassoc]

theorem strip_append_cons {c : α} (hc : p c = false) (text rest : List α) :
    strip p (text ++ c :: rest) = text.dropWhile p ++ c :: rest.rdropWhile p := by
  have hcons : (c :: rest).dropWhile p = c :: rest :=
    List.dropWhile_cons_of_neg (by rw [hc]; exact Bool.false_ne_true)
  rw [strip, List.dropWhile_append]
  split_ifs with hempty
  · rw [hcons, List.isEmpty_iff.1 hempty]
    exact rdropWhile_append_cons hc [] rest
  · exact rdropWhile_append_cons hc _ rest

theorem strip_cons {c : α} (hc : p c = false) (rest : List α) :
    strip p (c :: rest) = c :: rest.rdropWhile p := strip_append_cons hc [] rest

theorem head_strip {text : List α} : ∀ c ∈ (strip p text).head?, p c = false := by
  intro c hc
  rw [strip] at hc
  have hdrop := List.head?_dropWhile_not p text
  have hmem : c ∈ (text.dropWhile p).head? := by
    obtain ⟨rest, hrest⟩ := List.rdropWhile_prefix p (text.dropWhile p)
    rw [← hrest]
    exact List.mem_head?_append_of_mem_head? hc
  rw [Option.mem_def.1 hmem] at hdrop
  simpa using hdrop

theorem getLast_strip {text : List α} : ∀ c ∈ (strip p text).getLast?, p c = false := by
  intro c hc
  have hne : strip p text ≠ [] := by
    rintro hnil
    rw [hnil] at hc
    exact Option.not_mem_none c hc
  have hlast := List.rdropWhile_last_not p _ hne
  rw [Option.mem_def, List.getLast?_eq_getLast_of_ne_nil hne, Option.some.injEq] at hc
  rw [← hc]
  exact Bool.eq_false_iff.2 hlast

@[simp] theorem strip_strip (text : List α) : strip p (strip p text) = strip p text :=
  strip_eq_self head_strip getLast_strip

@[simp] theorem strip_rdropWhile (text : List α) : strip p (text.rdropWhile p) = strip p text := by
  have hsplit : text.rdropWhile p ++ text.rtakeWhile p = text := List.rdropWhile_append_rtakeWhile
  have hblank : ∀ c ∈ text.rtakeWhile p, p c = true := fun c hc => List.mem_rtakeWhile_imp hc
  conv_rhs => rw [← hsplit]
  rw [strip_append_blank hblank]

@[simp] theorem strip_dropWhile (text : List α) : strip p (text.dropWhile p) = strip p text := by
  rw [strip, strip, List.dropWhile_idempotent]

end Blanks
