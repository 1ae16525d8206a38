import CyberSentinel.HttpStream
import CyberSentinel.Lines

/-!
# The lines of a head

A head is a sequence of lines that line feeds end, each with or without a carriage return before it,
and its last line is its only empty one. The terminator is searched as a fixed sequence of bytes,
not line by line: it is there exactly if the empty line is a bare line feed, or the line before it
ends in a carriage return as well.
-/

namespace CyberSentinel

open Frames

theorem suffix_concat_concat {α : Type*} {l s : List α} {a b : α} :
    l ++ [a] <:+ s ++ [b] ↔ a = b ∧ l <:+ s := by
  rw [List.suffix_concat_iff]
  constructor
  · rintro (hnil | ⟨t, heq, hsuffix⟩)
    · exact absurd hnil (List.append_ne_nil_of_right_ne_nil _ (List.cons_ne_nil _ _))
    · obtain ⟨rfl, hlast⟩ := List.append_inj' heq rfl
      exact ⟨List.singleton_inj.1 hlast, hsuffix⟩
  · rintro ⟨rfl, hsuffix⟩
    exact Or.inr ⟨l, rfl, hsuffix⟩

/-- Nothing stands before the line feed but perhaps a carriage return. -/
def IsEmptyLine (line : List UInt8) : Prop := line = [] ∨ line = [carriageReturn]

def EndsInCr (line : List UInt8) : Prop := [carriageReturn] <:+ line

instance (line : List UInt8) : Decidable (EndsInCr line) := inferInstanceAs (Decidable (_ <:+ _))

theorem join_concat (lines : List (List UInt8)) (line : List UInt8) :
    Lines.join lineFeed (lines ++ [line]) = Lines.join lineFeed lines ++ line ++ [lineFeed] := by
  rw [Lines.join_append, List.append_assoc, Lines.join_cons]
  rfl

theorem endsInCr_join_append (lines : List (List UInt8)) (line : List UInt8) :
    EndsInCr (Lines.join lineFeed lines ++ line) ↔ EndsInCr line := by
  rw [EndsInCr, EndsInCr]
  induction line using List.reverseRecOn with
  | nil =>
    rw [List.append_nil]
    refine iff_of_false ?_ (by decide)
    induction lines using List.reverseRecOn with
    | nil => decide
    | append_singleton lines last =>
      rw [join_concat, List.singleton_suffix_append_singleton_iff]
      decide
  | append_singleton line byte =>
    rw [← List.append_assoc, List.singleton_suffix_append_singleton_iff,
      List.singleton_suffix_append_singleton_iff]

theorem endsInLf_join_append (lines : List (List UInt8)) {line : List UInt8} (h : lineFeed ∉ line) :
    [lineFeed] <:+ Lines.join lineFeed lines ++ line ↔ line = [] ∧ lines ≠ [] := by
  induction line using List.reverseRecOn with
  | nil =>
    rw [List.append_nil, eq_self_iff_true, true_and]
    induction lines using List.reverseRecOn with
    | nil => decide
    | append_singleton lines last =>
      rw [join_concat, List.singleton_suffix_append_singleton_iff]
      exact iff_of_true rfl (List.append_ne_nil_of_right_ne_nil _ (List.cons_ne_nil _ _))
  | append_singleton line byte =>
    rw [← List.append_assoc, List.singleton_suffix_append_singleton_iff]
    refine iff_of_false (fun hbyte => h (hbyte ▸ List.mem_append_right _ List.mem_cons_self)) ?_
    rintro ⟨hnil, -⟩
    exact List.append_ne_nil_of_right_ne_nil _ (List.cons_ne_nil _ _) hnil

theorem crlf_suffix_join_iff {lines : List (List UInt8)} {last : List UInt8}
    (hlast : lineFeed ∉ last) :
    [carriageReturn, lineFeed, carriageReturn] <:+ Lines.join lineFeed lines ++ last ↔
      ∃ prev ∈ lines.getLast?, last = [carriageReturn] ∧ EndsInCr prev := by
  have hends (line : List UInt8) : [carriageReturn, lineFeed] <:+ line → [lineFeed] <:+ line :=
    (List.suffix_append [carriageReturn] [lineFeed]).trans
  constructor
  · intro hsuffix
    induction last using List.reverseRecOn with
    | nil =>
      have hcr := (List.suffix_append [carriageReturn, lineFeed] [carriageReturn]).trans hsuffix
      exact absurd ((endsInCr_join_append lines []).1 hcr) (by decide)
    | append_singleton line byte =>
      rw [← List.append_assoc] at hsuffix
      obtain ⟨rfl, hrest⟩ := suffix_concat_concat (l := [carriageReturn, lineFeed]).1 hsuffix
      have hline : lineFeed ∉ line := fun hmem => hlast (List.mem_append_left _ hmem)
      obtain ⟨rfl, hne⟩ := (endsInLf_join_append lines hline).1 (hends _ hrest)
      obtain ⟨before, prev, rfl⟩ := (List.eq_nil_or_concat' _).resolve_left hne
      rw [List.append_nil, join_concat] at hrest
      have hprev := (suffix_concat_concat (l := [carriageReturn])).1 hrest
      exact ⟨prev, List.getLast?_concat, rfl, (endsInCr_join_append before prev).1 hprev.2⟩
  · rintro ⟨prev, hprev, rfl, hcr⟩
    obtain ⟨before, rfl⟩ := List.getLast?_eq_some_iff.1 hprev
    refine (suffix_concat_concat (l := [carriageReturn, lineFeed])).2 ⟨rfl, ?_⟩
    rw [join_concat]
    exact (suffix_concat_concat (l := [carriageReturn])).2
      ⟨rfl, (endsInCr_join_append before prev).2 hcr⟩

/-- What the last of some lines must be, and the one before it, for a head to end there. -/
theorem endsHead_join_iff {lines : List (List UInt8)} {last : List UInt8}
    (hlast : lineFeed ∉ last) :
    EndsHead (Lines.join lineFeed (lines ++ [last])) ↔
      ∃ prev ∈ lines.getLast?, last = [] ∨ last = [carriageReturn] ∧ EndsInCr prev := by
  rw [EndsHead, join_concat, show lfTerminator = [lineFeed] ++ [lineFeed] from rfl,
    show crlfTerminator = [carriageReturn, lineFeed, carriageReturn] ++ [lineFeed] from rfl,
    suffix_concat_concat, suffix_concat_concat, endsInLf_join_append lines hlast,
    crlf_suffix_join_iff hlast]
  constructor
  · rintro (⟨-, prev, hprev, hcrlf⟩ | ⟨-, hnil, hne⟩)
    · exact ⟨prev, hprev, Or.inr hcrlf⟩
    · exact ⟨lines.getLast hne, List.getLast?_eq_getLast_of_ne_nil hne, Or.inl hnil⟩
  · rintro ⟨prev, hprev, hnil | hcrlf⟩
    · refine Or.inr ⟨rfl, hnil, ?_⟩
      rintro rfl
      exact absurd hprev (Option.not_mem_none prev)
    · exact Or.inl ⟨rfl, prev, hprev, hcrlf⟩

/-- The lines of a head: an empty line comes last, and no other line is empty. -/
structure HeadLines (lines : List (List UInt8)) (last : List UInt8) : Prop where
  ne_nil : lines ≠ []
  no_lineFeed : ∀ line ∈ lines, lineFeed ∉ line
  not_empty : ∀ line ∈ lines, ¬ IsEmptyLine line
  last : IsEmptyLine last

def headOf (lines : List (List UInt8)) (last : List UInt8) : List UInt8 :=
  Lines.join lineFeed (lines ++ [last])

/-- The empty line ends in a carriage return and a line feed, the line before it in a line feed
only. -/
def MixedEnd (lines : List (List UInt8)) (last : List UInt8) : Prop :=
  last = [carriageReturn] ∧ ∃ prev ∈ lines.getLast?, ¬ EndsInCr prev

namespace HeadLines

variable {lines : List (List UInt8)} {last : List UInt8}

theorem no_lineFeed_last (h : HeadLines lines last) : lineFeed ∉ last := by
  rcases h.last with rfl | rfl
  · exact List.not_mem_nil
  · decide

theorem no_lineFeed_all (h : HeadLines lines last) : ∀ line ∈ lines ++ [last], lineFeed ∉ line := by
  intro line hline
  rcases List.mem_append.1 hline with hmem | hmem
  · exact h.no_lineFeed line hmem
  · rw [List.mem_singleton.1 hmem]
    exact h.no_lineFeed_last

theorem endsHead_iff (h : HeadLines lines last) :
    EndsHead (headOf lines last) ↔ ¬ MixedEnd lines last := by
  obtain ⟨before, prev, rfl⟩ := (List.eq_nil_or_concat' _).resolve_left h.ne_nil
  have hprev : (before ++ [prev]).getLast? = some prev := List.getLast?_concat
  rw [headOf, endsHead_join_iff h.no_lineFeed_last, MixedEnd, hprev]
  simp only [Option.mem_def, Option.some.injEq, exists_eq_left']
  rcases h.last with rfl | rfl
  · simp
  · simp

theorem eq_of_endsHead (h : HeadLines lines last) {p : List UInt8} (hp : p <+: headOf lines last)
    (hends : EndsHead p) : p = headOf lines last := by
  obtain ⟨text, rfl⟩ : ∃ text, p = text ++ [lineFeed] := by
    rcases hends with hcrlf | hlf
    · obtain ⟨text, rfl⟩ := hcrlf
      exact ⟨text ++ [carriageReturn, lineFeed, carriageReturn], by simp [crlfTerminator]⟩
    · obtain ⟨text, rfl⟩ := hlf
      exact ⟨text ++ [lineFeed], by simp [lfTerminator]⟩
  obtain ⟨before, after, hsplit, htext⟩ := Lines.eq_join_of_prefix h.no_lineFeed_all hp
  rw [htext] at hends ⊢
  have hne : before ≠ [] := by
    rintro rfl
    exact not_endsHead_nil hends
  obtain ⟨earlier, line, rfl⟩ := (List.eq_nil_or_concat' _).resolve_left hne
  induction after using List.reverseRecOn with
  | nil => rw [headOf, hsplit, List.append_nil]
  | append_singleton others other =>
    -- the part ends with one of the lines before the last, which is not empty
    rw [← List.append_assoc] at hsplit
    obtain ⟨rfl, -⟩ := List.append_inj' hsplit rfl
    have hmem : line ∈ earlier ++ [line] ++ others :=
      List.mem_append_left _ (List.mem_append_right _ List.mem_cons_self)
    obtain ⟨prev, -, hline⟩ := (endsHead_join_iff (h.no_lineFeed line hmem)).1 hends
    exact absurd (hline.imp_right And.left) (h.not_empty line hmem)

theorem isFrame (h : HeadLines lines last) (hend : ¬ MixedEnd lines last) :
    IsFrame EndsHead (headOf lines last) :=
  ⟨h.endsHead_iff.2 hend, fun _ hp hne hends => hne (h.eq_of_endsHead hp hends)⟩

theorem incomplete (h : HeadLines lines last) (hend : MixedEnd lines last) :
    Incomplete EndsHead (headOf lines last) := by
  intro p hp hends
  rw [h.eq_of_endsHead hp hends, h.endsHead_iff] at hends
  exact hends hend

end HeadLines
end CyberSentinel
