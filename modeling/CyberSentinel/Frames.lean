import Mathlib.Data.List.Infix
import Mathlib.Tactic

/-!
# Streams of frames

A frame ends where a prefix of the stream first passes the test `ends`. Every stream is a sequence
of frames and a rest in which no frame is complete, in one way only. So a stream can be split piece
by piece: the rest of what has come so far goes before the next piece.
-/

namespace Frames

variable {α : Type*} (ends : List α → Prop)

/-- The sequence passes the test and none of its proper prefixes does. -/
structure IsFrame (f : List α) : Prop where
  complete : ends f
  first : ∀ p, p <+: f → p ≠ f → ¬ ends p

def Incomplete (s : List α) : Prop := ∀ p, p <+: s → ¬ ends p

structure Split (s : List α) (frames : List (List α)) (rest : List α) : Prop where
  eq : s = frames.flatten ++ rest
  frames : ∀ f ∈ frames, IsFrame ends f
  rest : Incomplete ends rest

variable {ends}

theorem Incomplete.of_prefix {s p : List α} (h : Incomplete ends s) (hp : p <+: s) :
    Incomplete ends p := fun q hq => h q (hq.trans hp)

theorem IsFrame.unique {f g s : List α} (hf : IsFrame ends f) (hg : IsFrame ends g) (hfs : f <+: s)
    (hgs : g <+: s) : f = g := by
  rcases List.prefix_or_prefix_of_prefix hfs hgs with hfg | hgf
  · by_contra hne
    exact hg.first f hfg hne hf.complete
  · by_contra hne
    exact hf.first g hgf (Ne.symm hne) hg.complete

theorem IsFrame.incomplete {f p : List α} (hf : IsFrame ends f) (hp : p <+: f) (hne : p ≠ f) :
    Incomplete ends p := by
  intro q hq
  apply hf.first q (hq.trans hp)
  intro hqf
  exact hne (hp.eq_of_length_le (hqf ▸ hq.length_le))

theorem exists_isFrame {s : List α} (h : ¬ Incomplete ends s) :
    ∃ f, f <+: s ∧ IsFrame ends f := by
  classical
  have hex : ∃ n, ∃ p, p <+: s ∧ ends p ∧ p.length = n := by
    simp only [Incomplete, not_forall, not_not] at h
    obtain ⟨p, hp, hends⟩ := h
    exact ⟨p.length, p, hp, hends, rfl⟩
  obtain ⟨f, hf, hends, hlength⟩ := Nat.find_spec hex
  refine ⟨f, hf, hends, ?_⟩
  intro p hp hne hpends
  have hlt : p.length < Nat.find hex := by
    rw [← hlength]
    exact lt_of_le_of_ne hp.length_le (fun heq => hne (hp.eq_of_length heq))
  exact Nat.find_min hex hlt ⟨p, hp.trans hf, hpends, rfl⟩

theorem split_nil (s : List α) : Split ends s [] s ↔ Incomplete ends s :=
  ⟨fun h => h.rest, fun h => ⟨rfl, by simp, h⟩⟩

theorem Split.cons {f s rest : List α} {frames : List (List α)} (hf : IsFrame ends f)
    (h : Split ends s frames rest) : Split ends (f ++ s) (f :: frames) rest := by
  refine ⟨by rw [h.eq, List.flatten_cons, List.append_assoc], ?_, h.rest⟩
  exact List.forall_mem_cons.2 ⟨hf, h.frames⟩

theorem Split.of_cons {f s rest : List α} {frames : List (List α)}
    (h : Split ends (f ++ s) (f :: frames) rest) : Split ends s frames rest := by
  refine ⟨?_, (List.forall_mem_cons.1 h.frames).2, h.rest⟩
  have heq := h.eq
  rwa [List.flatten_cons, List.append_assoc, List.append_right_inj] at heq

theorem exists_split (hnil : ¬ ends []) (s : List α) : ∃ frames rest, Split ends s frames rest := by
  induction hn : s.length using Nat.strong_induction_on generalizing s with
  | _ n ih =>
    by_cases hs : Incomplete ends s
    · exact ⟨[], s, (split_nil s).2 hs⟩
    · obtain ⟨f, ⟨t, rfl⟩, hf⟩ := exists_isFrame hs
      have hpos : 0 < f.length := by
        apply List.length_pos_of_ne_nil
        intro hempty
        exact hnil (hempty ▸ hf.complete)
      obtain ⟨frames, rest, h⟩ := ih t.length (by rw [← hn, List.length_append]; omega) t rfl
      exact ⟨f :: frames, rest, h.cons hf⟩

theorem Split.unique {s rest rest' : List α} {frames frames' : List (List α)}
    (h : Split ends s frames rest) (h' : Split ends s frames' rest') :
    frames = frames' ∧ rest = rest' := by
  induction frames generalizing s frames' with
  | nil =>
    cases frames' with
    | nil => exact ⟨rfl, h.eq.symm.trans h'.eq⟩
    | cons g gs =>
      have hs : s = rest := h.eq
      have hg : g <+: s := by
        rw [h'.eq, List.flatten_cons, List.append_assoc]
        exact List.prefix_append _ _
      exact absurd (h'.frames g (by simp)).complete (h.rest g (hs ▸ hg))
  | cons f fs ih =>
    have hf : f <+: s := by
      rw [h.eq, List.flatten_cons, List.append_assoc]
      exact List.prefix_append _ _
    obtain ⟨t, rfl⟩ := hf
    cases frames' with
    | nil =>
      have hs : f ++ t = rest' := h'.eq
      exact absurd (h.frames f (by simp)).complete (h'.rest f (hs ▸ List.prefix_append _ _))
    | cons g gs =>
      have hg : g <+: f ++ t := by
        rw [h'.eq, List.flatten_cons, List.append_assoc]
        exact List.prefix_append _ _
      obtain rfl := (h.frames f (by simp)).unique (h'.frames g (by simp))
        (List.prefix_append _ _) hg
      obtain ⟨hfs, hrest⟩ := ih h.of_cons h'.of_cons
      exact ⟨by rw [hfs], hrest⟩

theorem Split.append {s t rest rest' : List α} {frames frames' : List (List α)}
    (h : Split ends s frames rest) (h' : Split ends (rest ++ t) frames' rest') :
    Split ends (s ++ t) (frames ++ frames') rest' := by
  refine ⟨?_, ?_, h'.rest⟩
  · rw [h.eq, List.append_assoc, h'.eq, List.flatten_append, List.append_assoc]
  · intro f hf
    rcases List.mem_append.1 hf with hf | hf
    · exact h.frames f hf
    · exact h'.frames f hf

/-- The frames of a stream are those of its first part, and those of the rest of it with what
follows. -/
theorem Split.of_append (hnil : ¬ ends []) {s t rest rest' : List α} {frames all : List (List α)}
    (h : Split ends s frames rest) (hall : Split ends (s ++ t) all rest') :
    ∃ frames', all = frames ++ frames' ∧ Split ends (rest ++ t) frames' rest' := by
  obtain ⟨frames', rest'', h'⟩ := exists_split hnil (rest ++ t)
  obtain ⟨heq, hrest⟩ := hall.unique (h.append h')
  exact ⟨frames', heq, hrest ▸ h'⟩

theorem Incomplete.length_lt {s t f rest : List α} {frames : List (List α)}
    (hs : Incomplete ends s) (h : Split ends (s ++ t) (f :: frames) rest) :
    s.length < f.length := by
  by_contra hle
  have hf : f <+: s ++ t := by
    rw [h.eq, List.flatten_cons, List.append_assoc]
    exact List.prefix_append _ _
  have hfs : f <+: s := List.prefix_of_prefix_length_le hf (List.prefix_append _ _) (by omega)
  exact hs f hfs (h.frames f (by simp)).complete

/-- A bound on the frames and the rest of a stream is a bound on what has come of its next frame. -/
theorem Incomplete.length_le {s t rest : List α} {frames : List (List α)} {bound : ℕ}
    (hs : Incomplete ends s) (h : Split ends (s ++ t) frames rest)
    (hframes : ∀ f ∈ frames, f.length ≤ bound) (hrest : rest.length ≤ bound) :
    s.length ≤ bound := by
  cases frames with
  | nil =>
    have heq : s ++ t = rest := h.eq
    rw [← heq, List.length_append] at hrest
    omega
  | cons f fs => exact (hs.length_lt h).le.trans (hframes f (by simp))

end Frames
