import CyberSentinel.Blanks
import CyberSentinel.Evtx
import CyberSentinel.Lines

/-!
# The lines of a rule file

A rule may go on over several lines: a line that ends in a backslash is continued by the next one.
Comments and blank lines stand between rules. `Grouping` says which lines make a rule, and the loop
that joins them follows it.
-/

namespace CyberSentinel.Rules

open Texts
open Evtx (trim)

def stripLineEnd (line : Text) : Text :=
  if line.getLast? = some '\n' then
    if line.dropLast.getLast? = some '\r' then line.dropLast.dropLast else line.dropLast
  else line

structure PhysicalLine where
  number : ℕ
  text : Text
  deriving DecidableEq, Repr

def physicalLines (text : Text) : List PhysicalLine :=
  ((Lines.splitInclusive '\n' text).zipIdx 1).map fun (line, number) => ⟨number, stripLineEnd line⟩

namespace PhysicalLine

variable (line : PhysicalLine)

/-- The line without blanks around it, and without a byte order mark if it is the first. -/
def trimmed : Text :=
  trim (if line.number = 1 then line.text.dropWhile (· = '\ufeff') else line.text)

def IsBlank : Prop := line.trimmed = []

def IsComment : Prop := line.trimmed.head? = some '#'

def Continues : Prop := line.trimmed.getLast? = some '\\'

def IsBare : Prop := line.trimmed = ['\\']

instance : Decidable line.IsBlank := inferInstanceAs (Decidable (_ = _))

instance : Decidable line.IsComment := inferInstanceAs (Decidable (_ = _))

instance : Decidable line.Continues := inferInstanceAs (Decidable (_ = _))

instance : Decidable line.IsBare := inferInstanceAs (Decidable (_ = _))

def piece : Text :=
  if line.Continues then line.trimmed.dropLast.rdropWhile isWhitespace ++ [' '] else line.trimmed

end PhysicalLine

structure Joining where
  out : List (ℕ × Text) := []
  buffer : Text := []
  startLine : ℕ := 0

namespace Joining

def takeLine (s : Joining) (line : PhysicalLine) : Joining :=
  if s.buffer = [] ∧ (line.IsBlank ∨ line.IsComment) then s
  else
    let startLine := if s.buffer = [] then line.number else s.startLine
    if line.Continues then { s with buffer := s.buffer ++ line.piece, startLine }
    else { out := s.out ++ [(startLine, s.buffer ++ line.piece)], buffer := [], startLine }

/-- A rule that the last line would have continued is kept as it is, unless there is nothing of it.
-/
def finish (s : Joining) : List (ℕ × Text) :=
  if trim s.buffer = [] then s.out else s.out ++ [(s.startLine, s.buffer)]

end Joining

def logicalLines (text : Text) : List (ℕ × Text) :=
  ((physicalLines text).foldl Joining.takeLine {}).finish

structure RuleLines where
  first : PhysicalLine
  others : List PhysicalLine

namespace RuleLines

variable (g : RuleLines)

def all : List PhysicalLine := g.first :: g.others

def logical : ℕ × Text := (g.first.number, g.all.flatMap PhysicalLine.piece)

def Starts : Prop := ¬g.first.IsBlank ∧ ¬g.first.IsComment

end RuleLines

/-- How lines fall into rules. What is left over at the end are lines of nothing but a backslash. -/
inductive Grouping : List PhysicalLine → List RuleLines → List PhysicalLine → Prop
  | done : Grouping [] [] []
  | skip {line : PhysicalLine} {lines : List PhysicalLine} {groups : List RuleLines}
      {dropped : List PhysicalLine} :
      line.IsBlank ∨ line.IsComment → Grouping lines groups dropped →
      Grouping (line :: lines) groups dropped
  | rule {g : RuleLines} {front : List PhysicalLine} {last : PhysicalLine}
    {lines : List PhysicalLine}
      {groups : List RuleLines} {dropped : List PhysicalLine} : g.Starts → g.all = front ++ [last] →
      (∀ line ∈ front, line.Continues) → ¬last.Continues → Grouping lines groups dropped →
      Grouping (g.all ++ lines) (g :: groups) dropped
  | unfinished {g : RuleLines} : g.Starts → (∀ line ∈ g.all, line.Continues) → Grouping g.all [g] []
  | dropped {lines : List PhysicalLine} : (∀ line ∈ lines, line.IsBare) → Grouping lines [] lines

namespace PhysicalLine

variable {line : PhysicalLine}

theorem IsBare.continues (h : line.IsBare) : line.Continues := by
  rw [Continues, show line.trimmed = ['\\'] from h]
  rfl

theorem piece_ne_nil (h : line.Continues) : line.piece ≠ [] := by
  rw [piece, if_pos h]
  simp

/-- A line that goes on adds only blanks where there is nothing but its backslash. -/
theorem piece_blank_iff (h : line.Continues) :
    (∀ c ∈ line.piece, isWhitespace c = true) ↔ line.IsBare := by
  obtain ⟨front, hfront⟩ := List.getLast?_eq_some_iff.1 h
  have hpiece : line.piece = front.rdropWhile isWhitespace ++ [' '] := by
    rw [piece, if_pos h, hfront, List.dropLast_concat]
  rw [IsBare, hpiece, hfront]
  constructor
  · intro hblank
    cases front with
    | nil => rfl
    | cons c front =>
      have hhead : isWhitespace c = false := by
        have hall : ∀ d ∈ line.trimmed.head?, isWhitespace d = false := Blanks.head_strip
        rw [hfront] at hall
        exact hall c rfl
      have hstay : (c :: front).rdropWhile isWhitespace = c :: front.rdropWhile isWhitespace :=
        Blanks.rdropWhile_append_cons hhead [] front
      rw [hstay] at hblank
      exact absurd (hblank c (by simp)) (by simp [hhead])
  · intro hbare
    obtain rfl : front = [] := List.append_left_eq_self.1 hbare
    simp [isWhitespace]

end PhysicalLine

structure Joining.Holds (s : Joining) (lines : List PhysicalLine) : Prop where
  continues : ∀ line ∈ lines, line.Continues
  buffer : s.buffer = lines.flatMap PhysicalLine.piece
  starts : ∀ first ∈ lines.head?, s.startLine = first.number ∧ ¬first.IsBlank ∧ ¬first.IsComment

namespace Joining.Holds

variable {s : Joining} {lines : List PhysicalLine}

theorem buffer_eq_nil_iff (h : s.Holds lines) : s.buffer = [] ↔ lines = [] := by
  rw [h.buffer]
  cases lines with
  | nil => simp
  | cons first rest =>
    simp [PhysicalLine.piece_ne_nil (h.continues first List.mem_cons_self)]

theorem trim_buffer_iff (h : s.Holds lines) : trim s.buffer = [] ↔ ∀ line ∈ lines, line.IsBare := by
  have hblank : trim s.buffer = [] ↔ ∀ c ∈ s.buffer, isWhitespace c = true :=
    Blanks.strip_eq_nil_iff
  rw [hblank, h.buffer]
  constructor
  · intro hall line hline
    exact (PhysicalLine.piece_blank_iff (h.continues line hline)).1
      fun c hc => hall c (List.mem_flatMap.2 ⟨line, hline, hc⟩)
  · intro hall c hc
    obtain ⟨line, hline, hc⟩ := List.mem_flatMap.1 hc
    exact (PhysicalLine.piece_blank_iff (h.continues line hline)).2 (hall line hline) c hc

end Joining.Holds

/-- From where these lines are being joined, the loop joins the rest as `Grouping` says. -/
theorem grouping_of_joining {s : Joining} {held : List PhysicalLine} (h : s.Holds held)
    (lines : List PhysicalLine) :
    ∃ groups dropped, Grouping (held ++ lines) groups dropped ∧
      (lines.foldl Joining.takeLine s).finish = s.out ++ groups.map RuleLines.logical := by
  induction lines generalizing s held with
  | nil =>
    rw [List.append_nil, List.foldl_nil, Joining.finish]
    by_cases hbare : ∀ line ∈ held, line.IsBare
    · refine ⟨[], held, .dropped hbare, ?_⟩
      rw [if_pos (h.trim_buffer_iff.2 hbare), List.map_nil, List.append_nil]
    · rw [if_neg (h.trim_buffer_iff.not.2 hbare)]
      cases held with
      | nil => exact absurd (by simp) hbare
      | cons first rest =>
        obtain ⟨hstart, hfirst⟩ := h.starts first rfl
        refine ⟨[⟨first, rest⟩], [],
          Grouping.unfinished (g := ⟨first, rest⟩) hfirst h.continues, ?_⟩
        rw [List.map_singleton, RuleLines.logical, hstart, h.buffer]
        rfl
  | cons line lines ih =>
    rw [List.foldl_cons, Joining.takeLine]
    by_cases hskip : s.buffer = [] ∧ (line.IsBlank ∨ line.IsComment)
    · obtain rfl := h.buffer_eq_nil_iff.1 hskip.1
      obtain ⟨groups, dropped, hgrouping, hout⟩ := ih h
      rw [if_pos hskip]
      exact ⟨groups, dropped, .skip hskip.2 hgrouping, hout⟩
    · rw [if_neg hskip]
      -- the rule that this line belongs to
      have hrule : ∃ g : RuleLines, g.all = held ++ [line] ∧ g.Starts ∧
          (if s.buffer = [] then line.number else s.startLine) = g.first.number := by
        cases held with
        | nil =>
          have hnil : s.buffer = [] := h.buffer_eq_nil_iff.2 rfl
          rw [not_and, not_or] at hskip
          exact ⟨⟨line, []⟩, rfl, hskip hnil, if_pos hnil⟩
        | cons first rest =>
          obtain ⟨hstart, hfirst⟩ := h.starts first rfl
          refine ⟨⟨first, rest ++ [line]⟩, rfl, hfirst, ?_⟩
          rw [if_neg (h.buffer_eq_nil_iff.not.2 (by simp)), hstart]
      obtain ⟨g, hall, hstarts, hnumber⟩ := hrule
      have hbuffer : s.buffer ++ line.piece = g.all.flatMap PhysicalLine.piece := by
        rw [hall, h.buffer, List.flatMap_append, List.flatMap_singleton]
      have hassoc : held ++ line :: lines = g.all ++ lines := by rw [hall, List.append_assoc]; rfl
      simp only [hnumber, hbuffer]
      rw [hassoc]
      split_ifs with hcontinues
      · refine ih ⟨?_, rfl, ?_⟩
        · rw [hall]
          simpa [or_imp, forall_and] using ⟨h.continues, hcontinues⟩
        · rintro first ⟨⟩
          exact ⟨rfl, hstarts⟩
      · have hnone : Joining.Holds
            ⟨s.out ++ [(g.first.number, g.all.flatMap PhysicalLine.piece)], [],
            g.first.number⟩ [] :=
          ⟨by simp, rfl, by simp⟩
        obtain ⟨groups, dropped, hgrouping, hout⟩ := ih hnone
        refine ⟨g :: groups, dropped, .rule hstarts hall h.continues hcontinues hgrouping, ?_⟩
        rw [hout, List.append_assoc]
        rfl

theorem logicalLines_grouping (text : Text) :
    ∃ groups dropped, Grouping (physicalLines text) groups dropped ∧
      logicalLines text = groups.map RuleLines.logical := by
  have hnone : ({} : Joining).Holds [] := ⟨by simp, rfl, by simp⟩
  exact grouping_of_joining hnone (physicalLines text)

/-- Every line of a rule is in one place of one rule, but for lines of nothing but a backslash at
the end. -/
structure Grouped (lines : List PhysicalLine) (groups : List RuleLines)
    (dropped : List PhysicalLine) : Prop where
  in_order : List.Sublist (groups.flatMap RuleLines.all ++ dropped) lines
  contiguous : ∀ g ∈ groups, g.all <:+: lines
  starts : ∀ g ∈ groups, g.Starts
  continued : ∀ g ∈ groups, ∀ line ∈ g.all.dropLast, line.Continues
  ended : ∀ g ∈ groups, ∀ last : PhysicalLine, g.all.getLast? = some last → last.Continues →
    g.all <:+ lines
  covered : ∀ line ∈ lines, ¬line.IsBlank → ¬line.IsComment →
    line ∈ dropped ∨ ∃! i : ℕ, ∃ g, groups[i]? = some g ∧ line ∈ g.all
  dropped_last : dropped <:+ lines
  dropped_bare : ∀ line ∈ dropped, line.IsBare

namespace Grouping

variable {lines : List PhysicalLine} {groups : List RuleLines} {dropped : List PhysicalLine}

theorem in_order (h : Grouping lines groups dropped) :
    List.Sublist (groups.flatMap RuleLines.all ++ dropped) lines := by
  induction h with
  | done => exact List.Sublist.refl _
  | skip _ _ ih => exact ih.cons _
  | rule _ _ _ _ _ ih =>
    rw [List.flatMap_cons, List.append_assoc]
    exact ih.append_left _
  | unfinished _ _ => simp
  | dropped _ => exact List.Sublist.refl _

theorem contiguous (h : Grouping lines groups dropped) : ∀ g ∈ groups, g.all <:+: lines := by
  induction h with
  | done | dropped _ => simp
  | skip _ _ ih => exact fun g hg => (ih g hg).trans (List.suffix_cons _ _).isInfix
  | rule _ _ _ _ _ ih =>
    intro g hg
    rcases List.mem_cons.1 hg with rfl | hg
    · exact (List.prefix_append _ _).isInfix
    · exact (ih g hg).trans (List.suffix_append _ _).isInfix
  | unfinished _ _ =>
    intro g hg
    rw [List.mem_singleton.1 hg]

theorem starts (h : Grouping lines groups dropped) : ∀ g ∈ groups, g.Starts := by
  induction h with
  | done | dropped _ => simp
  | skip _ _ ih => exact ih
  | rule hstarts _ _ _ _ ih => simpa using ⟨hstarts, ih⟩
  | unfinished hstarts _ => simpa using hstarts

theorem continued (h : Grouping lines groups dropped) :
    ∀ g ∈ groups, ∀ line ∈ g.all.dropLast, line.Continues := by
  induction h with
  | done | dropped _ => simp
  | skip _ _ ih => exact ih
  | rule _ hall hfront _ _ ih =>
    intro g hg
    rcases List.mem_cons.1 hg with rfl | hg
    · rw [hall, List.dropLast_concat]
      exact hfront
    · exact ih g hg
  | unfinished _ hall =>
    intro g hg line hline
    rw [List.mem_singleton.1 hg] at hline
    exact hall line (List.mem_of_mem_dropLast hline)

theorem ended (h : Grouping lines groups dropped) :
    ∀ g ∈ groups, ∀ last : PhysicalLine, g.all.getLast? = some last → last.Continues →
      g.all <:+ lines := by
  induction h with
  | done | dropped _ => simp
  | skip _ _ ih => exact fun g hg last hlast hcontinues =>
      (ih g hg last hlast hcontinues).trans (List.suffix_cons _ _)
  | rule _ hall _ hstops _ ih =>
    intro g hg last hlast hcontinues
    rcases List.mem_cons.1 hg with rfl | hg
    · rw [hall, List.getLast?_concat] at hlast
      exact absurd (Option.some.inj hlast ▸ hcontinues) hstops
    · exact (ih g hg last hlast hcontinues).trans (List.suffix_append _ _)
  | unfinished _ _ =>
    intro g hg last _ _
    rw [List.mem_singleton.1 hg]

theorem dropped_last (h : Grouping lines groups dropped) : dropped <:+ lines := by
  induction h with
  | done | dropped _ => exact List.suffix_rfl
  | skip _ _ ih => exact ih.trans (List.suffix_cons _ _)
  | rule _ _ _ _ _ ih => exact ih.trans (List.suffix_append _ _)
  | unfinished _ _ => exact List.nil_suffix

theorem dropped_bare (h : Grouping lines groups dropped) : ∀ line ∈ dropped, line.IsBare := by
  induction h with
  | done | unfinished _ _ => simp
  | skip _ _ ih | rule _ _ _ _ _ ih => exact ih
  | dropped hbare => exact hbare

theorem mem_or_dropped (h : Grouping lines groups dropped) {line : PhysicalLine}
    (hline : line ∈ lines)
    (hblank : ¬line.IsBlank) (hcomment : ¬line.IsComment) :
    line ∈ dropped ∨ ∃ g ∈ groups, line ∈ g.all := by
  induction h with
  | done => cases hline
  | skip hskip _ ih =>
    rcases List.mem_cons.1 hline with rfl | hline
    · exact absurd hskip (not_or.2 ⟨hblank, hcomment⟩)
    · exact ih hline
  | rule _ _ _ _ _ ih =>
    rcases List.mem_append.1 hline with hg | hline
    · exact .inr ⟨_, List.mem_cons_self, hg⟩
    · obtain hdropped | ⟨g, hg, hmem⟩ := ih hline
      · exact .inl hdropped
      · exact .inr ⟨g, List.mem_cons_of_mem _ hg, hmem⟩
  | unfinished _ _ => exact .inr ⟨_, List.mem_singleton_self _, hline⟩
  | dropped _ => exact .inl hline

theorem grouped (h : Grouping lines groups dropped) (hnodup : lines.Nodup) :
    Grouped lines groups dropped where
  in_order := h.in_order
  contiguous := h.contiguous
  starts := h.starts
  continued := h.continued
  ended := h.ended
  dropped_last := h.dropped_last
  dropped_bare := h.dropped_bare
  covered line hline hblank hcomment := by
    apply (h.mem_or_dropped hline hblank hcomment).imp_right
    rintro ⟨g, hg, hmem⟩
    obtain ⟨i, hi⟩ := List.mem_iff_getElem?.1 hg
    refine ⟨i, ⟨g, hi, hmem⟩, ?_⟩
    rintro j ⟨g', hj, hmem'⟩
    have hdisjoint := (List.nodup_flatMap.1 (List.Nodup.of_append_left (h.in_order.nodup hnodup))).2
    rw [List.pairwise_iff_getElem] at hdisjoint
    obtain ⟨hi', rfl⟩ := List.getElem?_eq_some_iff.1 hi
    obtain ⟨hj', rfl⟩ := List.getElem?_eq_some_iff.1 hj
    rcases Nat.lt_trichotomy i j with hlt | rfl | hlt
    · exact (hdisjoint i j hi' hj' hlt hmem hmem').elim
    · rfl
    · exact (hdisjoint j i hj' hi' hlt hmem' hmem).elim

end Grouping

theorem physicalLines_nodup (text : Text) : (physicalLines text).Nodup := by
  have hnumbers : (physicalLines text).map PhysicalLine.number =
      List.range' 1 (Lines.splitInclusive '\n' text).length := by
    rw [physicalLines, List.map_map]
    exact List.zipIdx_map_snd 1 _
  apply List.Nodup.of_map PhysicalLine.number
  rw [hnumbers]
  exact List.nodup_range'

end CyberSentinel.Rules
