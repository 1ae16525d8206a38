import CyberSentinel.Lines
import CyberSentinel.Normalize
import CyberSentinel.Stacks

/-!
# Collapsed paths

A path is collapsed into the segments that are left of it, behind a first slash if there was one and
in front of a last one if the path names a directory. Of the parts of a path the ordinary ones are
pushed on a stack and `..` pops it. What comes out is written in the one way that collapsing leaves
alone.
-/

namespace CyberSentinel

open Stacks

def unify (backslashIsSeparator : Bool) (path : List UInt8) : List UInt8 :=
  if backslashIsSeparator then path.map fun byte => if byte = backslashByte then slash
    else byte else path

def pathParts (backslashIsSeparator : Bool) (path : List UInt8) : List (List UInt8) :=
  (unify backslashIsSeparator path).splitOn slash

def IsAbsolute (backslashIsSeparator : Bool) (path : List UInt8) : Prop :=
  (unify backslashIsSeparator path).head? = some slash

instance (b : Bool) (path : List UInt8) : Decidable (IsAbsolute b path) :=
  inferInstanceAs (Decidable (_ = _))

def IsOrdinary (part : List UInt8) : Prop := part ≠ [] ∧ part ≠ [dot] ∧ part ≠ [dot, dot]

instance (part : List UInt8) : Decidable (IsOrdinary part) := inferInstanceAs (Decidable (_ ∧ _))

def partMove (part : List UInt8) : Move (List UInt8) :=
  if part = [] ∨ part = [dot] then .stay else if part = [dot, dot] then .pop else .push part

theorem partMove_of_isOrdinary {part : List UInt8} (h : IsOrdinary part) :
    partMove part = .push part := by
  rw [partMove, if_neg (not_or.2 ⟨h.1, h.2.1⟩), if_neg h.2.2]

theorem pushed_partMove (part : List UInt8) :
    (partMove part).pushed = if IsOrdinary part then some part else none := by
  rw [partMove]
  by_cases hnil : part = []
  · rw [if_pos (Or.inl hnil), if_neg fun h => h.1 hnil]
    rfl
  · by_cases hdot : part = [dot]
    · rw [if_pos (Or.inr hdot), if_neg fun h => h.2.1 hdot]
      rfl
    · by_cases hdots : part = [dot, dot]
      · rw [if_neg (not_or.2 ⟨hnil, hdot⟩), if_pos hdots, if_neg fun h => h.2.2 hdots]
        rfl
      · rw [if_neg (not_or.2 ⟨hnil, hdot⟩), if_neg hdots, if_pos ⟨hnil, hdot, hdots⟩]
        rfl

theorem isPop_partMove (part : List UInt8) : (partMove part).isPop = true ↔ part = [dot, dot] := by
  rw [partMove]
  by_cases hstay : part = [] ∨ part = [dot]
  · rw [if_pos hstay]
    apply iff_of_false Bool.noConfusion
    rintro rfl
    exact absurd hstay (by decide)
  · rw [if_neg hstay]
    split_ifs with hdots
    · exact iff_of_true rfl hdots
    · exact iff_of_false Bool.noConfusion hdots

/-- The segments that are left, and whether one was taken away that was not there. -/
def keptSegments (parts : List (List UInt8)) : List (List UInt8) × Bool := run (parts.map partMove)

theorem filterMap_pushed (parts : List (List UInt8)) :
    (parts.map partMove).filterMap Move.pushed = parts.filter IsOrdinary := by
  induction parts with
  | nil => rfl
  | cons part parts ih =>
    rw [List.map_cons, List.filterMap_cons, pushed_partMove, List.filter_cons, ih]
    by_cases hpart : IsOrdinary part
    · simp only [if_pos hpart, decide_eq_true hpart, if_true]
    · simp only [if_neg hpart, decide_eq_false hpart, Bool.false_eq_true, if_false]

theorem keptSegments_sublist (parts : List (List UInt8)) :
    (keptSegments parts).1.Sublist (parts.filter IsOrdinary) := by
  rw [← filterMap_pushed]
  exact run_sublist _

theorem isOrdinary_of_mem_keptSegments {parts : List (List UInt8)} {segment : List UInt8}
    (h : segment ∈ (keptSegments parts).1) : segment ∈ parts ∧ IsOrdinary segment := by
  have hmem := (keptSegments_sublist parts).subset h
  rw [List.mem_filter, decide_eq_true_eq] at hmem
  exact hmem

theorem keptSegments_of_not_mem {parts : List (List UInt8)} (h : [dot, dot] ∉ parts) :
    keptSegments parts = (parts.filter IsOrdinary, false) := by
  rw [keptSegments, run_of_no_pop, filterMap_pushed]
  intro m hm
  obtain ⟨part, hpart, rfl⟩ := List.mem_map.1 hm
  rw [Bool.eq_false_iff, ne_eq, isPop_partMove]
  rintro rfl
  exact h hpart

/-- More is taken away than there is exactly if, up to some part, there are more `..` than ordinary
parts. -/
theorem keptSegments_snd_iff (parts : List (List UInt8)) :
    (keptSegments parts).2 = true ↔
      ∃ taken, taken <+: parts ∧ (taken.filter IsOrdinary).length < taken.count [dot, dot] := by
  have hcounts (taken : List (List UInt8)) :
      pushes (taken.map partMove) = (taken.filter IsOrdinary).length ∧
        pops (taken.map partMove) = taken.count [dot, dot] := by
    refine ⟨by rw [pushes, filterMap_pushed], ?_⟩
    rw [pops, List.countP_map, List.count]
    refine List.countP_congr fun part _ => ?_
    rw [beq_iff_eq]
    exact isPop_partMove part
  rw [keptSegments, underflow_iff]
  constructor
  · rintro ⟨moves, hmoves, hmore⟩
    obtain ⟨taken, htaken, rfl⟩ := List.prefix_map_iff.1 hmoves
    rw [(hcounts taken).1, (hcounts taken).2] at hmore
    exact ⟨taken, htaken, hmore⟩
  · rintro ⟨taken, htaken, hmore⟩
    refine ⟨taken.map partMove, htaken.map partMove, ?_⟩
    rwa [(hcounts taken).1, (hcounts taken).2]

/-- The segments, behind a slash and in front of one where these are asked for. -/
def writePath (absolute trailing : Bool) (segments : List (List UInt8)) : List UInt8 :=
  (if absolute then [slash]
    else []) ++ [slash].intercalate segments ++ (if trailing then [slash] else [])

def pathFlags (backslash : Bool) (parts : List (List UInt8)) : NormalizationFlags where
  traversal := parts.contains [dot, dot]
  aboveRoot := (keptSegments parts).2
  selfReference := parts.contains [dot]
  emptySegment := (parts.drop 1).dropLast.any List.isEmpty
  backslash := backslash

def NamesDirectory (parts : List (List UInt8)) : Prop :=
  parts.getLast? = some [] ∨ parts.getLast? = some [dot] ∨ parts.getLast? = some [dot, dot]

instance (parts : List (List UInt8)) : Decidable (NamesDirectory parts) :=
  inferInstanceAs (Decidable (_ ∨ _))

theorem collapseStep_move (s : List (List UInt8) × NormalizationFlags) (part : List UInt8) :
    collapseStep s part =
      (((partMove part).step (s.1, s.2.aboveRoot)).1,
        { s.2 with
          selfReference := s.2.selfReference || [dot] == part
          traversal := s.2.traversal || [dot, dot] == part
          aboveRoot := ((partMove part).step (s.1, s.2.aboveRoot)).2 }) := by
  obtain ⟨segments, flags⟩ := s
  rw [collapseStep, partMove]
  by_cases hnil : part = []
  · simp [hnil, Move.step]
  · by_cases hdot : part = [dot]
    · simp [hdot, Move.step]
    · by_cases hdots : part = [dot, dot]
      · simp [hdots, Move.step]
      · have hself : ([dot] == part) = false := beq_false_of_ne (Ne.symm hdot)
        have hparent : ([dot, dot] == part) = false := beq_false_of_ne (Ne.symm hdots)
        simp [hnil, hdot, hdots, Move.step, hself, hparent]

theorem foldl_collapseStep_move (parts : List (List UInt8))
    (s : List (List UInt8) × NormalizationFlags) :
    parts.foldl collapseStep s =
      (((parts.map partMove).foldl Move.step (s.1, s.2.aboveRoot)).1,
        { s.2 with
          selfReference := s.2.selfReference || parts.contains [dot]
          traversal := s.2.traversal || parts.contains [dot, dot]
          aboveRoot := ((parts.map partMove).foldl Move.step (s.1, s.2.aboveRoot)).2 }) := by
  induction parts generalizing s with
  | nil => simp
  | cons part parts ih =>
    rw [List.foldl_cons, ih, collapseStep_move, List.map_cons, List.foldl_cons, List.contains_cons,
      List.contains_cons, ← Bool.or_assoc, ← Bool.or_assoc]

theorem slash_not_mem_pathParts {b : Bool} {path part : List UInt8} (h : part ∈ pathParts b path) :
    slash ∉ part :=
  fun hmem => (Lines.mem_of_mem_splitOn h hmem).2 rfl

/-- Segments that name something, one after the other, end as the last of them does. -/
theorem getLast?_intercalate {segments : List (List UInt8)} (hne : segments ≠ [])
    (h : ∀ segment ∈ segments, segment ≠ [] ∧ slash ∉ segment) :
    ∃ byte, ([slash].intercalate segments).getLast? = some byte ∧ byte ≠ slash := by
  induction segments with
  | nil => exact absurd rfl hne
  | cons segment segments ih =>
    by_cases hlast : segments = []
    · obtain ⟨hsegment, hslash⟩ := h segment List.mem_cons_self
      rw [hlast, List.intercalate_singleton]
      refine ⟨_, List.getLast?_eq_some_getLast hsegment, ?_⟩
      intro heq
      exact hslash (heq ▸ List.getLast_mem hsegment)
    · obtain ⟨byte, hbyte, hother⟩ := ih hlast fun other hmem =>
        h other (List.mem_cons_of_mem _ hmem)
      refine ⟨byte, ?_, hother⟩
      rw [List.intercalate_cons_of_ne_nil hlast, List.getLast?_append, hbyte]
      rfl

/-- Only a path that is left empty, or is a slash alone, does not ask for another slash. -/
theorem joined_open_iff (absolute : Prop) [Decidable absolute] {segments : List (List UInt8)}
    (h : ∀ segment ∈ segments, segment ≠ [] ∧ slash ∉ segment) :
    ((if absolute then [slash] else []) ++ [slash].intercalate segments ≠ [] ∧
        ((if absolute then [slash] else []) ++ [slash].intercalate segments).getLast? ≠
        some slash) ↔
      segments ≠ [] := by
  by_cases hne : segments = []
  · rw [hne, List.intercalate_nil, List.append_nil]
    refine iff_of_false ?_ (not_not.2 rfl)
    rintro ⟨hjoined, hlast⟩
    split_ifs at hjoined hlast with habsolute
    · exact hlast rfl
    · exact hjoined rfl
  · obtain ⟨byte, hbyte, hother⟩ := getLast?_intercalate hne h
    refine iff_of_true ⟨?_, ?_⟩ hne
    · intro hnil
      rw [(List.append_eq_nil_iff.1 hnil).2] at hbyte
      exact absurd hbyte (by simp)
    · rw [List.getLast?_append, hbyte]
      exact fun heq => hother (Option.some.inj heq)

theorem collapsePath_eq (input : List UInt8) (b : Bool) :
    collapsePath input b =
      (writePath (decide (IsAbsolute b input))
          (decide (NamesDirectory (pathParts b input)) &&
          !(keptSegments (pathParts b input)).1.isEmpty)
          (keptSegments (pathParts b input)).1,
        pathFlags (b && input.contains backslashByte) (pathParts b input)) := by
  by_cases hempty : unify b input = []
  · have hinput : input = [] := by
      rw [unify] at hempty
      split_ifs at hempty with hb
      · exact List.map_eq_nil_iff.1 hempty
      · exact hempty
    rw [hinput]
    cases b <;> rfl
  · have hcollapse : collapsePath input b =
        let collapsed := (pathParts b input).foldl collapseStep
          ([], { backslash := b && input.contains backslashByte
                 emptySegment := ((pathParts b input).drop 1).dropLast.any List.isEmpty })
        let joined := (if IsAbsolute b input then [slash]
          else []) ++ [slash].intercalate collapsed.1
        if (pathParts b input).getLast? ∈ [some [], some [dot], some [dot, dot]] ∧ joined ≠ [] ∧
            joined.getLast? ≠ some slash then
          (joined ++ [slash], collapsed.2)
        else (joined, collapsed.2) := if_neg hempty
    have hfold := foldl_collapseStep_move (pathParts b input)
      ([], { backslash := b && input.contains backslashByte
             emptySegment := ((pathParts b input).drop 1).dropLast.any List.isEmpty })
    have hsegments : ∀ segment ∈ (keptSegments (pathParts b input)).1, segment ≠ [] ∧
        slash ∉ segment := by
      intro segment hsegment
      obtain ⟨hpart, hordinary⟩ := isOrdinary_of_mem_keptSegments hsegment
      exact ⟨hordinary.1, slash_not_mem_pathParts hpart⟩
    have hopen := joined_open_iff (IsAbsolute b input) hsegments
    have hflags : ((pathParts b input).foldl collapseStep
        ([], { backslash := b && input.contains backslashByte
               emptySegment := ((pathParts b input).drop 1).dropLast.any List.isEmpty })).2 =
        pathFlags (b && input.contains backslashByte) (pathParts b input) := by
      rw [hfold]
      simp only [Bool.false_or]
      rfl
    have hkept : ((pathParts b input).foldl collapseStep
        ([], { backslash := b && input.contains backslashByte
               emptySegment := ((pathParts b input).drop 1).dropLast.any List.isEmpty })).1 =
        (keptSegments (pathParts b input)).1 := by
      rw [hfold]
      rfl
    have hdirectory : (pathParts b input).getLast? ∈ [some [], some [dot], some [dot, dot]] ↔
        NamesDirectory (pathParts b input) := by
      simp only [List.mem_cons, List.not_mem_nil, or_false, NamesDirectory]
    rw [hcollapse]
    simp only [hflags, hkept, hopen, hdirectory]
    rw [writePath]
    by_cases habsolute : IsAbsolute b input <;>
      by_cases hends : NamesDirectory (pathParts b input) <;>
      by_cases hnil : (keptSegments (pathParts b input)).1 = [] <;> simp [habsolute, hends, hnil]

structure Kept (b : Bool) (segments : List (List UInt8)) : Prop where
  ordinary : ∀ segment ∈ segments, IsOrdinary segment
  no_slash : ∀ segment ∈ segments, slash ∉ segment
  no_backslash : b = true → ∀ segment ∈ segments, backslashByte ∉ segment

theorem backslash_not_mem_unify (path : List UInt8) : backslashByte ∉ unify true path := by
  rw [unify, if_pos rfl]
  intro hmem
  obtain ⟨byte, -, heq⟩ := List.mem_map.1 hmem
  split_ifs at heq with hbyte
  · exact absurd heq (by decide)
  · exact hbyte heq

theorem kept_keptSegments (b : Bool) (path : List UInt8) :
    Kept b (keptSegments (pathParts b path)).1 where
  ordinary segment h := (isOrdinary_of_mem_keptSegments h).2
  no_slash segment h := slash_not_mem_pathParts (isOrdinary_of_mem_keptSegments h).1
  no_backslash hb segment h hmem := by
    subst hb
    exact backslash_not_mem_unify path
      (Lines.mem_of_mem_splitOn (isOrdinary_of_mem_keptSegments h).1 hmem).1

def writtenParts (absolute trailing : Bool) (segments : List (List UInt8)) : List (List UInt8) :=
  (if absolute then [[]] else []) ++ (if segments = [] then [[]] else segments) ++
    (if trailing then [[]] else [])

theorem intercalate_cons_nil {parts : List (List UInt8)} (hne : parts ≠ []) :
    [slash].intercalate ([] :: parts) = slash :: [slash].intercalate parts := by
  rw [List.intercalate_cons_of_ne_nil hne]
  rfl

theorem writePath_eq_intercalate (absolute trailing : Bool) (segments : List (List UInt8)) :
    writePath absolute trailing segments =
      [slash].intercalate (writtenParts absolute trailing segments) := by
  have hmiddle : [slash].intercalate (if segments = [] then [[]] else segments) =
      [slash].intercalate segments := by
    split_ifs with hnil
    · rw [hnil]
      rfl
    · rfl
  have hne : (if segments = [] then [[]] else segments) ≠ [] := by
    split_ifs with hnil
    · exact List.cons_ne_nil _ _
    · exact hnil
  rw [writePath, writtenParts]
  cases absolute with
  | false =>
    cases trailing with
    | false => simp [hmiddle]
    | true =>
      rw [← hmiddle]
      exact (Lines.intercalate_concat hne [slash] []).symm
  | true =>
    cases trailing with
    | false =>
      rw [← hmiddle]
      simp [intercalate_cons_nil hne]
    | true =>
      rw [← hmiddle]
      simp [intercalate_cons_nil (List.append_ne_nil_of_left_ne_nil hne _),
        Lines.intercalate_concat hne]

section Written

variable {b absolute trailing : Bool} {segments : List (List UInt8)} (hkept : Kept b segments)

include hkept in
theorem backslash_not_mem_writePath (hb : b = true) :
    backslashByte ∉ writePath absolute trailing segments := by
  rw [writePath, List.mem_append, List.mem_append]
  rintro ((hlead | hmem) | htrail)
  · cases absolute <;> simp [backslashByte, slash] at hlead
  · rcases Lines.mem_intercalate hmem with hseparator | ⟨segment, hsegment, hin⟩
    · exact absurd (List.mem_singleton.1 hseparator) (by decide)
    · exact hkept.no_backslash hb segment hsegment hin
  · cases trailing <;> simp [backslashByte, slash] at htrail

theorem unify_of_not_mem {path : List UInt8} (h : b = true → backslashByte ∉ path) :
    unify b path = path := by
  cases b with
  | false => rfl
  | true =>
    rw [unify, if_pos rfl]
    refine (List.map_congr_left fun byte hbyte => ?_).trans (List.map_id _)
    exact if_neg fun heq : byte = backslashByte => h rfl (heq ▸ hbyte)

include hkept in
theorem unify_writePath :
    unify b (writePath absolute trailing segments) = writePath absolute trailing segments :=
  unify_of_not_mem (backslash_not_mem_writePath hkept)

include hkept in
theorem pathParts_writePath :
    pathParts b (writePath absolute trailing segments) =
      writtenParts absolute trailing segments := by
  rw [pathParts, unify_writePath hkept, writePath_eq_intercalate]
  refine List.splitOn_intercalate slash (fun part hpart => ?_) ?_
  · rw [writtenParts, List.mem_append, List.mem_append] at hpart
    rcases hpart with (hlead | hmiddle) | htrail
    · cases absolute <;> simp at hlead
      rw [hlead]
      exact List.not_mem_nil
    · split_ifs at hmiddle with hnil
      · rw [List.mem_singleton.1 hmiddle]
        exact List.not_mem_nil
      · exact hkept.no_slash part hmiddle
    · cases trailing <;> simp at htrail
      rw [htrail]
      exact List.not_mem_nil
  · rw [writtenParts]
    refine List.append_ne_nil_of_left_ne_nil (List.append_ne_nil_of_right_ne_nil _ ?_) _
    split_ifs with hnil
    · exact List.cons_ne_nil _ _
    · exact hnil

theorem mem_writtenParts {part : List UInt8} (h : part ∈ writtenParts absolute trailing segments) :
    part = [] ∨ part ∈ segments := by
  rw [writtenParts, List.mem_append, List.mem_append] at h
  rcases h with (hlead | hmiddle) | htrail
  · cases absolute <;> simp at hlead
    exact Or.inl hlead
  · split_ifs at hmiddle with hnil
    · exact Or.inl (List.mem_singleton.1 hmiddle)
    · exact Or.inr hmiddle
  · cases trailing <;> simp at htrail
    exact Or.inl htrail

include hkept in
theorem not_dots_of_mem_writtenParts {part : List UInt8}
    (h : part ∈ writtenParts absolute trailing segments) :
    part ≠ [dot] ∧ part ≠ [dot, dot] := by
  rcases mem_writtenParts h with rfl | hsegment
  · exact ⟨(List.cons_ne_nil _ _).symm, (List.cons_ne_nil _ _).symm⟩
  · exact (hkept.ordinary part hsegment).2

include hkept in
theorem keptSegments_writtenParts :
    keptSegments (writtenParts absolute trailing segments) = (segments, false) := by
  have hsegments : segments.filter IsOrdinary = segments :=
    List.filter_eq_self.2 fun segment hsegment => decide_eq_true (hkept.ordinary segment hsegment)
  have hnil : decide (IsOrdinary []) = false := rfl
  rw [keptSegments_of_not_mem fun hmem =>
    (not_dots_of_mem_writtenParts hkept hmem).2 rfl, writtenParts,
    List.filter_append, List.filter_append]
  refine Prod.ext ?_ rfl
  have hmiddle : (if segments = [] then [[]] else segments).filter IsOrdinary = segments := by
    split_ifs with hempty
    · rw [hempty]
      rfl
    · exact hsegments
  rw [hmiddle]
  cases absolute <;> cases trailing <;> simp [hnil]

variable (htrailing : trailing = true → segments ≠ [])

include htrailing in
/-- Between the first and the last part that is written stand only segments. -/
theorem mem_of_mem_inner {part : List UInt8}
    (h : part ∈ ((writtenParts absolute trailing segments).drop 1).dropLast) : part ∈ segments := by
  cases segments with
  | nil =>
    have hplain : trailing = false := by
      cases trailing with
      | false => rfl
      | true => exact absurd rfl (htrailing rfl)
    rw [hplain] at h
    cases absolute <;> exact absurd h List.not_mem_nil
  | cons segment segments =>
    cases absolute with
    | false =>
      cases trailing with
      | false => simpa [writtenParts] using List.mem_cons_of_mem segment (List.mem_of_mem_dropLast
        h)
      | true =>
        have hinner : ((writtenParts false true (segment :: segments)).drop 1).dropLast =
            segments := by
          simp [writtenParts]
        rw [hinner] at h
        exact List.mem_cons_of_mem _ h
    | true =>
      cases trailing with
      | false => exact List.mem_of_mem_dropLast (by simpa [writtenParts] using h)
      | true =>
        have hinner : ((writtenParts true true (segment :: segments)).drop 1).dropLast =
            segment :: segments := by
          change ((segment :: segments) ++ [[]]).dropLast = _
          exact List.dropLast_concat
        rwa [hinner] at h

include hkept in
theorem namesDirectory_writtenParts (hne : segments ≠ []) :
    NamesDirectory (writtenParts absolute trailing segments) ↔ trailing = true := by
  rw [NamesDirectory, writtenParts, if_neg hne]
  cases trailing with
  | false =>
    have hlast : ((if absolute then [[]] else []) ++ segments ++ (if false = true then [[]]
        else [])).getLast? =
        some (segments.getLast hne) := by
      rw [if_neg Bool.false_ne_true, List.append_nil, List.getLast?_append_of_ne_nil _ hne,
        List.getLast?_eq_some_getLast hne]
    obtain ⟨hnil, hdot, hdots⟩ := hkept.ordinary _ (List.getLast_mem hne)
    rw [hlast]
    refine iff_of_false ?_ Bool.false_ne_true
    rintro (h | h | h)
    · exact hnil (Option.some.inj h)
    · exact hdot (Option.some.inj h)
    · exact hdots (Option.some.inj h)
  | true =>
    refine iff_of_true (Or.inl ?_) rfl
    rw [if_pos rfl, List.getLast?_concat]

include hkept htrailing in
theorem isAbsolute_writePath :
    IsAbsolute b (writePath absolute trailing segments) ↔ absolute = true := by
  rw [IsAbsolute, unify_writePath hkept, writePath]
  cases absolute with
  | true => exact iff_of_true rfl rfl
  | false =>
    refine iff_of_false ?_ Bool.false_ne_true
    cases segments with
    | nil =>
      cases trailing with
      | false => simp
      | true => exact absurd rfl (htrailing rfl)
    | cons segment segments =>
      have hnil := (hkept.ordinary segment List.mem_cons_self).1
      have hslash := hkept.no_slash segment List.mem_cons_self
      cases segment with
      | nil => exact absurd rfl hnil
      | cons byte segment =>
        rw [List.intercalate_cons_cons_left]
        intro hhead
        have hbyte : byte = slash := Option.some.inj hhead
        exact hslash (hbyte ▸ List.mem_cons_self)

include hkept htrailing in
theorem collapsePath_writePath :
    collapsePath (writePath absolute trailing segments) b =
      (writePath absolute trailing segments, {}) := by
  have hdirectory : (decide (NamesDirectory (writtenParts absolute trailing segments)) &&
      !segments.isEmpty) =
      trailing := by
    by_cases hne : segments = []
    · cases trailing with
      | false => rw [hne, List.isEmpty_nil, Bool.not_true, Bool.and_false]
      | true => exact absurd hne (htrailing rfl)
    · rw [Bool.eq_iff_iff, Bool.and_eq_true, decide_eq_true_eq,
        namesDirectory_writtenParts hkept hne]
      exact and_iff_left (by rw [List.isEmpty_eq_false_iff.2 hne]; rfl)
  have hbackslash : (b && (writePath absolute trailing segments).contains backslashByte) =
      false := by
    rw [Bool.and_eq_false_imp]
    intro hb
    rw [List.contains_eq_mem, decide_eq_false_iff_not]
    exact backslash_not_mem_writePath hkept hb
  have hflags : pathFlags false (writtenParts absolute trailing segments) = {} := by
    have hself : (writtenParts absolute trailing segments).contains [dot] = false := by
      rw [List.contains_eq_mem, decide_eq_false_iff_not]
      exact fun hmem => (not_dots_of_mem_writtenParts hkept hmem).1 rfl
    have hparent : (writtenParts absolute trailing segments).contains [dot, dot] = false := by
      rw [List.contains_eq_mem, decide_eq_false_iff_not]
      exact fun hmem => (not_dots_of_mem_writtenParts hkept hmem).2 rfl
    have hinner : ((writtenParts absolute trailing segments).drop 1).dropLast.any List.isEmpty =
        false := by
      rw [List.any_eq_false]
      intro part hpart
      rw [List.isEmpty_iff]
      exact (hkept.ordinary part (mem_of_mem_inner htrailing hpart)).1
    rw [pathFlags, hself, hparent, hinner, keptSegments_writtenParts hkept]
  rw [collapsePath_eq, hbackslash, pathParts_writePath hkept,
    keptSegments_writtenParts hkept, hflags]
  refine Prod.ext ?_ rfl
  change writePath _ (decide (NamesDirectory (writtenParts absolute trailing segments)) &&
    !segments.isEmpty) segments
    = _
  rw [hdirectory, Bool.eq_iff_iff.2
    (decide_eq_true_iff.trans (isAbsolute_writePath hkept htrailing))]

end Written

/-- A path is one part, or has separators between its first and its last. -/
theorem pathParts_cases (b : Bool) (path : List UInt8) :
    (∃ part, pathParts b path = [part] ∧ unify b path = part) ∨
      ∃ first inner last, pathParts b path = first :: (inner ++ [last]) ∧
        unify b path = first ++ slash :: [slash].intercalate (inner ++ [last]) := by
  have hpath : [slash].intercalate (pathParts b path) = unify b path :=
    List.intercalate_splitOn slash
  cases hparts : pathParts b path with
  | nil => exact absurd hparts (List.splitOn_ne_nil _ _)
  | cons first rest =>
    rw [hparts] at hpath
    rcases List.eq_nil_or_concat rest with rfl | ⟨inner, last, rfl⟩
    · exact Or.inl ⟨first, rfl, hpath.symm.trans List.intercalate_singleton⟩
    · refine Or.inr ⟨first, inner, last, by rw [List.concat_eq_append], ?_⟩
      rw [← hpath, List.concat_eq_append,
        List.intercalate_cons_of_ne_nil
        (List.append_ne_nil_of_right_ne_nil _ (List.cons_ne_nil _ _))]
      simp only [List.append_assoc, List.singleton_append]

theorem isAbsolute_of_single {b : Bool} {path part : List UInt8}
    (hparts : pathParts b path = [part])
    (hpath : unify b path = part) : ¬IsAbsolute b path := by
  intro h
  rw [IsAbsolute, hpath] at h
  exact slash_not_mem_pathParts (hparts ▸ List.mem_singleton_self part) (List.mem_of_mem_head? h)

theorem isAbsolute_iff {b : Bool} {path first rest : List UInt8} (hfirst : first ∈ pathParts b path)
    (hpath : unify b path = first ++ slash :: rest) : IsAbsolute b path ↔ first = [] := by
  rw [IsAbsolute, hpath]
  cases first with
  | nil => exact iff_of_true rfl rfl
  | cons byte first =>
    refine iff_of_false (fun h => ?_) (List.cons_ne_nil _ _)
    exact slash_not_mem_pathParts hfirst ((Option.some.inj h : byte = slash) ▸ List.mem_cons_self)

def weight (parts : List (List UInt8)) : ℕ := (parts.map fun part => part.length + 1).sum

theorem weight_le_of_sublist {kept parts : List (List UInt8)} (h : kept.Sublist parts) :
    weight kept ≤ weight parts :=
  (h.map _).sum_le_sum fun _ _ => Nat.zero_le _

theorem weight_filter_add_le (parts : List (List UInt8)) :
    weight (parts.filter IsOrdinary) + parts.countP (fun part => !decide (IsOrdinary part)) ≤
      weight parts := by
  induction parts with
  | nil => exact le_rfl
  | cons part parts ih =>
    rw [List.filter_cons, List.countP_cons]
    by_cases hpart : IsOrdinary part
    · rw [if_pos (decide_eq_true hpart), decide_eq_true hpart]
      simp only [weight, List.map_cons, List.sum_cons, Bool.not_true, Bool.false_eq_true,
        if_false] at ih ⊢
      omega
    · rw [if_neg (by rw [decide_eq_true_eq]; exact hpart), decide_eq_false hpart]
      simp only [weight, List.map_cons, List.sum_cons, Bool.not_false, if_true] at ih ⊢
      omega

theorem not_isOrdinary_of_namesDirectory {parts : List (List UInt8)} {last : List UInt8}
    (hlast : parts.getLast? = some last) (h : NamesDirectory parts) : ¬IsOrdinary last := by
  rintro ⟨hnil, hdot, hdots⟩
  rw [NamesDirectory, hlast] at h
  rcases h with h | h | h
  · exact hnil (Option.some.inj h)
  · exact hdot (Option.some.inj h)
  · exact hdots (Option.some.inj h)

/-- The slashes that are written in front and behind stand for parts that name nothing. -/
theorem ends_le_countP (b : Bool) (path : List UInt8) :
    (if IsAbsolute b path then 1 else 0) + (if NamesDirectory (pathParts b path) then 1 else 0) ≤
      (pathParts b path).countP fun part => !decide (IsOrdinary part) := by
  rcases pathParts_cases b path with ⟨part, hparts, hpath⟩ | ⟨first, inner, last, hparts, hpath⟩
  · rw [if_neg (isAbsolute_of_single hparts hpath), hparts]
    split_ifs with hends
    · have hpart : decide (IsOrdinary part) = false :=
        decide_eq_false (not_isOrdinary_of_namesDirectory rfl hends)
      simp [hpart]
    · exact Nat.zero_le _
  · have hfirst : first ∈ pathParts b path := hparts ▸ List.mem_cons_self
    have hlast : (first :: (inner ++ [last])).getLast? = some last := by
      rw [← List.cons_append, List.getLast?_concat]
    simp only [isAbsolute_iff hfirst hpath, hparts, List.countP_cons, List.countP_append,
      List.countP_nil]
    have hin : (if NamesDirectory (first :: (inner ++ [last])) then 1 else 0) ≤
        if (!decide (IsOrdinary last)) = true then 1 else 0 := by
      split_ifs with hends hordinary
      · exact le_rfl
      · refine absurd ?_ hordinary
        rw [decide_eq_false (not_isOrdinary_of_namesDirectory hlast hends)]
        rfl
      · exact Nat.zero_le _
      · exact le_rfl
    have hout : (if first = [] then 1 else 0) ≤ if (!decide (IsOrdinary first)) = true then 1
        else 0 := by
      split_ifs with hnil hordinary
      · exact le_rfl
      · exact absurd (hnil ▸ rfl) hordinary
      · exact Nat.zero_le _
      · exact le_rfl
    omega

theorem length_unify (b : Bool) (path : List UInt8) : (unify b path).length = path.length := by
  rw [unify]
  split_ifs
  · exact List.length_map _
  · rfl

theorem length_writePath (absolute trailing : Bool) (segments : List (List UInt8)) :
    (writePath absolute trailing segments).length =
      (if absolute then 1 else 0) + ([slash].intercalate segments).length + if trailing then 1
      else 0 := by
  rw [writePath, List.length_append, List.length_append]
  cases absolute <;> cases trailing <;> rfl

theorem length_collapsePath_le (input : List UInt8) (b : Bool) :
    (collapsePath input b).1.length ≤ input.length := by
  have hinput : weight (pathParts b input) = input.length + 1 := by
    rw [weight, pathParts, ← Lines.length_intercalate_singleton (List.splitOn_ne_nil _ _) slash,
      List.intercalate_splitOn, length_unify]
  have hkept := weight_le_of_sublist (keptSegments_sublist (pathParts b input))
  have hends := ends_le_countP b input
  have hordinary := weight_filter_add_le (pathParts b input)
  rw [collapsePath_eq]
  by_cases hnil : (keptSegments (pathParts b input)).1 = []
  · simp only [hnil, List.isEmpty_nil, Bool.not_true, Bool.and_false, length_writePath,
      decide_eq_true_eq,
      List.intercalate_nil, List.length_nil, Bool.false_eq_true, if_false, Nat.add_zero]
    split_ifs with habsolute
    · rw [← length_unify b]
      exact List.length_pos_of_mem (List.mem_of_mem_head? habsolute)
    · exact Nat.zero_le _
  · have hsegments := Lines.length_intercalate_singleton hnil slash
    simp only [List.isEmpty_eq_false_iff.2 hnil, Bool.not_false, Bool.and_true, length_writePath,
      decide_eq_true_eq]
    rw [weight] at hkept
    omega

/-- Parts that are all named, but for the first and the last, are written as they are. -/
theorem writtenParts_filter {first last : List UInt8} {inner : List (List UInt8)}
    (hfirst : first ≠ [] → IsOrdinary first) (hinner : ∀ part ∈ inner, IsOrdinary part)
    (hlast : last ≠ [] → IsOrdinary last) :
    writtenParts (decide (first = []))
      (decide (last = []) && !((first :: (inner ++ [last])).filter IsOrdinary).isEmpty)
      ((first :: (inner ++ [last])).filter IsOrdinary) = first :: (inner ++ [last]) := by
  have hkept : inner.filter IsOrdinary = inner :=
    List.filter_eq_self.2 fun part hpart => decide_eq_true (hinner part hpart)
  have hnone : ¬IsOrdinary [] := fun h => h.1 rfl
  rw [List.filter_cons, List.filter_append, hkept]
  by_cases hleft : first = []
  · by_cases hright : last = []
    · by_cases hbetween : inner = []
      · simp [hleft, hright, hbetween, hnone, writtenParts]
      · simp [hleft, hright, hbetween, hnone, writtenParts]
    · simp [hleft, hright, hnone, hlast hright, writtenParts]
  · by_cases hright : last = []
    · simp [hleft, hright, hnone, hfirst hleft, writtenParts]
    · simp [hleft, hright, hfirst hleft, hlast hright, writtenParts]

theorem collapsePath_of_no_flag {input : List UInt8} {b : Bool}
    (h : (collapsePath input b).2 = {}) :
    (collapsePath input b).1 = input := by
  rw [collapsePath_eq, pathFlags, NormalizationFlags.mk.injEq] at h
  obtain ⟨-, -, -, -, hparent, -, hself, hempty, hbackslash, -⟩ := h
  have hunify : unify b input = input := by
    refine unify_of_not_mem fun hb hmem => ?_
    rw [hb, Bool.true_and, List.contains_eq_mem, decide_eq_false_iff_not] at hbackslash
    exact hbackslash hmem
  rw [List.contains_eq_mem, decide_eq_false_iff_not] at hparent hself
  have hordinary : ∀ part ∈ pathParts b input, part ≠ [] → IsOrdinary part := fun part hpart hne =>
    ⟨hne, fun heq => hself (heq ▸ hpart), fun heq => hparent (heq ▸ hpart)⟩
  rw [List.any_eq_false] at hempty
  have hkept : (keptSegments (pathParts b input)).1 = (pathParts b input).filter IsOrdinary := by
    rw [keptSegments_of_not_mem hparent]
  have hwritten : writtenParts (decide (IsAbsolute b input))
      (decide (NamesDirectory (pathParts b input)) && !(keptSegments (pathParts b input)).1.isEmpty)
      (keptSegments (pathParts b input)).1 = pathParts b input := by
    rw [hkept]
    rcases pathParts_cases b input with ⟨part, hparts, hpath⟩ | ⟨first, inner, last, hparts, hpath⟩
    · have habsolute := isAbsolute_of_single hparts hpath
      rw [hparts] at hordinary ⊢
      have hpart := hordinary part (List.mem_singleton_self part)
      by_cases hnil : part = []
      · simp [hnil, habsolute, writtenParts, IsOrdinary]
      · have hends : ¬NamesDirectory [part] := fun hends =>
          not_isOrdinary_of_namesDirectory rfl hends (hpart hnil)
        simp [hpart hnil, habsolute, hends, writtenParts]
    · have habsolute := isAbsolute_iff (hparts ▸ List.mem_cons_self) hpath
      have hlast : (first :: (inner ++ [last])).getLast? = some last := by
        rw [← List.cons_append, List.getLast?_concat]
      rw [hparts] at hordinary hempty ⊢
      have hinner : ∀ part ∈ inner, IsOrdinary part := by
        intro part hpart
        apply hordinary part (by simp [hpart])
        have hnot := hempty part (by simpa using hpart)
        rwa [List.isEmpty_iff] at hnot
      have hends : NamesDirectory (first :: (inner ++ [last])) ↔ last = [] := by
        constructor
        · intro h
          by_contra hne
          exact not_isOrdinary_of_namesDirectory hlast h (hordinary last (by simp) hne)
        · rintro rfl
          exact Or.inl hlast
      rw [decide_eq_decide.2 habsolute, decide_eq_decide.2 hends]
      exact writtenParts_filter (hordinary first List.mem_cons_self) hinner
        (hordinary last (by simp))
  rw [collapsePath_eq, writePath_eq_intercalate, hwritten, pathParts,
    List.intercalate_splitOn, hunify]

/-- A path collapses to a spelling that is left alone: no segment of it is `.`, `..` or empty, but
for the ones at the ends, and what had to be done to it is flagged. -/
theorem collapsed_path_canonical (input : List UInt8) (b : Bool) :
    (∀ part ∈ pathParts b (collapsePath input b).1, part ≠ [dot] ∧ part ≠ [dot, dot]) ∧
      (∀ part ∈ ((pathParts b (collapsePath input b).1).drop 1).dropLast, part ≠ []) ∧
      collapsePath (collapsePath input b).1 b = ((collapsePath input b).1, {}) ∧
      (IsAbsolute b (collapsePath input b).1 ↔ IsAbsolute b input) ∧
      (collapsePath input b).1.length ≤ input.length ∧
      ((collapsePath input b).2 ≠ {} ↔ (collapsePath input b).1 ≠ input) ∧
      ((collapsePath input b).2.aboveRoot = true ↔
        ∃ taken, taken <+: pathParts b input ∧
          (taken.filter IsOrdinary).length < taken.count [dot, dot]) := by
  have hlength := length_collapsePath_le input b
  have hno_flag := @collapsePath_of_no_flag input b
  have hkept := kept_keptSegments b input
  have htrailing : (decide (NamesDirectory (pathParts b input)) &&
      !(keptSegments (pathParts b input)).1.isEmpty) = true →
      (keptSegments (pathParts b input)).1 ≠ [] := by
    intro h hnil
    rw [hnil, List.isEmpty_nil, Bool.not_true, Bool.and_false] at h
    exact Bool.false_ne_true h
  rw [collapsePath_eq] at hlength hno_flag
  have habove := keptSegments_snd_iff (pathParts b input)
  rw [collapsePath_eq input b]
  refine ⟨?_, ?_, collapsePath_writePath hkept htrailing, ?_, hlength, ?_, habove⟩
  · intro part hpart
    rw [pathParts_writePath hkept] at hpart
    exact not_dots_of_mem_writtenParts hkept hpart
  · intro part hpart
    rw [pathParts_writePath hkept] at hpart
    exact (hkept.ordinary part (mem_of_mem_inner htrailing hpart)).1
  · rw [isAbsolute_writePath hkept htrailing, decide_eq_true_eq]
  · refine not_congr ⟨hno_flag, fun hsame => ?_⟩
    have hagain := @collapsePath_writePath b (decide (IsAbsolute b input)) _ _ hkept htrailing
    dsimp only at hsame
    rw [hsame, collapsePath_eq] at hagain
    exact congrArg Prod.snd hagain

end CyberSentinel
