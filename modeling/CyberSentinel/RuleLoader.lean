import CyberSentinel.LogicalLines
import CyberSentinel.RuleParser
import Mathlib.Data.List.AList

/-!
# The loaded rules

The rules of several files in one set, found by their signature ids. A rule that cannot be read and
a second rule with an id are reported and left out, and the load goes on.
-/

namespace CyberSentinel.Rules

open Texts

def ParsedRule.withOrigin (rule : ParsedRule) (origin : RuleOrigin) : ParsedRule :=
  { rule with origin := some origin }

section WithOrigin

variable (rule : ParsedRule) (origin : RuleOrigin)

@[simp] theorem ParsedRule.withOrigin_sid : (rule.withOrigin origin).sid = rule.sid := rfl

@[simp] theorem ParsedRule.withOrigin_isEvaluable :
    (rule.withOrigin origin).isEvaluable = rule.isEvaluable := rfl

end WithOrigin

inductive SkipReason
  /-- `could not read rule file: {error}` -/
  | unreadable (error : String)
  | unparsed (error : ParseError)
  /-- `duplicate sid {sid} (already defined at {previous})` -/
  | duplicateSid (sid : UInt32) (previous : String)
  deriving DecidableEq, Repr

def takeBytes : (limit : ℕ) → Text → Text
  | _, [] => []
  | limit, c :: rest => if c.utf8Size ≤ limit then c :: takeBytes (limit - c.utf8Size) rest else []

def truncate (text : Text) : Text :=
  if byteLength text ≤ 256 then text else takeBytes 256 text ++ ['…']

structure SkippedRule where
  file : String
  line : ℕ
  reason : SkipReason
  raw : Text
  deriving DecidableEq, Repr

structure LoadReport where
  files : List String := []
  loaded : ℕ := 0
  evaluable : ℕ := 0
  skipped : List SkippedRule := []
  unsupportedOptions : AList (fun _ : String => ℕ) := ∅

namespace LoadReport

def skip (report : LoadReport) (origin : RuleOrigin) (reason : SkipReason) (raw : Text) :
    LoadReport :=
  { report with skipped := report.skipped ++ [⟨origin.file, origin.line, reason, truncate raw⟩] }

def count (report : LoadReport) (rule : Rule) : LoadReport :=
  { report with
    unsupportedOptions := rule.unsupportedOptions.foldl
      (fun counts option =>
      counts.insert option ((counts.lookup option).getD 0 + 1)) report.unsupportedOptions
    loaded := report.loaded + 1
    evaluable := if rule.isEvaluable then report.evaluable + 1 else report.evaluable }

end LoadReport

structure RuleSet where
  rules : List ParsedRule
  bySid : AList (fun _ : UInt32 => ℕ)
  /-- Every rule is found under its id, and nothing else is found. -/
  indexed : ∀ sid i, bySid.lookup sid = some i ↔ ∃ rule, rules[i]? = some rule ∧ rule.sid = sid

namespace RuleSet

def new : RuleSet := ⟨[], ∅, by simp⟩

def get (set : RuleSet) (sid : UInt32) : Option ParsedRule :=
  (set.bySid.lookup sid).bind fun index => set.rules[index]?

def evaluable (set : RuleSet) : List ParsedRule := set.rules.filter (·.isEvaluable)

theorem lt_length_of_lookup (set : RuleSet) {sid : UInt32} {index : ℕ}
    (h : set.bySid.lookup sid = some index) : index < set.rules.length := by
  obtain ⟨rule, hrule, _⟩ := (set.indexed sid index).1 h
  exact (List.getElem?_eq_some_iff.1 hrule).1

theorem mem_iff_get (set : RuleSet) (rule : ParsedRule) :
    rule ∈ set.rules ↔ set.get rule.sid = some rule := by
  constructor
  · intro hmem
    obtain ⟨i, hi⟩ := List.mem_iff_getElem?.1 hmem
    rw [get, (set.indexed rule.sid i).2 ⟨rule, hi, rfl⟩, Option.bind_some, hi]
  · intro hget
    obtain ⟨i, _, hi⟩ := Option.bind_eq_some_iff.1 hget
    exact List.mem_of_getElem? hi

theorem get_eq_none_iff (set : RuleSet) (sid : UInt32) :
    set.get sid = none ↔ set.bySid.lookup sid = none := by
  rw [get]
  cases hlookup : set.bySid.lookup sid with
  | none => simp
  | some index => simp [List.getElem?_eq_getElem (set.lt_length_of_lookup hlookup)]

theorem sids_nodup (set : RuleSet) : (set.rules.map fun rule => rule.sid).Nodup := by
  rw [List.Nodup, List.pairwise_map, List.pairwise_iff_getElem]
  intro i j hi hj hlt hsame
  have hlookup : ∀ k (hk : k < set.rules.length), set.bySid.lookup set.rules[k].sid = some k :=
    fun k hk => (set.indexed _ k).2 ⟨set.rules[k], List.getElem?_eq_getElem hk, rfl⟩
  have hi' := hlookup i hi
  rw [hsame, hlookup j hj, Option.some.injEq] at hi'
  omega

def push (set : RuleSet) (rule : ParsedRule) (hnew : set.bySid.lookup rule.sid = none) :
    RuleSet where
  rules := set.rules ++ [rule]
  bySid := set.bySid.insert rule.sid set.rules.length
  indexed sid i := by
    by_cases hsid : sid = rule.sid
    · subst hsid
      rw [AList.lookup_insert, Option.some.injEq]
      constructor
      · rintro rfl
        exact ⟨rule, by simp, rfl⟩
      · rintro ⟨other, hother, hsame⟩
        by_contra hne
        have hold : set.rules[i]? = some other := by
          rw [List.getElem?_append] at hother
          split_ifs at hother with hlt
          · exact hother
          · rw [List.getElem?_singleton, if_neg (by omega)] at hother
            cases hother
        rw [(set.indexed rule.sid i).2 ⟨other, hold, hsame⟩] at hnew
        cases hnew
    · rw [AList.lookup_insert_ne hsid, set.indexed]
      refine exists_congr fun other => and_congr_left fun hother => ?_
      rw [List.getElem?_append]
      split_ifs with hlt
      · rfl
      · rw [List.getElem?_eq_none (by omega), List.getElem?_singleton]
        split_ifs with hlast
        · constructor
          · intro h
            cases h
          · intro h
            rw [Option.some.inj h] at hsid
            exact absurd hother.symm hsid
        · rfl

theorem get_push (set : RuleSet) (rule : ParsedRule) (hnew : set.bySid.lookup rule.sid = none)
    (sid : UInt32) :
    (set.push rule hnew).get sid = if rule.sid = sid then some rule else set.get sid := by
  rw [get, push]
  split_ifs with hsid
  · subst hsid
    simp
  · rw [AList.lookup_insert_ne (Ne.symm hsid), get]
    cases hlookup : set.bySid.lookup sid with
    | none => rfl
    | some index =>
      rw [Option.bind_some, Option.bind_some,
        List.getElem?_append_left (set.lt_length_of_lookup hlookup)]

def loadLine (loading : RuleSet × LoadReport) (line : RuleOrigin × Text) : RuleSet × LoadReport :=
  let (set, report) := loading
  let (origin, raw) := line
  match parseRule raw with
  | .ok rule =>
    match h : set.bySid.lookup rule.sid with
    | some existing =>
      let previous := set.rules.get ⟨existing, set.lt_length_of_lookup h⟩
      (set, report.skip origin (.duplicateSid rule.sid previous.location) raw)
    | none => (set.push (rule.withOrigin origin) h, report.count rule.toRule)
  | .error error => (set, report.skip origin (.unparsed error) raw)

end RuleSet

structure RuleFile where
  file : String
  text : Text

namespace RuleFile

/-- The rules of the file as they are written, and where each begins. -/
def lines (source : RuleFile) : List (RuleOrigin × Text) :=
  (logicalLines source.text).map fun (line, raw) => (⟨source.file, line⟩, raw)

end RuleFile

def RuleSet.loadText (loading : RuleSet × LoadReport) (source : RuleFile) : RuleSet × LoadReport :=
  source.lines.foldl RuleSet.loadLine loading

def RuleSet.loadFiles (read : String → Except String Text) (paths : List String) :
    RuleSet × LoadReport :=
  paths.foldl (fun (set, report) path =>
    match read path with
    | .ok text => RuleSet.loadText (set,
      { report with files := report.files ++ [path] }) ⟨path, text⟩
    | .error error => (set, report.skip ⟨path, 0⟩ (.unreadable error) [])) (RuleSet.new, {})

def readRule (line : RuleOrigin × Text) : Option ParsedRule :=
  (parseRule line.2).toOption.map (·.withOrigin line.1)

/-- The set and the report behind these lines, from an empty set and a first report. -/
structure Accounted (first : LoadReport) (lines : List (RuleOrigin × Text)) (set : RuleSet)
    (report : LoadReport) : Prop where
  lines_counted : report.loaded + report.skipped.length =
    first.loaded + first.skipped.length + lines.length
  loaded_counted : report.loaded = first.loaded + set.rules.length
  evaluable_counted : report.evaluable = first.evaluable + set.evaluable.length
  file_order : List.Sublist set.rules (lines.filterMap readRule)
  first_wins : ∀ sid, set.get sid = (lines.filterMap readRule).find? fun rule => rule.sid = sid

namespace Accounted

variable {first report : LoadReport} {lines : List (RuleOrigin × Text)} {set : RuleSet}

theorem skip (h : Accounted first lines set report) {line : RuleOrigin × Text} (reason : SkipReason)
    (hseen : ∀ rule, readRule line = some rule → ∃ other, set.get rule.sid = some other) :
    Accounted first (lines ++ [line]) set (report.skip line.1 reason line.2) where
  lines_counted := by
    have hlines := h.lines_counted
    simp only [LoadReport.skip, List.length_append, List.length_singleton]
    omega
  loaded_counted := h.loaded_counted
  evaluable_counted := h.evaluable_counted
  file_order := by
    rw [List.filterMap_append]
    exact h.file_order.trans (List.sublist_append_left _ _)
  first_wins sid := by
    rw [List.filterMap_append, List.find?_append, ← h.first_wins]
    cases hread : readRule line with
    | none => simp [List.filterMap, hread]
    | some rule =>
      obtain ⟨other, hother⟩ := hseen rule hread
      by_cases hsid : rule.sid = sid
      · rw [← hsid, hother, Option.some_or]
      · simp [List.filterMap, hread, hsid]

theorem push (h : Accounted first lines set report) {line : RuleOrigin × Text} {rule : ParsedRule}
    (hread : readRule line = some rule) (hnew : set.bySid.lookup rule.sid = none) :
    Accounted first (lines ++ [line]) (set.push rule hnew) (report.count rule.toRule) where
  lines_counted := by
    have hlines := h.lines_counted
    simp only [LoadReport.count, List.length_append, List.length_singleton]
    omega
  loaded_counted := by
    have hloaded := h.loaded_counted
    simp only [LoadReport.count, RuleSet.push, List.length_append, List.length_singleton]
    omega
  evaluable_counted := by
    have hevaluable := h.evaluable_counted
    simp only [RuleSet.evaluable, LoadReport.count, RuleSet.push, List.filter_append,
      List.length_append]
      at hevaluable ⊢
    cases hrule : rule.isEvaluable with
    | true => simp [hrule, hevaluable, add_assoc]
    | false => simp [hrule, hevaluable]
  file_order := by
    have hlast : [line].filterMap readRule = [rule] := by simp [hread]
    rw [List.filterMap_append, hlast]
    exact h.file_order.append (List.Sublist.refl _)
  first_wins sid := by
    have hlast : [line].filterMap readRule = [rule] := by simp [hread]
    rw [List.filterMap_append, hlast, List.find?_append, ← h.first_wins, RuleSet.get_push]
    split_ifs with hsid
    · subst hsid
      rw [(set.get_eq_none_iff _).2 hnew]
      simp
    · simp [hsid]

theorem loadLine (h : Accounted first lines set report) (line : RuleOrigin × Text) :
    Accounted first (lines ++ [line]) (RuleSet.loadLine (set, report) line).1
      (RuleSet.loadLine (set, report) line).2 := by
  obtain ⟨origin, raw⟩ := line
  rw [RuleSet.loadLine]
  split
  · rename_i rule hparse
    have hread : readRule (origin, raw) = some (rule.withOrigin origin) := by
      rw [readRule, hparse]
      rfl
    split
    · rename_i existing hexisting
      refine h.skip _ fun read hagain => ?_
      obtain rfl := Option.some.inj (hread.symm.trans hagain)
      refine Option.ne_none_iff_exists'.1 ((set.get_eq_none_iff _).not.2 ?_)
      rw [ParsedRule.withOrigin_sid, hexisting]
      simp
    · rename_i hnew
      exact h.push hread hnew
  · rename_i error hparse
    refine h.skip _ fun read hread => ?_
    rw [readRule, hparse] at hread
    cases hread

theorem loadLines (h : Accounted first lines set report) (more : List (RuleOrigin × Text)) :
    Accounted first (lines ++ more) (more.foldl RuleSet.loadLine (set, report)).1
      (more.foldl RuleSet.loadLine (set, report)).2 := by
  induction more generalizing lines set report with
  | nil => simpa using h
  | cons line more ih =>
    have hassoc : lines ++ line :: more = lines ++ [line] ++ more := by simp
    rw [List.foldl_cons, hassoc]
    exact ih (h.loadLine line)

theorem loadTexts (h : Accounted first lines set report) (sources : List RuleFile) :
    Accounted first (lines ++ sources.flatMap RuleFile.lines)
      (sources.foldl RuleSet.loadText (set, report)).1
      (sources.foldl RuleSet.loadText (set, report)).2 := by
  induction sources generalizing lines set report with
  | nil => simpa using h
  | cons source sources ih =>
    rw [List.foldl_cons, List.flatMap_cons, ← List.append_assoc]
    exact ih (h.loadLines source.lines)

theorem new (first : LoadReport) : Accounted first [] RuleSet.new first where
  lines_counted := rfl
  loaded_counted := rfl
  evaluable_counted := rfl
  file_order := List.Sublist.refl _
  first_wins _ := rfl

end Accounted

def RuleSet.loadTexts (first : LoadReport) (sources : List RuleFile) : RuleSet × LoadReport :=
  sources.foldl RuleSet.loadText (RuleSet.new, first)

/-- However many files are loaded into one set, every rule in them is loaded or reported, and every
line of them is in one rule, but for backslashes alone at the end of a file. -/
theorem loading_accounts_for_every_rule (first : LoadReport) (sources : List RuleFile) :
    let (set, report) := RuleSet.loadTexts first sources
    Accounted first (sources.flatMap RuleFile.lines) set report ∧
      (set.rules.map fun rule => rule.sid).Nodup ∧
      (∀ rule, rule ∈ set.rules ↔ set.get rule.sid = some rule) ∧
      ∀ source ∈ sources, ∃ groups dropped, Grouped (physicalLines source.text) groups dropped ∧
        source.lines = groups.map fun g => (⟨source.file, g.logical.1⟩, g.logical.2) := by
  refine ⟨(Accounted.new first).loadTexts sources, RuleSet.sids_nodup _, RuleSet.mem_iff_get _,
    fun source _ => ?_⟩
  obtain ⟨groups, dropped, hgrouping, hlines⟩ := logicalLines_grouping source.text
  refine ⟨groups, dropped, hgrouping.grouped (physicalLines_nodup source.text), ?_⟩
  rw [RuleFile.lines, hlines, List.map_map]
  rfl

/-- A file of one backslash has a line that is neither blank nor a comment, and no rule. -/
theorem lone_backslash_dropped :
    ¬∃ groups, Grouped (physicalLines ['\\']) groups [] ∧
      logicalLines ['\\'] = groups.map RuleLines.logical := by
  rintro ⟨groups, hgrouped, hlines⟩
  have hnone : logicalLines ['\\'] = [] := by decide +kernel
  obtain rfl := List.map_eq_nil_iff.1 (hlines.symm.trans hnone)
  have hcovered := hgrouped.covered ⟨1, ['\\']⟩ (by decide +kernel) (by decide +kernel)
    (by decide +kernel)
  rcases hcovered with hdropped | ⟨i, ⟨g, hg, _⟩, _⟩
  · cases hdropped
  · cases hg

end CyberSentinel.Rules
