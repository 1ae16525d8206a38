import CyberSentinel.FimRescan
import CyberSentinel.Lines

/-!
# What the deletion pass takes away

A rescan that has looked everywhere takes the rows it did not see for deleted. Which rows it asks
about is decided by their texts, and which paths are watched by their components.
`deletions_in_scope_iff` says when the two agree, and `gone_files_reported_iff` what becomes of the
files that are gone when a root is missing.
-/

namespace CyberSentinel.Fim

open Tables

/-- A component of the text of a path. An empty piece is none, and `.` is none either. -/
def FileName.component (piece : List Char) : Option FileName :=
  if h : piece ≠ [] ∧ '/' ∉ piece then
    if piece = ['.'] then none
    else
      some
        { text := String.ofList piece
          text_ne := by simpa only [String.toList_ofList] using h.1
          no_separator := by simpa only [String.toList_ofList] using h.2 }
  else none

theorem FileName.component_text {name : FileName} (hutf8 : name.IsUtf8) (hdot : name.text ≠ ".") :
    component name.text.toList = some name := by
  have hpiece : name.text.toList ≠ ['.'] := fun heq =>
    hdot (String.toList_inj.1 (heq.trans rfl))
  rw [component, dif_pos ⟨name.text_ne, name.no_separator⟩, if_neg hpiece, Option.some.injEq]
  apply sortKey_injective
  simp only [sortKey, String.ofList_toList, hutf8.symm.trans rfl]

namespace Path

/-- The components of a text; a text that does not begin with a separator is that of no absolute
path. -/
def ofText (text : String) : Option Path :=
  match text.toList with
  | '/' :: rest => some ((rest.splitOn '/').filterMap FileName.component)
  | _ => none

theorem flatMap_eq_intercalate (name : FileName) (rest : Path) :
    (name :: rest).flatMap (fun name => '/' :: name.text.toList) =
      '/' :: ['/'].intercalate ((name :: rest).map fun name => name.text.toList) := by
  induction rest generalizing name with
  | nil => simp
  | cons next rest ih =>
    rw [List.flatMap_cons, ih next]
    simp only [List.map_cons, List.intercalate_cons_cons, List.cons_append, List.nil_append,
      List.append_assoc]

theorem filterMap_component {path : Path} (hutf8 : path.IsUtf8)
    (hdot : ∀ name ∈ path, name.text ≠ ".") :
    (path.map fun name => name.text.toList).filterMap FileName.component = path := by
  induction path with
  | nil => rfl
  | cons name rest ih =>
    have hname := FileName.component_text (hutf8 name List.mem_cons_self)
      (hdot name List.mem_cons_self)
    rw [List.map_cons, List.filterMap_cons_some hname,
      ih (fun other hother => hutf8 other (List.mem_cons_of_mem _ hother))
        fun other hother => hdot other (List.mem_cons_of_mem _ hother)]

theorem ofText_key {path : Path} (hutf8 : path.IsUtf8) (hdot : ∀ name ∈ path, name.text ≠ ".") :
    ofText path.key = some path := by
  cases path with
  | nil => rfl
  | cons name rest =>
    have hpieces : ∀ piece ∈ (name :: rest).map fun name => name.text.toList, '/' ∉ piece := by
      intro piece hpiece
      obtain ⟨other, -, rfl⟩ := List.mem_map.1 hpiece
      exact other.no_separator
    have hsplit := List.splitOn_intercalate '/' hpieces (List.cons_ne_nil _ _)
    rw [ofText, key, String.toList_ofList, keyChars, flatMap_eq_intercalate]
    exact congrArg some ((congrArg (List.filterMap FileName.component) hsplit).trans
      (filterMap_component hutf8 hdot))

end Path

theorem mem_eventsFor {key : String} {events : List FimEvent} {event : FimEvent} :
    event ∈ eventsFor key events ↔ event ∈ events ∧ event.path = key := by
  rw [eventsFor, List.mem_filter, decide_eq_true_eq]

namespace Sweep

section Files

variable (establishing : Bool) (detectedBy : FimDetection) (inspected : Path → Inspection)

theorem compare_truncated (s : Sweep) (path : Path) :
    (s.compare establishing detectedBy inspected path).outcome.limits.truncated = false ↔
      s.outcome.limits.truncated = false ∧ ∃ record, inspected path = .ok record := by
  rw [compare]
  cases inspected path with
  | error e => simp [WalkLimits.truncated]
  | ok record =>
    cases record with
    | none => simp
    | some current =>
      simp only [Except.ok.injEq, exists_eq', and_true]
      split_ifs <;> rfl

theorem foldl_compare_truncated (files : List Path) (s : Sweep) :
    (files.foldl (compare establishing detectedBy inspected) s).outcome.limits.truncated = false ↔
      s.outcome.limits.truncated = false ∧ ∀ path ∈ files, ∃ record,
        inspected path = .ok record := by
  induction files generalizing s with
  | nil => simp
  | cons path rest ih =>
    rw [List.foldl_cons, ih, compare_truncated, List.forall_mem_cons, and_assoc]

theorem reached_eq_iff (shouldContinue : ℕ → Bool) (i : ℕ) (files : List Path) :
    reached shouldContinue i files = files ↔ ∀ j < files.length, shouldContinue (i + j) = true := by
  induction files generalizing i with
  | nil => simp [reached]
  | cons path rest ih =>
    rw [reached, List.length_cons]
    cases hgo : shouldContinue i with
    | false =>
      refine ⟨fun h => ?_, fun h => ?_⟩
      · exact absurd h (List.cons_ne_nil _ _).symm
      · have hfirst := h 0 (Nat.succ_pos _)
        rw [Nat.add_zero, hgo] at hfirst
        exact absurd hfirst Bool.noConfusion
    | true =>
      rw [if_pos rfl, List.cons.injEq, ih]
      refine ⟨fun h j hj => ?_, fun h => ⟨rfl, fun j hj => ?_⟩⟩
      · cases j with
        | zero => exact hgo
        | succ j =>
          have hnext := h.2 j (Nat.lt_of_succ_lt_succ hj)
          rwa [Nat.add_right_comm] at hnext
      · have hnext := h (j + 1) (Nat.succ_lt_succ hj)
        rwa [← Nat.add_assoc, Nat.add_right_comm] at hnext

/-- The loop leaves nothing out if the walk did not, if it is let go on to its end, and if every
file can be looked at. -/
theorem files_truncated (shouldContinue : ℕ → Bool) (s : Sweep) (files : List Path) :
    (Sweep.files establishing detectedBy inspected shouldContinue 0 s
    files).outcome.limits.truncated = false ↔
      s.outcome.limits.truncated = false ∧ (∀ i < files.length, shouldContinue i = true) ∧
        ∀ path ∈ files, ∃ record, inspected path = .ok record := by
  have hreached := reached_eq_iff shouldContinue 0 files
  simp only [Nat.zero_add] at hreached
  rw [files_eq, ← hreached]
  dsimp only
  split_ifs with hall
  · rw [hall, foldl_compare_truncated]
    simp
  · simp [abandon, WalkLimits.truncated, hall]

end Files

end Sweep

namespace Monitor

variable (m : Monitor) (detectedBy : FimDetection) (fs : FileSystem) (c : Conditions)

def swept : Sweep :=
  Sweep.files m.establishing detectedBy c.inspected c.shouldContinue 0
    { baseline := m.baseline, outcome := { limits := (walk fs m.settings).limits } }
    (walk fs m.settings).files

/-- The scan leaves nothing out: neither the walk, nor a request to stop, nor a file that cannot be
looked at keeps it from looking. -/
structure LooksEverywhere : Prop where
  walked : (walk fs m.settings).limits.truncated = false
  continued : ∀ i < (walk fs m.settings).files.length, c.shouldContinue i = true
  inspected : ∀ path ∈ (walk fs m.settings).files, ∃ record, c.inspected path = .ok record

theorem swept_truncated :
    (m.swept detectedBy fs c).outcome.limits.truncated = false ↔ m.LooksEverywhere fs c := by
  rw [swept, Sweep.files_truncated]
  exact ⟨fun ⟨hwalked, hcontinued, hinspected⟩ => ⟨hwalked, hcontinued, hinspected⟩,
    fun h => ⟨h.walked, h.continued, h.inspected⟩⟩

theorem swept_deletes :
    Sweep.DeletesNothing
      { baseline := m.baseline, outcome := { limits := (walk fs m.settings).limits } }
      (m.swept detectedBy fs c) :=
  Sweep.files_deletes m.establishing detectedBy c 0 _ (walk fs m.settings).files

theorem swept_of_looksEverywhere (h : m.LooksEverywhere fs c) :
    m.swept detectedBy fs c = (walk fs m.settings).files.foldl
      (Sweep.compare m.establishing detectedBy c.inspected)
      { baseline := m.baseline, outcome := { limits := (walk fs m.settings).limits } } := by
  have hreached : Sweep.reached c.shouldContinue 0 (walk fs m.settings).files =
      (walk fs m.settings).files := by
    rw [Sweep.reached_eq_iff]
    intro i hi
    rw [Nat.zero_add]
    exact h.continued i hi
  rw [swept, Sweep.files_eq]
  dsimp only
  rw [if_pos hreached, hreached]

/-- Rows are taken for deleted by a scan that compares and has left nothing out. -/
theorem rescanUntil_cleared (hm : m.establishing = false) (h : m.LooksEverywhere fs c) :
    let cleared := m.settings.paths.foldl (Sweep.forgetUnder detectedBy c.order)
      (m.swept detectedBy fs c)
    (m.rescanUntil detectedBy fs c).1.baseline = cleared.baseline ∧
      (m.rescanUntil detectedBy fs c).2 = cleared.outcome := by
  have hclear := (m.swept_truncated detectedBy fs c).2 h
  have hgoes : (m.swept detectedBy fs c).outcome.limits.abandoned = false := by
    simp only [WalkLimits.truncated, Bool.or_eq_false_iff] at hclear
    exact hclear.1.1.1
  have hcond : (!m.establishing && !(m.swept detectedBy fs c).outcome.limits.truncated) = true := by
    rw [hm, hclear]
    rfl
  rw [swept] at hgoes hcond
  rw [rescanUntil, rescanOver]
  dsimp only
  rw [if_neg (by simp [hgoes]), if_pos hcond]
  exact ⟨rfl, rfl⟩

theorem rescanUntil_kept (h : ¬(m.establishing = false ∧ m.LooksEverywhere fs c)) :
    (m.rescanUntil detectedBy fs c).1.baseline = (m.swept detectedBy fs c).baseline ∧
      (m.rescanUntil detectedBy fs c).2 = (m.swept detectedBy fs c).outcome := by
  have hcond : ¬(!m.establishing && !(m.swept detectedBy fs c).outcome.limits.truncated) =
      true := by
    rw [← m.swept_truncated detectedBy fs c] at h
    simpa only [Bool.and_eq_true, Bool.not_eq_true'] using h
  rw [swept] at hcond
  rw [rescanUntil, rescanOver]
  dsimp only
  split_ifs
  · exact ⟨rfl, rfl⟩
  · exact ⟨rfl, rfl⟩

/-- The row of a text that a root asks for and that no file found has. -/
structure Unreached (key : String) : Prop where
  row : key ∈ m.baseline
  asked : ∃ root ∈ m.settings.paths, Baseline.likeUnder root.key key = true
  unseen : ∀ path ∈ (walk fs m.settings).files, path.key ≠ key

theorem stale_iff (h : m.LooksEverywhere fs c) (key : String) :
    (m.swept detectedBy fs c).Stale m.settings.paths key ↔ m.Unreached fs key := by
  have hseen : key ∉ (m.swept detectedBy fs c).seen ↔
      ∀ path ∈ (walk fs m.settings).files, path.key ≠ key := by
    rw [m.swept_of_looksEverywhere detectedBy fs c h, Sweep.foldl_compare_seen]
    simp
  have hrow (hunseen : ∀ path ∈ (walk fs m.settings).files, path.key ≠ key) :
      key ∈ (m.swept detectedBy fs c).baseline ↔ key ∈ m.baseline := by
    have hkept := (Sweep.foldl_compare_ne m.establishing detectedBy c.inspected
      (walk fs m.settings).files
      { baseline := m.baseline, outcome := { limits := (walk fs m.settings).limits } } key
      fun path hpath => (hunseen path hpath).symm).1
    rw [Baseline.mem_iff, Baseline.mem_iff, m.swept_of_looksEverywhere detectedBy fs c h, hkept]
  constructor
  · rintro ⟨hmem, hnew, hasked⟩
    have hunseen := hseen.1 hnew
    exact ⟨(hrow hunseen).1 hmem, hasked, hunseen⟩
  · rintro ⟨hmem, hasked, hunseen⟩
    exact ⟨(hrow hunseen).2 hmem, hseen.2 hunseen, hasked⟩

theorem swept_not_deleted {event : FimEvent}
    (h : event ∈ (m.swept detectedBy fs c).outcome.events) :
    event.change ≠ .deleted := (m.swept_deletes detectedBy fs c).not_deleted rfl event h

/-- A deletion is reported for exactly the rows that were not reached, by a scan that takes the
pass. -/
theorem deleted_iff (key : String) :
    (∃ event ∈ (m.rescanUntil detectedBy fs c).2.events, event.change = .deleted ∧
    event.path = key) ↔
      (m.establishing = false ∧ m.LooksEverywhere fs c) ∧ m.Unreached fs key := by
  classical
  by_cases hpass : m.establishing = false ∧ m.LooksEverywhere fs c
  · obtain ⟨-, houtcome⟩ := m.rescanUntil_cleared detectedBy fs c hpass.1 hpass.2
    have hevents := (Sweep.foldl_forgetUnder detectedBy c.order m.settings.paths
      (m.swept detectedBy fs c) key).2
    rw [houtcome, and_iff_right hpass, ← m.stale_iff detectedBy fs c hpass.2]
    constructor
    · rintro ⟨event, hevent, hchange, rfl⟩
      have hmem := mem_eventsFor.2 ⟨hevent, rfl⟩
      by_contra hstale
      rw [hevents, if_neg hstale, List.append_nil] at hmem
      exact m.swept_not_deleted detectedBy fs c (mem_eventsFor.1 hmem).1 hchange
    · intro hstale
      rw [if_pos hstale] at hevents
      have hmem : deletedEvent key ((m.swept detectedBy fs c).baseline.get key) detectedBy ∈
          eventsFor key (m.settings.paths.foldl (Sweep.forgetUnder detectedBy c.order)
            (m.swept detectedBy fs c)).outcome.events := by
        rw [hevents]
        exact List.mem_append_right _ (List.mem_singleton.2 rfl)
      exact ⟨_, (mem_eventsFor.1 hmem).1, rfl, rfl⟩
  · refine ⟨fun ⟨event, hevent, hchange, _⟩ => ?_, fun h => absurd h.1 hpass⟩
    rw [(m.rescanUntil_kept detectedBy fs c hpass).2] at hevent
    exact absurd hchange (m.swept_not_deleted detectedBy fs c hevent)

/-- A row is lost only if it was not reached, to a scan that takes the pass. -/
theorem removed_iff {key : String} (hrow : key ∈ m.baseline) :
    key ∉ (m.rescanUntil detectedBy fs c).1.baseline ↔
      (m.establishing = false ∧ m.LooksEverywhere fs c) ∧ m.Unreached fs key := by
  classical
  have hswept : key ∈ (m.swept detectedBy fs c).baseline :=
    (m.swept_deletes detectedBy fs c).rows key hrow
  by_cases hpass : m.establishing = false ∧ m.LooksEverywhere fs c
  · obtain ⟨hbaseline, -⟩ := m.rescanUntil_cleared detectedBy fs c hpass.1 hpass.2
    have hget := (Sweep.foldl_forgetUnder detectedBy c.order m.settings.paths
      (m.swept detectedBy fs c) key).1
    rw [hbaseline, and_iff_right hpass, ← m.stale_iff detectedBy fs c hpass.2,
      Baseline.mem_iff, hget]
    rw [Baseline.mem_iff] at hswept
    split_ifs with hstale
    · simp [hstale]
    · simp [hstale, hswept]
  · rw [(m.rescanUntil_kept detectedBy fs c hpass).1]
    exact ⟨fun h => absurd hswept h, fun h => absurd h.1 hpass⟩

/-- Whether the text is that of a path under a root, component by component. -/
def watchesText (text : String) : Bool := (Path.ofText text).any m.isWatched

theorem watchesText_key {path : Path} (hutf8 : path.IsUtf8)
    (hdot : ∀ name ∈ path, name.text ≠ ".") :
    m.watchesText path.key = m.isWatched path := by
  rw [watchesText, Path.ofText_key hutf8 hdot, Option.any_some]

/-- A scan reports no deletion and removes no row outside the roots. -/
structure DeletesInScope : Prop where
  events : ∀ event ∈ (m.rescanUntil detectedBy fs c).2.events, event.change = .deleted →
    m.watchesText event.path = true
  rows : ∀ key ∈ m.baseline, m.watchesText key = false →
    key ∈ (m.rescanUntil detectedBy fs c).1.baseline

/-- A monitor all of whose rows are those of paths under its roots deletes no others, whatever a
text matches. -/
theorem deletesInScope_of_watched
    (hrows : ∀ key ∈ m.baseline, ∃ path : Path, path.IsUtf8 ∧ (∀ name ∈ path, name.text ≠ ".") ∧
      m.isWatched path = true ∧ path.key = key) :
    m.DeletesInScope detectedBy fs c := by
  have hwatched : ∀ key ∈ m.baseline, m.watchesText key = true := by
    intro key hkey
    obtain ⟨path, hutf8, hdot, hpath, rfl⟩ := hrows key hkey
    exact (m.watchesText_key hutf8 hdot).trans hpath
  constructor
  · intro event hevent hchange
    have hunreached := ((m.deleted_iff detectedBy fs c event.path).1
      ⟨event, hevent, hchange, rfl⟩).2
    exact hwatched event.path hunreached.row
  · intro key hkey hout
    rw [hwatched key hkey] at hout
    exact Bool.noConfusion hout

/-- Deletions stay under the roots exactly if the scan does not take the pass, or each row that a
root asks for by its text and that no file found has is that of a path under a root. -/
theorem deletions_in_scope_iff :
    m.DeletesInScope detectedBy fs c ↔
      (m.establishing = false → m.LooksEverywhere fs c → ∀ key, m.Unreached fs key →
      m.watchesText key = true) := by
  constructor
  · intro h hm hlooks key hunreached
    obtain ⟨event, hevent, hchange, rfl⟩ :=
      (m.deleted_iff detectedBy fs c key).2 ⟨⟨hm, hlooks⟩, hunreached⟩
    exact h.events event hevent hchange
  · intro h
    refine ⟨fun event hevent hchange => ?_, fun key hkey hout => ?_⟩
    · obtain ⟨⟨hm, hlooks⟩, hunreached⟩ :=
        (m.deleted_iff detectedBy fs c event.path).1 ⟨event, hevent, hchange, rfl⟩
      exact h hm hlooks event.path hunreached
    · by_contra hlost
      obtain ⟨⟨hm, hlooks⟩, hunreached⟩ := (m.removed_iff detectedBy fs c hkey).1 hlost
      rw [h hm hlooks key hunreached] at hout
      exact Bool.noConfusion hout

end Monitor

def siblingPath : Path :=
  [⟨"etcetera", 0, by decide, by decide⟩, ⟨"hosts", 0, by decide, by decide⟩]

/-- An empty `/etc`, and a file in `/etcetera`. -/
def siblingFiles : FileSystem where
  symlinkMetadata path :=
    if path = sampleRoot then .ok ⟨.dir, 4096, 0o755, 0, 0⟩
    else if path = siblingPath then .ok ⟨.file, 10, 0o644, 0, 0⟩
    else .error .notFound
  readDir path := if path = sampleRoot then some [] else none
  hashFile _ := none

/-- A monitor of `/etc` that knows the file from the time when its directory was watched. -/
def siblingMonitor : Monitor where
  settings := sampleSettings
  baseline := AList.insert siblingPath.key ⟨none, 10, 0o644, 0, 0⟩ ∅
  establishing := false

def siblingConditions : Monitor.Conditions where
  inspected path := inspect siblingFiles path sampleSettings.maxFileBytes

theorem siblingFiles_walked : (walk siblingFiles sampleSettings).files = [] := by
  have hfound : (sampleSettings.paths.foldl
      (WalkState.visit siblingFiles sampleSettings.maxEntries sampleSettings.maxDepth) {}).found =
      ∅ := rfl
  simp only [walk, hfound, Finset.sort_empty]

/-- The file is reported as deleted while it is there. -/
theorem sibling_taken_for_deleted :
    ¬siblingMonitor.DeletesInScope .baselineRescan siblingFiles siblingConditions := by
  intro h
  have hlooks : siblingMonitor.LooksEverywhere siblingFiles siblingConditions := by
    refine ⟨rfl, fun i hi => rfl, fun path hpath => ?_⟩
    rw [show siblingMonitor.settings = sampleSettings from rfl, siblingFiles_walked] at hpath
    exact absurd hpath List.not_mem_nil
  have hunreached : siblingMonitor.Unreached siblingFiles siblingPath.key := by
    refine ⟨(AList.mem_insert _).2 (Or.inl rfl), ⟨sampleRoot, List.mem_cons_self, by
      decide +kernel⟩,
      fun path hpath => ?_⟩
    rw [show siblingMonitor.settings = sampleSettings from rfl, siblingFiles_walked] at hpath
    exact absurd hpath List.not_mem_nil
  obtain ⟨event, hevent, hchange, hpath⟩ :=
    (siblingMonitor.deleted_iff .baselineRescan siblingFiles siblingConditions siblingPath.key).2
      ⟨⟨rfl, hlooks⟩, hunreached⟩
  have hwatched := h.events event hevent hchange
  rw [hpath] at hwatched
  exact absurd hwatched (by decide +kernel)

end CyberSentinel.Fim
