import CyberSentinel.FimScope

/-!
# Missing roots

A root that is not there is counted like one that cannot be read, and a walk with such a count is
taken to have left something out. So one missing root keeps the whole rescan from taking any row for
deleted.
-/

namespace CyberSentinel.Fim

open Tables

namespace WalkState

theorem noteUnreadable_comm (s : WalkState) (a b : ℕ) :
    (s.noteUnreadable a).noteUnreadable b = (s.noteUnreadable b).noteUnreadable a := by
  simp only [noteUnreadable, Nat.add_right_comm]

theorem noteUnreadable_add (s : WalkState) (a b : ℕ) :
    (s.noteUnreadable a).noteUnreadable b = s.noteUnreadable (a + b) := by
  simp only [noteUnreadable, Nat.add_assoc]

theorem foldl_noteUnreadable {α : Type} {step : WalkState → α → WalkState} {k : ℕ}
    (hstep : ∀ s a, step (s.noteUnreadable k) a = (step s a).noteUnreadable k) (l : List α)
    (s : WalkState) :
    l.foldl step (s.noteUnreadable k) = (l.foldl step s).noteUnreadable k := by
  induction l generalizing s with
  | nil => rfl
  | cons a l ih => rw [List.foldl_cons, List.foldl_cons, hstep, ih]

theorem look_noteUnreadable {fs : FileSystem} {maxEntries k : ℕ} {path : Path}
    {descend : WalkState → WalkState}
    {s : WalkState} (h : descend (s.noteUnreadable k) = (descend s).noteUnreadable k) :
    look fs maxEntries path descend (s.noteUnreadable k) =
      (look fs maxEntries path descend s).noteUnreadable k := by
  rw [look, look]
  split
  · exact noteUnreadable_comm s k 1
  · split
    · rfl
    · have hfound : (s.noteUnreadable k).found = s.found := rfl
      rw [hfound]
      split_ifs
      · rfl
      · rfl
    · exact h
    · rfl

theorem visit_noteUnreadable (fs : FileSystem) (maxEntries remaining k : ℕ) (s : WalkState)
    (path : Path) :
    visit fs maxEntries remaining (s.noteUnreadable k) path =
      (visit fs maxEntries remaining s path).noteUnreadable k := by
  induction remaining generalizing s path with
  | zero =>
    rw [visit, visit]
    exact look_noteUnreadable rfl
  | succ remaining ih =>
    rw [visit, visit]
    apply look_noteUnreadable
    cases fs.readDir path with
    | none => exact noteUnreadable_comm s k 1
    | some entries =>
      dsimp only
      rw [noteUnreadable_comm, foldl_noteUnreadable fun s name => ih s (path ++ [name])]

end WalkState

/-- There is nothing at the path. Only this error counts: below a file there is nothing either, and
`lstat` says so with another one. -/
def FileSystem.Missing (fs : FileSystem) (path : Path) : Prop :=
  fs.symlinkMetadata path = .error .notFound

instance (fs : FileSystem) : DecidablePred fs.Missing :=
  fun _ => inferInstanceAs (Decidable (_ = _))

theorem WalkState.visit_missing {fs : FileSystem} {path : Path} (h : fs.Missing path)
    (maxEntries remaining : ℕ)
    (s : WalkState) : visit fs maxEntries remaining s path = s.noteUnreadable 1 := by
  rw [FileSystem.Missing] at h
  cases remaining with
  | zero => rw [visit, look, h]
  | succ remaining => rw [visit, look, h]

/-- A walk over the roots comes to what a walk over those of them that are there comes to, with a
count for each of the others. -/
theorem WalkState.foldl_visit_existing (fs : FileSystem) (maxEntries remaining : ℕ)
    (roots : List Path)
    (s : WalkState) :
    roots.foldl (visit fs maxEntries remaining) s =
      ((roots.filter fun root =>
      ¬fs.Missing root).foldl (visit fs maxEntries remaining) s).noteUnreadable
        (roots.countP fun root => fs.Missing root) := by
  induction roots generalizing s with
  | nil => rfl
  | cons root rest ih =>
    by_cases hmissing : fs.Missing root
    · rw [List.foldl_cons, visit_missing hmissing, ih, List.filter_cons_of_neg
        (by simpa using hmissing),
        List.countP_cons_of_pos (by simpa using hmissing),
        foldl_noteUnreadable fun s root => visit_noteUnreadable fs maxEntries remaining 1 s root,
        noteUnreadable_add, Nat.add_comm]
    · rw [List.foldl_cons, ih, List.filter_cons_of_pos (by simpa using hmissing),
        List.countP_cons_of_neg (by simpa using hmissing), List.foldl_cons]

def FimSettings.existing (settings : FimSettings) (fs : FileSystem) : FimSettings :=
  { settings with paths := settings.paths.filter fun root => ¬fs.Missing root }

theorem walk_existing (fs : FileSystem) (settings : FimSettings) :
    (walk fs settings).files = (walk fs (settings.existing fs)).files ∧
      (walk fs settings).limits =
        { (walk fs (settings.existing fs)).limits with
          unreadable := (walk fs (settings.existing fs)).limits.unreadable +
            settings.paths.countP fun root => fs.Missing root } := by
  simp only [walk, FimSettings.existing,
    WalkState.foldl_visit_existing fs settings.maxEntries settings.maxDepth
    settings.paths]
  exact ⟨rfl, rfl⟩

theorem inspect_walked {fs : FileSystem} {settings : FimSettings} {path : Path}
    (h : path ∈ (walk fs settings).files) (maxFileBytes : ℕ) :
    ∃ record, inspect fs path maxFileBytes = .ok record := by
  simp only [walk, Finset.mem_sort] at h
  rcases WalkState.foldl_sound
    (fun s root file => WalkState.visit_sound fs settings.maxEntries settings.maxDepth s root file)
    _ _ h with hold | ⟨root, -, rest, rfl, hleads⟩
  · exact absurd hold (Finset.notMem_empty _)
  · obtain ⟨m, hm, -⟩ := hleads.isFile
    rw [inspect, hm]
    dsimp only
    split
    · exact ⟨_, rfl⟩
    · exact ⟨_, rfl⟩

namespace Monitor

variable (m : Monitor) (detectedBy : FimDetection) (fs : FileSystem) (order : HashOrder String)

/-- The path lies under a root and has a row, and there is nothing at it any more. -/
structure Gone (path : Path) : Prop where
  watched : m.isWatched path = true
  row : path.key ∈ m.baseline
  missing : fs.Missing path

def GoneReported : Prop :=
  ∀ path, m.Gone fs path → ∃ event ∈ (m.rescan detectedBy fs order).2.events,
    event.change = .deleted ∧ event.path = path.key

/-- What a scan of a filesystem that does not change meanwhile looks at. -/
def still : Conditions where
  inspected path := inspect fs path m.settings.maxFileBytes
  order := order

/-- Where the roots that are there are walked completely, it is the missing ones that keep the scan
from looking everywhere. -/
theorem looksEverywhere_iff
    (hwalked : (walk fs (m.settings.existing fs)).limits.truncated = false) :
    m.LooksEverywhere fs (m.still fs order) ↔ ∀ root ∈ m.settings.paths, ¬fs.Missing root := by
  obtain ⟨-, hlimits⟩ := walk_existing fs m.settings
  have hnone : (walk fs m.settings).limits.truncated = false ↔
      m.settings.paths.countP (fun root => fs.Missing root) = 0 := by
    rw [hlimits]
    simp only [WalkLimits.truncated, Bool.or_eq_false_iff, decide_eq_false_iff_not, not_lt,
      Nat.le_zero] at hwalked ⊢
    rw [hwalked.2, Nat.zero_add, and_iff_right hwalked.1]
  rw [List.countP_eq_zero] at hnone
  simp only [decide_eq_true_eq] at hnone
  exact ⟨fun h => hnone.1 h.walked,
    fun h => ⟨hnone.2 h, fun i hi => rfl, fun path hpath => inspect_walked hpath _⟩⟩

/-- Where a scan compares and each root is missing or walked completely, every file that is gone is
reported exactly if, once there is such a file, no root is missing and no file that is found shows
as the same text. -/
theorem gone_files_reported_iff (hm : m.establishing = false)
    (hwalked : (walk fs (m.settings.existing fs)).limits.truncated = false) :
    m.GoneReported detectedBy fs order ↔
      ∀ path, m.Gone fs path → (∀ root ∈ m.settings.paths, ¬fs.Missing root) ∧
        ∀ file ∈ (walk fs m.settings).files, file.key ≠ path.key := by
  refine forall₂_congr fun path hgone => ?_
  rw [show m.rescan detectedBy fs order = m.rescanUntil detectedBy fs (m.still fs order) from
    rfl, deleted_iff,
    and_iff_right hm, m.looksEverywhere_iff fs order hwalked]
  refine and_congr_right fun _ => ⟨fun h => h.unseen, fun hunseen => ⟨hgone.row, ?_, hunseen⟩⟩
  obtain ⟨root, hroot, hunder⟩ := isWatched_iff.1 hgone.watched
  exact ⟨root, hroot, likeUnder_of_startsWith hunder⟩

end Monitor

theorem samplePath_gone (m : Monitor) (hwatched : m.isWatched samplePath = true)
    (hrow : samplePath.key ∈ m.baseline) :
    m.Gone siblingFiles samplePath := ⟨hwatched, hrow, rfl⟩

/-- The one file known in `/etc` is gone. -/
theorem gone_files_reported_iff_sample :
    let m := sampleMonitor ⟨none, 10, 0o644, 0, 0⟩
    ∃ event ∈ (m.rescan .baselineRescan siblingFiles (HashOrder.asStored _)).2.events,
      event.change = .deleted ∧ event.path = samplePath.key := by
  intro m
  have hfiles : (walk siblingFiles m.settings).files = [] := siblingFiles_walked
  have hgone : m.Gone siblingFiles samplePath :=
    samplePath_gone m (by decide) ((AList.mem_insert _).2 (Or.inl rfl))
  refine (m.gone_files_reported_iff .baselineRescan siblingFiles (HashOrder.asStored _) rfl rfl).2
    (fun path _ => ⟨fun root hroot => ?_, fun file hfile => ?_⟩) samplePath hgone
  · rw [List.mem_singleton.1 hroot]
    decide
  · rw [hfiles] at hfile
    exact absurd hfile List.not_mem_nil

/-- A monitor of `/etc` and of a directory that is not there. -/
def missingRootMonitor : Monitor where
  settings := { paths := [sampleRoot, [⟨"opt", 0, by decide, by decide⟩]] }
  baseline := AList.insert samplePath.key ⟨none, 10, 0o644, 0, 0⟩ ∅
  establishing := false

/-- With the other root missing the file that is gone from `/etc` is not reported. -/
theorem missing_root_hides_gone_file :
    missingRootMonitor.establishing = false ∧
      (walk siblingFiles (missingRootMonitor.settings.existing siblingFiles)).limits.truncated =
      false ∧
      ¬missingRootMonitor.GoneReported .baselineRescan siblingFiles (HashOrder.asStored _) := by
  refine ⟨rfl, rfl, fun h => ?_⟩
  have hgone : missingRootMonitor.Gone siblingFiles samplePath :=
    samplePath_gone missingRootMonitor (by decide) ((AList.mem_insert _).2 (Or.inl rfl))
  have hreported := h samplePath hgone
  rw [show missingRootMonitor.rescan .baselineRescan siblingFiles (HashOrder.asStored _) =
    missingRootMonitor.rescanUntil .baselineRescan siblingFiles
      (missingRootMonitor.still siblingFiles (HashOrder.asStored _)) from rfl, Monitor.deleted_iff,
    missingRootMonitor.looksEverywhere_iff siblingFiles _ rfl] at hreported
  exact hreported.1.2 _ (List.mem_cons_of_mem _ List.mem_cons_self) rfl

end CyberSentinel.Fim
