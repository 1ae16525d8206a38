import CyberSentinel.Fim
import Mathlib.Data.List.ReduceOption

/-!
# What a walk finds

A regular file is under the roots if a root leads to it through directories alone. A walk that left
nothing out has found exactly these: it only ever adds such files, and whatever it leaves out is
counted, so that a walk without a count has entered every directory on the way.
-/

namespace CyberSentinel.Fim

def FileSystem.IsKind (fs : FileSystem) (kind : FileKind) (path : Path) : Prop :=
  ∃ m, fs.symlinkMetadata path = .ok m ∧ m.kind = kind

/-- `rest` leads from `path` to a regular file through directories alone. -/
def FileSystem.LeadsToFile (fs : FileSystem) : Path → Path → Prop
  | path, [] => fs.IsKind .file path
  | path, name :: rest => fs.IsKind .dir path ∧ fs.LeadsToFile (path ++ [name]) rest

def FileSystem.RegularUnder (fs : FileSystem) (roots : List Path) (path : Path) : Prop :=
  ∃ root ∈ roots, ∃ rest, path = root ++ rest ∧ fs.LeadsToFile root rest

/-- What holds of a filesystem that does not change meanwhile: a directory that can be read names
everything that is in it, and a size is a file offset. -/
structure FileSystem.Consistent (fs : FileSystem) : Prop where
  lists : ∀ path entries name child, fs.IsKind .dir path → fs.readDir path = some entries →
    fs.symlinkMetadata (path ++ [name]) = .ok child → some name ∈ entries
  size_lt : ∀ path m, fs.symlinkMetadata path = .ok m → m.size < 2 ^ 63

theorem FileSystem.LeadsToFile.isOk {fs : FileSystem} {path rest : Path}
    (h : fs.LeadsToFile path rest) : ∃ m, fs.symlinkMetadata path = .ok m := by
  cases rest with
  | nil =>
    obtain ⟨m, hm, -⟩ := h
    exact ⟨m, hm⟩
  | cons name rest =>
    obtain ⟨⟨m, hm, -⟩, -⟩ := h
    exact ⟨m, hm⟩

theorem FileSystem.LeadsToFile.isFile {fs : FileSystem} {path rest : Path}
    (h : fs.LeadsToFile path rest) : fs.IsKind .file (path ++ rest) := by
  induction rest generalizing path with
  | nil =>
    rw [List.append_nil]
    exact h
  | cons name rest ih =>
    have hrest := ih h.2
    rw [List.append_assoc, List.singleton_append] at hrest
    exact hrest

def WalkLimits.Clear (l : WalkLimits) : Prop :=
  l.overEntryLimit = 0 ∧ l.overDepthLimit = 0 ∧ l.unreadable = 0

theorem WalkLimits.clear_of_truncated {l : WalkLimits} (h : l.truncated = false) : l.Clear := by
  simp only [truncated, Bool.or_eq_false_iff, decide_eq_false_iff_not, not_lt, Nat.le_zero] at h
  exact ⟨h.1.1.2, h.1.2, h.2⟩

namespace WalkState

/-- A later state of a walk has at least the files and the counts of an earlier one. -/
structure Grows (s t : WalkState) : Prop where
  found : s.found ⊆ t.found
  clear : t.limits.Clear → s.limits.Clear

theorem Grows.refl (s : WalkState) : Grows s s := ⟨Finset.Subset.refl _, id⟩

theorem Grows.trans {s t u : WalkState} (h : Grows s t) (h' : Grows t u) : Grows s u :=
  ⟨h.found.trans h'.found, fun hclear => h.clear (h'.clear hclear)⟩

theorem grows_noteUnreadable (s : WalkState) (count : ℕ) : Grows s (s.noteUnreadable count) := by
  refine ⟨Finset.Subset.refl _, ?_⟩
  rintro ⟨hentry, hdepth, hunreadable⟩
  exact ⟨hentry, hdepth, Nat.eq_zero_of_add_eq_zero_right hunreadable⟩

theorem grows_foldl {α : Type} {step : WalkState → α → WalkState}
    (hstep : ∀ s a, Grows s (step s a))
    (l : List α) (s : WalkState) : Grows s (l.foldl step s) := by
  induction l generalizing s with
  | nil => exact Grows.refl s
  | cons a l ih => exact (hstep s a).trans (ih _)

theorem grows_look {fs : FileSystem} {maxEntries : ℕ} {path : Path}
    {descend : WalkState → WalkState}
    {s : WalkState} (h : Grows s (descend s)) : Grows s (look fs maxEntries path descend s) := by
  rw [look]
  split
  · exact grows_noteUnreadable s 1
  · split
    · exact ⟨Finset.Subset.refl _, id⟩
    · split_ifs
      · refine ⟨Finset.Subset.refl _, ?_⟩
        rintro ⟨hentry, -⟩
        exact absurd hentry (Nat.succ_ne_zero _)
      · exact ⟨Finset.subset_insert _ _, id⟩
    · exact h
    · exact Grows.refl s

theorem grows_visit (fs : FileSystem) (maxEntries remaining : ℕ) (s : WalkState) (path : Path) :
    Grows s (visit fs maxEntries remaining s path) := by
  induction remaining generalizing s path with
  | zero =>
    refine grows_look ⟨Finset.Subset.refl _, ?_⟩
    rintro ⟨-, hdepth, -⟩
    exact absurd hdepth (Nat.succ_ne_zero _)
  | succ remaining ih =>
    apply grows_look
    split
    · exact grows_noteUnreadable s 1
    · exact (grows_noteUnreadable s _).trans (grows_foldl (fun s name => ih s (path ++ [name])) _ _)

/-- A step that only adds files of which `Q` holds. -/
theorem foldl_sound {α : Type} {step : WalkState → α → WalkState} {Q : α → Path → Prop}
    (hstep : ∀ s a file, file ∈ (step s a).found → file ∈ s.found ∨ Q a file) (l : List α)
    (s : WalkState) {file : Path} (h : file ∈ (l.foldl step s).found) :
    file ∈ s.found ∨ ∃ a ∈ l, Q a file := by
  induction l generalizing s with
  | nil => exact Or.inl h
  | cons a l ih =>
    rcases ih _ h with hfirst | ⟨b, hb, hQ⟩
    · rcases hstep s a file hfirst with hold | hQ
      · exact Or.inl hold
      · exact Or.inr ⟨a, List.mem_cons_self, hQ⟩
    · exact Or.inr ⟨b, List.mem_cons_of_mem _ hb, hQ⟩

theorem look_sound {fs : FileSystem} {maxEntries : ℕ} {path : Path}
    {descend : WalkState → WalkState} {s : WalkState} {file : Path}
    (h : file ∈ (look fs maxEntries path descend s).found) :
    file ∈ s.found ∨ (file = path ∧ fs.IsKind .file path) ∨
      (fs.IsKind .dir path ∧ file ∈ (descend s).found) := by
  rw [look] at h
  split at h
  · exact Or.inl h
  · next m hm =>
    split at h
    · exact Or.inl h
    · next hkind =>
      split_ifs at h
      · exact Or.inl h
      · rcases Finset.mem_insert.1 h with rfl | hold
        · exact Or.inr (Or.inl ⟨rfl, m, hm, hkind⟩)
        · exact Or.inl hold
    · next hkind => exact Or.inr (Or.inr ⟨⟨m, hm, hkind⟩, h⟩)
    · exact Or.inl h

theorem visit_sound (fs : FileSystem) (maxEntries remaining : ℕ) (s : WalkState) (path file : Path)
    (h : file ∈ (visit fs maxEntries remaining s path).found) :
    file ∈ s.found ∨ ∃ rest, file = path ++ rest ∧ fs.LeadsToFile path rest := by
  induction remaining generalizing s path file with
  | zero =>
    rcases look_sound h with hold | ⟨rfl, hfile⟩ | ⟨-, hold⟩
    · exact Or.inl hold
    · exact Or.inr ⟨[], (List.append_nil _).symm, hfile⟩
    · exact Or.inl hold
  | succ remaining ih =>
    rcases look_sound h with hold | ⟨rfl, hfile⟩ | ⟨hdir, hbelow⟩
    · exact Or.inl hold
    · exact Or.inr ⟨[], (List.append_nil _).symm, hfile⟩
    · split at hbelow
      · exact Or.inl hbelow
      · rcases foldl_sound (fun s name file hmem => ih s (path ++ [name]) file hmem) _ _ hbelow with
          hold | ⟨name, -, rest, hfile, hleads⟩
        · exact Or.inl hold
        · refine Or.inr ⟨name :: rest, ?_, hdir, hleads⟩
          rw [hfile, List.append_assoc, List.singleton_append]

theorem foldl_reaches {α : Type} {step : WalkState → α → WalkState}
    (hgrows : ∀ s a, Grows s (step s a))
    {l : List α} {a : α} (ha : a ∈ l) {file : Path}
    (hstep : ∀ s, (step s a).limits.Clear → file ∈ (step s a).found) (s : WalkState)
    (hclear : (l.foldl step s).limits.Clear) : file ∈ (l.foldl step s).found := by
  obtain ⟨before, after, rfl⟩ := List.append_of_mem ha
  rw [List.foldl_append, List.foldl_cons] at hclear ⊢
  have hlater := grows_foldl hgrows after (step (before.foldl step s) a)
  exact hlater.found (hstep _ (hlater.clear hclear))

theorem look_file {fs : FileSystem} {maxEntries : ℕ} {path : Path} {descend : WalkState → WalkState}
    {s : WalkState} (hfile : fs.IsKind .file path)
    (hclear : (look fs maxEntries path descend s).limits.Clear) :
    path ∈ (look fs maxEntries path descend s).found := by
  obtain ⟨m, hm, hkind⟩ := hfile
  simp only [look, hm, hkind] at hclear ⊢
  split_ifs at hclear ⊢
  · exact absurd hclear.1 (Nat.succ_ne_zero _)
  · exact Finset.mem_insert_self _ _

theorem look_dir {fs : FileSystem} {maxEntries : ℕ} {path : Path} {descend : WalkState → WalkState}
    {s : WalkState} (hdir : fs.IsKind .dir path) :
    look fs maxEntries path descend s = descend s := by
  obtain ⟨m, hm, hkind⟩ := hdir
  simp only [look, hm, hkind]

theorem visit_reaches {fs : FileSystem} (hfs : fs.Consistent) (maxEntries remaining : ℕ)
    (s : WalkState) {path rest : Path} (hleads : fs.LeadsToFile path rest)
    (hclear : (visit fs maxEntries remaining s path).limits.Clear) :
    path ++ rest ∈ (visit fs maxEntries remaining s path).found := by
  induction rest generalizing remaining s path with
  | nil =>
    rw [List.append_nil]
    cases remaining with
    | zero => exact look_file hleads hclear
    | succ remaining => exact look_file hleads hclear
  | cons name rest ih =>
    obtain ⟨hdir, hbelow⟩ := hleads
    cases remaining with
    | zero =>
      rw [visit, look_dir hdir] at hclear
      exact absurd hclear.2.1 (Nat.succ_ne_zero _)
    | succ remaining =>
      rw [visit, look_dir hdir] at hclear ⊢
      cases hentries : fs.readDir path with
      | none =>
        rw [hentries] at hclear
        exact absurd hclear.2.2 (Nat.succ_ne_zero _)
      | some entries =>
        simp only [hentries] at hclear ⊢
        obtain ⟨child, hchild⟩ := hbelow.isOk
        have hlisted := hfs.lists path entries name child hdir hentries hchild
        have hmem : name ∈ entries.reduceOption.reverse :=
          List.mem_reverse.2 (List.reduceOption_mem_iff.2 hlisted)
        refine foldl_reaches (fun s name => grows_visit fs maxEntries remaining s (path ++ [name]))
          hmem ?_ _ hclear
        intro s hone
        have hreached := ih remaining s hbelow hone
        rw [List.append_assoc, List.singleton_append] at hreached
        exact hreached

end WalkState

/-- A walk that left nothing out has found the regular files under the roots. -/
theorem mem_walk_iff {fs : FileSystem} (hfs : fs.Consistent) {settings : FimSettings}
    (h : (walk fs settings).limits.truncated = false) (path : Path) :
    path ∈ (walk fs settings).files ↔ fs.RegularUnder settings.paths path := by
  have hclear := WalkLimits.clear_of_truncated h
  simp only [walk, Finset.mem_sort] at hclear ⊢
  constructor
  · intro hmem
    rcases WalkState.foldl_sound
      (fun s root file => WalkState.visit_sound fs settings.maxEntries settings.maxDepth
      s root file)
      _ _ hmem with hold | hregular
    · exact absurd hold (Finset.notMem_empty _)
    · exact hregular
  · rintro ⟨root, hroot, rest, rfl, hleads⟩
    exact WalkState.foldl_reaches
      (WalkState.grows_visit fs settings.maxEntries settings.maxDepth) hroot
      (fun s hone => WalkState.visit_reaches hfs settings.maxEntries settings.maxDepth s
        hleads hone)
      _ hclear

end CyberSentinel.Fim
