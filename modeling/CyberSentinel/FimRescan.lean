import CyberSentinel.FimWalk

/-!
# What a rescan reports

The loop over the files touches, for each file, the row of that file alone; the deletion pass takes
away rows that were not seen, each once whatever the roots it lies under. So the events that carry
the text of one path are decided by that path's record and its row. From this a whole rescan reports
exactly the difference, and a scan that left something out reports no deletion.
-/

namespace CyberSentinel.Fim

open Tables

/-! ### Rows -/

def FileRecord.stored (record : FileRecord) : FileRecord :=
  { record with size := min record.size (2 ^ 63 - 1) }

namespace Baseline

theorem get_put_self (b : Baseline) (key : String) (record : FileRecord) :
    (b.put key record).get key = some record.stored := AList.lookup_insert b

theorem get_put_ne (b : Baseline) {key other : String} (record : FileRecord) (h : other ≠ key) :
    (b.put key record).get other = b.get other := AList.lookup_insert_ne h

theorem get_remove_self (b : Baseline) (key : String) : (b.remove key).get key = none :=
  AList.lookup_erase key b

theorem get_remove_ne (b : Baseline) {key other : String} (h : other ≠ key) :
    (b.remove key).get other = b.get other := AList.lookup_erase_ne h

theorem mem_iff (b : Baseline) (key : String) : key ∈ b ↔ (b.get key).isSome = true :=
  AList.lookup_isSome.symm

theorem mem_pathsUnder (b : Baseline) (order : HashOrder String) (root key : String) :
    key ∈ b.pathsUnder order root ↔ key ∈ b ∧ likeUnder root key = true := by
  rw [pathsUnder, List.mem_filter, (order.perm b.keys).mem_iff, AList.mem_keys]

theorem nodup_pathsUnder (b : Baseline) (order : HashOrder String) (root : String) :
    (b.pathsUnder order root).Nodup :=
  ((order.perm b.keys).nodup_iff.2 b.keys_nodup).filter _

end Baseline

theorem likeUnder_of_startsWith {path root : Path} (h : Path.startsWith path root = true) :
    Baseline.likeUnder root.key path.key = true := by
  obtain ⟨rest, rfl⟩ := Path.startsWith_iff.1 h
  obtain ⟨after, hafter⟩ := Path.keyChars_append root rest
  rw [Baseline.likeUnder, Path.key, Path.key, String.toList_ofList, String.toList_ofList, ← hafter,
    List.map_append, List.isPrefixOf_iff_prefix]
  exact List.prefix_append _ _

/-! ### Events of one path -/

def eventsFor (key : String) (events : List FimEvent) : List FimEvent :=
  events.filter (fun event => event.path = key)

@[simp] theorem eventsFor_append (key : String) (a b : List FimEvent) :
    eventsFor key (a ++ b) = eventsFor key a ++ eventsFor key b := List.filter_append a b

@[simp] theorem eventsFor_nil (key : String) : eventsFor key [] = [] := rfl

theorem difference_path {path : String} {previous : Option FileRecord} {current : FileRecord}
    {detectedBy : FimDetection} {event : FimEvent}
    (h : difference path previous current detectedBy = some event) : event.path = path := by
  cases previous with
  | none =>
    cases h
    rfl
  | some previous =>
    simp only [difference] at h
    split_ifs at h
    · cases h
      rfl
    · cases h
      rfl

theorem eventsFor_difference (key : String) (previous : Option FileRecord) (current : FileRecord)
    (detectedBy : FimDetection) :
    eventsFor key (difference key previous current detectedBy).toList =
      (difference key previous current detectedBy).toList := by
  refine List.filter_eq_self.2 (fun event hevent => ?_)
  rw [decide_eq_true_eq]
  exact difference_path (Option.mem_toList.1 hevent)

theorem eventsFor_difference_ne {key other : String} (h : other ≠ key)
    (previous : Option FileRecord) (current : FileRecord) (detectedBy : FimDetection) :
    eventsFor other (difference key previous current detectedBy).toList = [] := by
  refine List.filter_eq_nil_iff.2 (fun event hevent => ?_)
  rw [decide_eq_true_eq, difference_path (Option.mem_toList.1 hevent)]
  exact Ne.symm h

/-! ### The loop over the files -/

namespace Sweep

section Files

variable (establishing : Bool) (detectedBy : FimDetection) (inspected : Path → Inspection)

def rowAfter (inspection : Inspection) (row : Option FileRecord) : Option FileRecord :=
  match inspection with
  | .ok (some current) => some current.stored
  | _ => row

def reported (establishing : Bool) (detectedBy : FimDetection) (key : String)
    (inspection : Inspection) (row : Option FileRecord) : List FimEvent :=
  match inspection with
  | .ok (some current) =>
    if establishing then [] else (difference key row current detectedBy).toList
  | _ => []

theorem compare_self (s : Sweep) (path : Path) :
    (s.compare establishing detectedBy inspected path).baseline.get path.key =
        rowAfter (inspected path) (s.baseline.get path.key) ∧
      eventsFor path.key (s.compare establishing detectedBy inspected path).outcome.events =
        eventsFor path.key s.outcome.events ++
          reported establishing detectedBy path.key (inspected path) (s.baseline.get path.key) := by
  rw [compare]
  cases inspected path with
  | error e => exact ⟨rfl, (List.append_nil _).symm⟩
  | ok record =>
    cases record with
    | none => exact ⟨rfl, (List.append_nil _).symm⟩
    | some current =>
      simp only [rowAfter, reported]
      split_ifs
      · exact ⟨Baseline.get_put_self _ _ _, (List.append_nil _).symm⟩
      · exact ⟨Baseline.get_put_self _ _ _, by rw [eventsFor_append, eventsFor_difference]⟩

theorem compare_ne (s : Sweep) {path : Path} {key : String} (h : key ≠ path.key) :
    (s.compare establishing detectedBy inspected path).baseline.get key = s.baseline.get key ∧
      eventsFor key (s.compare establishing detectedBy inspected path).outcome.events =
        eventsFor key s.outcome.events := by
  rw [compare]
  cases inspected path with
  | error e => exact ⟨rfl, rfl⟩
  | ok record =>
    cases record with
    | none => exact ⟨rfl, rfl⟩
    | some current =>
      simp only
      split_ifs
      · exact ⟨Baseline.get_put_ne _ _ h, rfl⟩
      · exact ⟨Baseline.get_put_ne _ _ h,
          by rw [eventsFor_append, eventsFor_difference_ne h, List.append_nil]⟩

theorem foldl_compare_ne (files : List Path) (s : Sweep) (key : String)
    (h : ∀ path ∈ files, key ≠ path.key) :
    (files.foldl (compare establishing detectedBy inspected) s).baseline.get key =
        s.baseline.get key ∧
      eventsFor key (files.foldl (compare establishing detectedBy inspected) s).outcome.events =
        eventsFor key s.outcome.events := by
  induction files generalizing s with
  | nil => exact ⟨rfl, rfl⟩
  | cons path rest ih =>
    obtain ⟨hrow, hevents⟩ :=
      compare_ne establishing detectedBy inspected s (h path List.mem_cons_self)
    obtain ⟨hrows, hall⟩ := ih (s.compare establishing detectedBy inspected path)
      (fun other hother => h other (List.mem_cons_of_mem _ hother))
    exact ⟨hrows.trans hrow, hall.trans hevents⟩

/-- A file that the loop meets, and no other of that text, has its row and its events decided by
what looking at it comes to. -/
theorem foldl_compare_self {files : List Path} (hfiles : files.Nodup) (s : Sweep) {path : Path}
    (hpath : path ∈ files) (hkey : ∀ other ∈ files, other.key = path.key → other = path) :
    (files.foldl (compare establishing detectedBy inspected) s).baseline.get path.key =
        rowAfter (inspected path) (s.baseline.get path.key) ∧
      eventsFor path.key
          (files.foldl (compare establishing detectedBy inspected) s).outcome.events =
        eventsFor path.key s.outcome.events ++
          reported establishing detectedBy path.key (inspected path) (s.baseline.get path.key) := by
  obtain ⟨before, after, rfl⟩ := List.append_of_mem hpath
  obtain ⟨-, hlater, hapart⟩ := List.nodup_append.1 hfiles
  have hbefore : ∀ other ∈ before, path.key ≠ other.key := by
    intro other hother heq
    exact hapart other hother path List.mem_cons_self
      (hkey other (List.mem_append_left _ hother) heq.symm)
  have hafter : ∀ other ∈ after, path.key ≠ other.key := by
    intro other hother heq
    have hsame := hkey other (List.mem_append_right _ (List.mem_cons_of_mem _ hother)) heq.symm
    exact (List.nodup_cons.1 hlater).1 (hsame ▸ hother)
  rw [List.foldl_append, List.foldl_cons]
  obtain ⟨hrow, hevents⟩ :=
    foldl_compare_ne establishing detectedBy inspected before s path.key hbefore
  obtain ⟨hrowSelf, heventsSelf⟩ := compare_self establishing detectedBy inspected
    (before.foldl (compare establishing detectedBy inspected) s) path
  obtain ⟨hrowLast, heventsLast⟩ := foldl_compare_ne establishing detectedBy inspected after
    ((before.foldl (compare establishing detectedBy inspected) s).compare establishing detectedBy
      inspected path) path.key hafter
  rw [hrowLast, heventsLast, hrowSelf, heventsSelf, hrow, hevents]
  exact ⟨rfl, rfl⟩

theorem foldl_compare_events (files : List Path) (s : Sweep) {event : FimEvent}
    (h : event ∈ (files.foldl (compare establishing detectedBy inspected) s).outcome.events) :
    event ∈ s.outcome.events ∨ ∃ path ∈ files, event.path = path.key := by
  by_cases hfile : ∃ path ∈ files, event.path = path.key
  · exact Or.inr hfile
  · have hkept := (foldl_compare_ne establishing detectedBy inspected files s event.path
      (fun path hpath heq => hfile ⟨path, hpath, heq⟩)).2
    have hmem : event ∈ eventsFor event.path s.outcome.events := by
      rw [← hkept]
      exact List.mem_filter.2 ⟨h, by simp⟩
    exact Or.inl (List.mem_filter.1 hmem).1

theorem foldl_compare_seen (files : List Path) (s : Sweep) (key : String) :
    key ∈ (files.foldl (compare establishing detectedBy inspected) s).seen ↔
      key ∈ s.seen ∨ ∃ path ∈ files, path.key = key := by
  induction files generalizing s with
  | nil => simp
  | cons path rest ih =>
    have hseen : (s.compare establishing detectedBy inspected path).seen =
        insert path.key s.seen := by
      rw [compare]
      split
      · split_ifs <;> rfl
      · rfl
      · rfl
    rw [List.foldl_cons, ih, hseen, Finset.mem_insert]
    simp only [List.mem_cons, exists_eq_or_imp]
    rw [eq_comm, or_comm (a := path.key = key), or_assoc]

end Files

def reached (shouldContinue : ℕ → Bool) : ℕ → List Path → List Path
  | _, [] => []
  | i, path :: rest => if shouldContinue i then path :: reached shouldContinue (i + 1) rest else []

def abandon (s : Sweep) : Sweep :=
  { s with outcome := { s.outcome with limits := { s.outcome.limits with abandoned := true } } }

theorem reached_sublist (shouldContinue : ℕ → Bool) (i : ℕ) (files : List Path) :
    List.Sublist (reached shouldContinue i files) files := by
  induction files generalizing i with
  | nil => exact List.Sublist.refl _
  | cons path rest ih =>
    rw [reached]
    split_ifs
    · exact (ih (i + 1)).cons_cons path
    · exact List.nil_sublist _

theorem reached_all (i : ℕ) (files : List Path) : reached (fun _ => true) i files = files := by
  induction files generalizing i with
  | nil => rfl
  | cons path rest ih => rw [reached, if_pos rfl, ih]

/-- The loop compares the files it reaches, and is abandoned where it does not reach them all. -/
theorem files_eq (establishing : Bool) (detectedBy : FimDetection) (inspected : Path → Inspection)
    (shouldContinue : ℕ → Bool) (i : ℕ) (s : Sweep) (files : List Path) :
    Sweep.files establishing detectedBy inspected shouldContinue i s files =
      let swept := (reached shouldContinue i files).foldl
        (compare establishing detectedBy inspected) s
      if reached shouldContinue i files = files then swept else swept.abandon := by
  induction files generalizing i s with
  | nil => rfl
  | cons path rest ih =>
    cases hgo : shouldContinue i with
    | true =>
      have hreached : reached shouldContinue i (path :: rest) =
          path :: reached shouldContinue (i + 1) rest := by rw [reached, if_pos hgo]
      rw [Sweep.files, if_pos hgo, ih, hreached]
      simp only [List.foldl_cons, List.cons.injEq, true_and]
    | false =>
      have hreached : reached shouldContinue i (path :: rest) = [] := by
        rw [reached, if_neg (by simp [hgo])]
      rw [Sweep.files, if_neg (by simp [hgo]), hreached]
      exact (if_neg (List.cons_ne_nil _ _).symm).symm

/-! ### The deletion pass -/

/-- The row is taken away: it is not seen, and its text is among those listed. -/
theorem foldl_forget (detectedBy : FimDetection) {keys : List String} (hkeys : keys.Nodup)
    (s : Sweep) (key : String) :
    (keys.foldl (forget detectedBy) s).seen = s.seen ∧
      (keys.foldl (forget detectedBy) s).baseline.get key =
        (if key ∈ keys ∧ key ∉ s.seen then none else s.baseline.get key) ∧
      eventsFor key (keys.foldl (forget detectedBy) s).outcome.events =
        eventsFor key s.outcome.events ++
          (if key ∈ keys ∧ key ∉ s.seen then
            [deletedEvent key (s.baseline.get key) detectedBy] else []) := by
  induction keys generalizing s with
  | nil => simp
  | cons known rest ih =>
    obtain ⟨hfresh, hrest⟩ := List.nodup_cons.1 hkeys
    obtain ⟨hseen, hrow, hevents⟩ := ih hrest (s.forget detectedBy known)
    have hkept : (s.forget detectedBy known).seen = s.seen := by
      rw [forget]
      split_ifs <;> rfl
    rw [List.foldl_cons, hseen, hrow, hevents, hkept]
    refine ⟨rfl, ?_⟩
    by_cases hself : key = known
    · have hnot : ¬(key ∈ rest ∧ key ∉ s.seen) := fun h => hfresh (hself ▸ h.1)
      simp only [if_neg hnot]
      by_cases hmem : known ∈ s.seen
      · have hcond : ¬(key ∈ known :: rest ∧ key ∉ s.seen) := fun h => h.2 (hself ▸ hmem)
        simp only [forget, if_pos hmem, if_neg hcond]
        exact ⟨trivial, trivial⟩
      · have hcond : key ∈ known :: rest ∧ key ∉ s.seen := by
          rw [hself]
          exact ⟨List.mem_cons_self, hmem⟩
        simp only [forget, if_neg hmem, if_pos hcond, List.append_nil]
        rw [hself]
        exact ⟨Baseline.get_remove_self _ _, by simp [eventsFor, deletedEvent]⟩
    · have hiff : key ∈ rest ∧ key ∉ s.seen ↔ key ∈ known :: rest ∧ key ∉ s.seen := by
        simp [hself]
      have hother : (s.forget detectedBy known).baseline.get key = s.baseline.get key ∧
          eventsFor key (s.forget detectedBy known).outcome.events =
            eventsFor key s.outcome.events := by
        rw [forget]
        split_ifs
        · exact ⟨rfl, rfl⟩
        · exact ⟨Baseline.get_remove_ne _ hself,
            by simp [eventsFor, deletedEvent, Ne.symm hself]⟩
      rw [hother.1, hother.2]
      simp only [hiff]
      exact ⟨trivial, trivial⟩

def Stale (roots : List Path) (s : Sweep) (key : String) : Prop :=
  key ∈ s.baseline ∧ key ∉ s.seen ∧ ∃ root ∈ roots, Baseline.likeUnder root.key key = true

open Classical in
theorem foldl_forgetUnder (detectedBy : FimDetection) (order : HashOrder String)
    (roots : List Path) (s : Sweep) (key : String) :
    (roots.foldl (forgetUnder detectedBy order) s).baseline.get key =
        (if s.Stale roots key then none else s.baseline.get key) ∧
      eventsFor key (roots.foldl (forgetUnder detectedBy order) s).outcome.events =
        eventsFor key s.outcome.events ++
          (if s.Stale roots key then [deletedEvent key (s.baseline.get key) detectedBy]
          else []) := by
  induction roots generalizing s with
  | nil => simp [Stale]
  | cons root rest ih =>
    obtain ⟨hseen, hrow, hevents⟩ := foldl_forget detectedBy
      (s.baseline.nodup_pathsUnder order root.key) s key
    obtain ⟨hrows, hall⟩ := ih (s.forgetUnder detectedBy order root)
    rw [List.foldl_cons, hrows, hall]
    simp only [forgetUnder, Stale, hseen, Baseline.mem_iff, hrow, hevents,
      Baseline.mem_pathsUnder, List.mem_cons, exists_eq_or_imp]
    by_cases hmem : (s.baseline.get key).isSome = true
    · by_cases hunseen : key ∈ s.seen
      · simp [hunseen]
      · by_cases hlike : Baseline.likeUnder root.key key = true
        · simp [hunseen, hlike, hmem]
        · simp [hunseen, hlike, hmem]
    · simp [hmem]

theorem foldl_forgetUnder_events (detectedBy : FimDetection) (order : HashOrder String)
    (roots : List Path) (s : Sweep) {event : FimEvent}
    (h : event ∈ (roots.foldl (forgetUnder detectedBy order) s).outcome.events) :
    event ∈ s.outcome.events ∨ event.path ∈ s.baseline := by
  classical
  by_cases hstale : s.Stale roots event.path
  · exact Or.inr hstale.1
  · have hkept := (foldl_forgetUnder detectedBy order roots s event.path).2
    rw [if_neg hstale, List.append_nil] at hkept
    have hmem : event ∈ eventsFor event.path s.outcome.events := by
      rw [← hkept]
      exact List.mem_filter.2 ⟨h, by simp⟩
    exact Or.inl (List.mem_filter.1 hmem).1

end Sweep

/-! ### What is to be reported -/

/-- Both hashes exist and differ, or a hash is missing and the sizes differ. -/
def ContentChanged (previous current : FileRecord) : Prop :=
  (∃ before after, previous.sha256 = some before ∧ current.sha256 = some after ∧ before ≠ after) ∨
    (previous.sha256 = none ∨ current.sha256 = none) ∧ previous.size ≠ current.size

def AttributesDiffer (previous current : FileRecord) : Prop :=
  previous.mode ≠ current.mode ∨ previous.uid ≠ current.uid ∨ previous.gid ≠ current.gid

open Classical in
/-- The change between the row of a path and its record, neither of which need be there. -/
noncomputable def expectedChange : Option FileRecord → Option FileRecord → Option FileChange
  | none, none => none
  | none, some _ => some .created
  | some _, none => some .deleted
  | some previous, some current =>
    if ContentChanged previous current then some .modified
    else if AttributesDiffer previous current then some .attributesChanged
    else none

open Classical in
noncomputable def recordOf (fs : FileSystem) (settings : FimSettings) (path : Path) :
    Option FileRecord :=
  if fs.RegularUnder settings.paths path then
    match inspect fs path settings.maxFileBytes with
    | .ok record => record
    | .error _ => none
  else none

theorem difference_change (key : String) (row : Option FileRecord) (current : FileRecord)
    (detectedBy : FimDetection) :
    (difference key row current detectedBy).toList.map FimEvent.change =
      (expectedChange row (some current)).toList := by
  classical
  cases row with
  | none => rfl
  | some previous =>
    have hcontent : contentChanged previous current = true ↔ ContentChanged previous current := by
      rw [ContentChanged, contentChanged]
      cases previous.sha256 with
      | none => simp
      | some before =>
        cases current.sha256 with
        | none => simp
        | some after => simp
    by_cases hchanged : ContentChanged previous current
    · rw [expectedChange, if_pos hchanged]
      simp only [difference]
      rw [if_pos (hcontent.2 hchanged)]
      rfl
    · rw [expectedChange, if_neg hchanged]
      simp only [difference]
      rw [if_neg (fun h => hchanged (hcontent.1 h))]
      by_cases hattributes : AttributesDiffer previous current
      · rw [if_pos hattributes]
        rw [AttributesDiffer] at hattributes
        rw [if_pos hattributes]
        rfl
      · rw [if_neg hattributes]
        rw [AttributesDiffer] at hattributes
        rw [if_neg hattributes]
        rfl

theorem expectedChange_self (record : Option FileRecord) : expectedChange record record = none := by
  classical
  cases record with
  | none => rfl
  | some current =>
    have hcontent : ¬ContentChanged current current := by
      rintro (⟨before, after, hbefore, hafter, hne⟩ | ⟨-, hne⟩)
      · rw [hbefore] at hafter
        exact hne (Option.some.inj hafter)
      · exact hne rfl
    have hattributes : ¬AttributesDiffer current current := by
      rintro (hne | hne | hne)
      · exact hne rfl
      · exact hne rfl
      · exact hne rfl
    rw [expectedChange, if_neg hcontent, if_neg hattributes]

theorem inspect_of_isFile {fs : FileSystem} (hfs : fs.Consistent) {path : Path}
    (h : fs.IsKind .file path) (maxFileBytes : ℕ) :
    ∃ current, inspect fs path maxFileBytes = .ok (some current) ∧ current.stored = current := by
  obtain ⟨m, hm, hkind⟩ := h
  have hsize := hfs.size_lt path m hm
  refine ⟨_, by simp only [inspect, hm, hkind, ne_eq, not_true_eq_false, if_false]; rfl, ?_⟩
  simp only [FileRecord.stored, FileRecord.mk.injEq, true_and, and_true]
  omega

namespace Monitor

def RowsUnderRoots (m : Monitor) : Prop :=
  ∀ key ∈ m.baseline, ∃ path : Path, path.IsUtf8 ∧ m.isWatched path = true ∧ path.key = key

theorem isWatched_iff {m : Monitor} {path : Path} :
    m.isWatched path = true ↔ ∃ root ∈ m.settings.paths, Path.startsWith path root = true := by
  rw [isWatched, List.any_eq_true]

end Monitor

theorem FileSystem.RegularUnder.isFile {fs : FileSystem} {roots : List Path} {path : Path}
    (h : fs.RegularUnder roots path) : fs.IsKind .file path := by
  obtain ⟨root, -, rest, rfl, hleads⟩ := h
  exact hleads.isFile

theorem FileSystem.RegularUnder.isWatched {fs : FileSystem} {m : Monitor} {path : Path}
    (h : fs.RegularUnder m.settings.paths path) : m.isWatched path = true := by
  obtain ⟨root, hroot, rest, rfl, -⟩ := h
  exact Monitor.isWatched_iff.2 ⟨root, hroot, Path.startsWith_iff.2 ⟨rest, rfl⟩⟩

theorem Sweep.foldl_compare_limits (establishing : Bool) (detectedBy : FimDetection)
    (inspected : Path → Inspection) (files : List Path) (s : Sweep)
    (h : ∀ path ∈ files, ∃ current, inspected path = .ok (some current)) :
    (files.foldl (compare establishing detectedBy inspected) s).outcome.limits =
      s.outcome.limits := by
  induction files generalizing s with
  | nil => rfl
  | cons path rest ih =>
    obtain ⟨current, hcurrent⟩ := h path List.mem_cons_self
    rw [List.foldl_cons, ih _ (fun other hother =>
      h other (List.mem_cons_of_mem _ hother)), compare,
      hcurrent]
    simp only
    split_ifs <;> rfl

section Rescan

variable {m : Monitor} {fs : FileSystem} {detectedBy : FimDetection} {order : HashOrder String}

def Monitor.sweptFiles (m : Monitor) (detectedBy : FimDetection) (fs : FileSystem) : Sweep :=
  (walk fs m.settings).files.foldl
    (Sweep.compare false detectedBy (fun path => inspect fs path m.settings.maxFileBytes))
    { baseline := m.baseline, outcome := { limits := (walk fs m.settings).limits } }

theorem rescan_eq (hm : m.establishing = false) (hfs : fs.Consistent)
    (hclear : (walk fs m.settings).limits.truncated = false) :
    m.rescan detectedBy fs order =
      let cleared := m.settings.paths.foldl (Sweep.forgetUnder detectedBy order)
        (m.sweptFiles detectedBy fs)
      ({ m with baseline := cleared.baseline, establishing := false }, cleared.outcome) := by
  have hfiles : ∀ path ∈ (walk fs m.settings).files,
      ∃ current, inspect fs path m.settings.maxFileBytes = .ok (some current) := by
    intro path hpath
    obtain ⟨current, hcurrent, -⟩ := inspect_of_isFile hfs
      ((mem_walk_iff hfs hclear path).1 hpath).isFile m.settings.maxFileBytes
    exact ⟨current, hcurrent⟩
  have hswept : Sweep.files false detectedBy
      (fun path => inspect fs path m.settings.maxFileBytes) (fun _ => true) 0
      { baseline := m.baseline, outcome := { limits := (walk fs m.settings).limits } }
      (walk fs m.settings).files = m.sweptFiles detectedBy fs := by
    rw [Sweep.files_eq, Sweep.reached_all]
    exact if_pos rfl
  have hlimits : (m.sweptFiles detectedBy fs).outcome.limits = (walk fs m.settings).limits :=
    Sweep.foldl_compare_limits false detectedBy _ _ _ hfiles
  have habandoned : (walk fs m.settings).limits.abandoned = false := by
    simp only [WalkLimits.truncated, Bool.or_eq_false_iff] at hclear
    exact hclear.1.1.1
  simp only [Monitor.rescan, Monitor.rescanUntil, Monitor.rescanOver, hm, hswept,
    hlimits, habandoned,
    hclear, Bool.false_eq_true, if_false, Bool.not_false, Bool.and_self, if_true]

variable (hm : m.establishing = false) (hfs : fs.Consistent)
  (hclear : (walk fs m.settings).limits.truncated = false)
  (hutf8 : ∀ path, fs.RegularUnder m.settings.paths path → path.IsUtf8)

include hfs hclear hutf8 in
/-- The row and the events of one path after the loop over the files. -/
theorem sweptFiles_for (detectedBy : FimDetection) {path : Path} (hpath : path.IsUtf8) :
    (path.key ∈ (m.sweptFiles detectedBy fs).seen ↔ fs.RegularUnder m.settings.paths path) ∧
    (m.sweptFiles detectedBy fs).baseline.get path.key =
        (recordOf fs m.settings path).or (m.baseline.get path.key) ∧
      (eventsFor path.key (m.sweptFiles detectedBy fs).outcome.events).map FimEvent.change =
        if (recordOf fs m.settings path).isSome then
          (expectedChange (m.baseline.get path.key) (recordOf fs m.settings path)).toList
        else [] := by
  classical
  have hfiles := mem_walk_iff hfs hclear
  have hsame : ∀ other ∈ (walk fs m.settings).files, other.key = path.key → other = path :=
    fun other hother heq => Path.key_injective (hutf8 other ((hfiles other).1 hother)) hpath heq
  refine ⟨?_, ?_⟩
  · rw [Monitor.sweptFiles, Sweep.foldl_compare_seen, ← hfiles]
    constructor
    · rintro (hempty | ⟨other, hother, heq⟩)
      · exact absurd hempty (Finset.notMem_empty _)
      · exact hsame other hother heq ▸ hother
    · intro hmem
      exact Or.inr ⟨path, hmem, rfl⟩
  · by_cases hregular : fs.RegularUnder m.settings.paths path
    · obtain ⟨current, hcurrent, hstored⟩ :=
        inspect_of_isFile hfs hregular.isFile m.settings.maxFileBytes
      have hrecord : recordOf fs m.settings path = some current := by
        rw [recordOf, if_pos hregular, hcurrent]
      obtain ⟨hrow, hevents⟩ := Sweep.foldl_compare_self false detectedBy
        (fun path => inspect fs path m.settings.maxFileBytes) (walk fs m.settings).nodup
        { baseline := m.baseline, outcome := { limits := (walk fs m.settings).limits } }
        ((hfiles path).2 hregular) hsame
      rw [Monitor.sweptFiles, hrow, hevents, hrecord, hcurrent]
      refine ⟨congrArg some hstored, ?_⟩
      simp only [Sweep.reported, eventsFor_nil, List.nil_append, Bool.false_eq_true, if_false,
        Option.isSome_some, if_true]
      exact difference_change _ _ _ _
    · have hrecord : recordOf fs m.settings path = none := by rw [recordOf, if_neg hregular]
      obtain ⟨hrow, hevents⟩ := Sweep.foldl_compare_ne false detectedBy
        (fun path => inspect fs path m.settings.maxFileBytes) (walk fs m.settings).files
        { baseline := m.baseline, outcome := { limits := (walk fs m.settings).limits } }
        path.key (fun other hother heq =>
          hregular ((hfiles path).1 (hsame other hother heq.symm ▸ hother)))
      rw [Monitor.sweptFiles, hrow, hevents, hrecord]
      exact ⟨rfl, rfl⟩

variable (hrows : m.RowsUnderRoots)

include hm hfs hclear hutf8 hrows in
theorem rescan_for (detectedBy : FimDetection) (order : HashOrder String) {path : Path}
    (hpath : path.IsUtf8) :
    (m.rescan detectedBy fs order).1.baseline.get path.key = recordOf fs m.settings path ∧
      (eventsFor path.key (m.rescan detectedBy fs order).2.events).map FimEvent.change =
        (expectedChange (m.baseline.get path.key) (recordOf fs m.settings path)).toList := by
  classical
  obtain ⟨hseen, hrow, hevents⟩ := sweptFiles_for hfs hclear hutf8 detectedBy hpath
  obtain ⟨hcleared, hdeleted⟩ := Sweep.foldl_forgetUnder detectedBy order m.settings.paths
    (m.sweptFiles detectedBy fs) path.key
  rw [rescan_eq hm hfs hclear]
  simp only
  rw [hcleared, hdeleted, List.map_append, hevents, hrow]
  by_cases hregular : fs.RegularUnder m.settings.paths path
  · -- seen, so the deletion pass leaves it alone
    obtain ⟨current, hcurrent, -⟩ := inspect_of_isFile hfs hregular.isFile m.settings.maxFileBytes
    have hrecord : recordOf fs m.settings path = some current := by
      rw [recordOf, if_pos hregular, hcurrent]
    have hfresh : ¬(m.sweptFiles detectedBy fs).Stale m.settings.paths path.key :=
      fun hstale => hstale.2.1 (hseen.2 hregular)
    simp [if_neg hfresh, hrecord]
  · have hrecord : recordOf fs m.settings path = none := by rw [recordOf, if_neg hregular]
    have hstale : (m.sweptFiles detectedBy fs).Stale m.settings.paths path.key ↔
        (m.baseline.get path.key).isSome = true := by
      rw [Sweep.Stale, Baseline.mem_iff, hrow, hrecord, hseen, Option.none_or]
      constructor
      · exact fun h => h.1
      · intro hsome
        obtain ⟨known, -, hwatched, hkey⟩ := hrows path.key ((Baseline.mem_iff _ _).2 hsome)
        obtain ⟨root, hroot, hstarts⟩ := Monitor.isWatched_iff.1 hwatched
        exact ⟨hsome, hregular, root, hroot, hkey ▸ likeUnder_of_startsWith hstarts⟩
    simp only [hstale, hrecord, Option.none_or, Option.isSome_none, Bool.false_eq_true, if_false,
      List.nil_append]
    cases m.baseline.get path.key with
    | none => exact ⟨rfl, rfl⟩
    | some row => exact ⟨rfl, rfl⟩

include hm hfs hclear hutf8 hrows in
theorem rescan_events {event : FimEvent} (h : event ∈ (m.rescan detectedBy fs order).2.events) :
    ∃ path : Path, path.IsUtf8 ∧ m.isWatched path = true ∧ event.path = path.key := by
  rw [rescan_eq hm hfs hclear] at h
  have hfile {key : String} (hkey : ∃ path ∈ (walk fs m.settings).files, key = path.key) :
      ∃ path : Path, path.IsUtf8 ∧ m.isWatched path = true ∧ key = path.key := by
    obtain ⟨path, hpath, rfl⟩ := hkey
    have hregular := (mem_walk_iff hfs hclear path).1 hpath
    exact ⟨path, hutf8 path hregular, hregular.isWatched, rfl⟩
  rcases Sweep.foldl_forgetUnder_events detectedBy order _ _ h with hswept | hrow
  · rcases Sweep.foldl_compare_events false detectedBy _ _ _ hswept with hnone | hpath
    · exact absurd hnone List.not_mem_nil
    · exact hfile hpath
  · by_cases hpath : ∃ path ∈ (walk fs m.settings).files, event.path = path.key
    · exact hfile hpath
    · have hkept := (Sweep.foldl_compare_ne false detectedBy
        (fun path => inspect fs path m.settings.maxFileBytes) (walk fs m.settings).files
        { baseline := m.baseline, outcome := { limits := (walk fs m.settings).limits } }
        event.path (fun path hmem heq => hpath ⟨path, hmem, heq⟩)).1
      rw [Baseline.mem_iff, Monitor.sweptFiles, hkept, ← Baseline.mem_iff] at hrow
      obtain ⟨path, hutf, hwatched, hkey⟩ := hrows event.path hrow
      exact ⟨path, hutf, hwatched, hkey.symm⟩

include hm hfs hclear hutf8 hrows in
/-- The rows after the rescan are those of the regular files under the roots. -/
theorem rescan_rows {key : String} (h : key ∈ (m.rescan detectedBy fs order).1.baseline) :
    ∃ path, path.IsUtf8 ∧ fs.RegularUnder m.settings.paths path ∧ path.key = key := by
  classical
  have hknown : ∃ path : Path, path.IsUtf8 ∧ path.key = key := by
    rw [rescan_eq hm hfs hclear, Baseline.mem_iff, (Sweep.foldl_forgetUnder detectedBy order
      m.settings.paths (m.sweptFiles detectedBy fs) key).1] at h
    have h : ((m.sweptFiles detectedBy fs).baseline.get key).isSome = true := by
      split_ifs at h
      · exact absurd h (by simp)
      · exact h
    by_cases hpath : ∃ path ∈ (walk fs m.settings).files, key = path.key
    · obtain ⟨path, hmem, rfl⟩ := hpath
      exact ⟨path, hutf8 path ((mem_walk_iff hfs hclear path).1 hmem), rfl⟩
    · have hkept := (Sweep.foldl_compare_ne false detectedBy
        (fun path => inspect fs path m.settings.maxFileBytes) (walk fs m.settings).files
        { baseline := m.baseline, outcome := { limits := (walk fs m.settings).limits } }
        key (fun path hmem heq => hpath ⟨path, hmem, heq⟩)).1
      rw [Monitor.sweptFiles, hkept, ← Baseline.mem_iff] at h
      obtain ⟨path, hutf, -, hkey⟩ := hrows key h
      exact ⟨path, hutf, hkey⟩
  obtain ⟨path, hutf, rfl⟩ := hknown
  refine ⟨path, hutf, ?_, rfl⟩
  rw [Baseline.mem_iff, (rescan_for hm hfs hclear hutf8 hrows detectedBy order hutf).1,
    recordOf] at h
  by_contra hregular
  rw [if_neg hregular] at h
  exact absurd h (by simp)

include hm hfs hclear hutf8 hrows in
theorem rescan_again (again : FimDetection) (reorder : HashOrder String) :
    ((m.rescan detectedBy fs order).1.rescan again fs reorder).2.events = [] := by
  have hsettings : (m.rescan detectedBy fs order).1.settings = m.settings := by
    rw [rescan_eq hm hfs hclear]
  have hmode : (m.rescan detectedBy fs order).1.establishing = false := by
    rw [rescan_eq hm hfs hclear]
  have hrowsAfter : (m.rescan detectedBy fs order).1.RowsUnderRoots := by
    intro key hkey
    obtain ⟨path, hutf, hregular, rfl⟩ := rescan_rows hm hfs hclear hutf8 hrows hkey
    exact ⟨path, hutf, (hsettings ▸ hregular).isWatched, rfl⟩
  have hclearAfter : (walk fs (m.rescan detectedBy fs order).1.settings).limits.truncated =
      false := by
    rw [hsettings]
    exact hclear
  have hutf8After : ∀ path,
      fs.RegularUnder (m.rescan detectedBy fs order).1.settings.paths path → path.IsUtf8 := by
    rw [hsettings]
    exact hutf8
  rw [List.eq_nil_iff_forall_not_mem]
  intro event hevent
  obtain ⟨path, hutf, -, hkey⟩ := rescan_events hmode hfs hclearAfter hutf8After hrowsAfter hevent
  have hfor := (rescan_for hmode hfs hclearAfter hutf8After hrowsAfter again reorder hutf).2
  rw [hsettings, (rescan_for hm hfs hclear hutf8 hrows detectedBy order hutf).1,
    expectedChange_self] at hfor
  have hmem : event.change ∈ (eventsFor path.key
      ((m.rescan detectedBy fs order).1.rescan again fs reorder).2.events).map FimEvent.change :=
    List.mem_map_of_mem (List.mem_filter.2 ⟨hevent, by simp [hkey]⟩)
  rw [hfor] at hmem
  exact absurd hmem List.not_mem_nil

end Rescan

/-! ### Scans that leave something out -/

namespace Sweep

theorem change_ne_deleted {path : String} {previous : Option FileRecord} {current : FileRecord}
    {detectedBy : FimDetection} {event : FimEvent}
    (h : difference path previous current detectedBy = some event) : event.change ≠ .deleted := by
  cases previous with
  | none =>
    cases h
    simp
  | some previous =>
    simp only [difference] at h
    split_ifs at h
    · cases h
      simp
    · cases h
      simp

structure DeletesNothing (s t : Sweep) : Prop where
  rows : ∀ key ∈ s.baseline, key ∈ t.baseline
  events : ∀ event ∈ t.outcome.events, event ∈ s.outcome.events ∨ event.change ≠ .deleted

theorem compare_deletes (establishing : Bool) (detectedBy : FimDetection)
    (inspected : Path → Inspection) (s : Sweep) (path : Path) :
    DeletesNothing s (s.compare establishing detectedBy inspected path) := by
  rw [compare]
  split
  · next current _ =>
    have hrows : ∀ key ∈ s.baseline, key ∈ s.baseline.put path.key current :=
      fun key hkey => (AList.mem_insert _).2 (Or.inr hkey)
    split_ifs
    · exact ⟨hrows, fun event hevent => Or.inl hevent⟩
    · refine ⟨hrows, fun event hevent => ?_⟩
      rcases List.mem_append.1 hevent with hold | hnew
      · exact Or.inl hold
      · exact Or.inr (change_ne_deleted (Option.mem_toList.1 hnew))
  · exact ⟨fun _ hkey => hkey, fun _ hevent => Or.inl hevent⟩
  · exact ⟨fun _ hkey => hkey, fun _ hevent => Or.inl hevent⟩

theorem foldl_compare_deletes (establishing : Bool) (detectedBy : FimDetection)
    (inspected : Path → Inspection) (files : List Path) (s : Sweep) :
    DeletesNothing s (files.foldl (compare establishing detectedBy inspected) s) := by
  induction files generalizing s with
  | nil => exact ⟨fun _ hkey => hkey, fun _ hevent => Or.inl hevent⟩
  | cons path rest ih =>
    have hone := compare_deletes establishing detectedBy inspected s path
    have hrest := ih (s.compare establishing detectedBy inspected path)
    refine ⟨fun key hkey => hrest.rows key (hone.rows key hkey), fun event hevent => ?_⟩
    rcases hrest.events event hevent with hfirst | hother
    · exact hone.events event hfirst
    · exact Or.inr hother

theorem foldl_forget_limits (detectedBy : FimDetection) (keys : List String) (s : Sweep) :
    (keys.foldl (forget detectedBy) s).outcome.limits = s.outcome.limits := by
  induction keys generalizing s with
  | nil => rfl
  | cons known rest ih =>
    rw [List.foldl_cons, ih, forget]
    split_ifs <;> rfl

theorem foldl_forgetUnder_limits (detectedBy : FimDetection) (order : HashOrder String)
    (roots : List Path) (s : Sweep) :
    (roots.foldl (forgetUnder detectedBy order) s).outcome.limits = s.outcome.limits := by
  induction roots generalizing s with
  | nil => rfl
  | cons root rest ih => rw [List.foldl_cons, ih, forgetUnder, foldl_forget_limits]

theorem files_deletes (establishing : Bool) (detectedBy : FimDetection) (c : Monitor.Conditions)
    (looked : ℕ) (s : Sweep)
    (files : List Path) :
    DeletesNothing s (Sweep.files establishing detectedBy c.inspected c.shouldContinue looked s
      files) := by
  have hfold := foldl_compare_deletes establishing detectedBy c.inspected
    (reached c.shouldContinue looked files) s
  rw [files_eq]
  dsimp only
  split_ifs
  · exact hfold
  · exact ⟨hfold.rows, hfold.events⟩

/-- A sweep without events has no deletions behind a step that deletes nothing. -/
theorem DeletesNothing.not_deleted {before after : Sweep} (h : DeletesNothing before after)
    (hnone : before.outcome.events = []) :
    ∀ event ∈ after.outcome.events, event.change ≠ .deleted := by
  intro event hevent
  rcases h.events event hevent with hold | hchange
  · rw [hnone] at hold
    exact absurd hold List.not_mem_nil
  · exact hchange

end Sweep

/-- A scan that left something out reports no deletion and removes no row. -/
theorem rescanOver_truncated (m : Monitor) (detectedBy : FimDetection) (walked : Walked)
    (c : Monitor.Conditions)
    (h : (m.rescanOver detectedBy walked c).2.limits.truncated = true) :
    (∀ event ∈ (m.rescanOver detectedBy walked c).2.events, event.change ≠ .deleted) ∧
      ∀ key ∈ m.baseline, key ∈ (m.rescanOver detectedBy walked c).1.baseline := by
  have hdeletes := Sweep.files_deletes m.establishing detectedBy c 0
    { baseline := m.baseline, outcome := { limits := walked.limits } } walked.files
  rw [Monitor.rescanOver] at h ⊢
  generalize Sweep.files m.establishing detectedBy c.inspected c.shouldContinue 0
    { baseline := m.baseline, outcome := { limits := walked.limits } } walked.files = swept
    at h hdeletes
  have hnone := hdeletes.not_deleted rfl
  simp only at h ⊢
  split_ifs at h ⊢ with habandoned hclear
  · exact ⟨hnone, hdeletes.rows⟩
  · rw [Sweep.foldl_forgetUnder_limits] at h
    simp [h] at hclear
  · exact ⟨hnone, hdeletes.rows⟩

/-- A rescan reports exactly the difference between the baseline and the filesystem, one event for a
path at most; afterwards the baseline holds the records of the files and a second rescan is silent.
A scan that is truncated or abandoned deletes nothing. -/
theorem rescan_reports_difference (m : Monitor) :
    (m.establishing = false → m.RowsUnderRoots → ∀ fs : FileSystem, fs.Consistent →
      (walk fs m.settings).limits.truncated = false →
      (∀ path, fs.RegularUnder m.settings.paths path → path.IsUtf8) →
      ∀ detectedBy order,
      let after := m.rescan detectedBy fs order
      (∀ path : Path, path.IsUtf8 →
        (eventsFor path.key after.2.events).map FimEvent.change =
            (expectedChange (m.baseline.get path.key) (recordOf fs m.settings path)).toList ∧
          after.1.baseline.get path.key = recordOf fs m.settings path) ∧
      (∀ event ∈ after.2.events,
        ∃ path : Path, path.IsUtf8 ∧ m.isWatched path = true ∧ event.path = path.key) ∧
      (∀ key ∈ after.1.baseline,
        ∃ path : Path, path.IsUtf8 ∧ fs.RegularUnder m.settings.paths path ∧ path.key = key) ∧
      ∀ again reorder, (after.1.rescan again fs reorder).2.events = []) ∧
    ∀ detectedBy walked c,
      let after := m.rescanOver detectedBy walked c
      after.2.limits.truncated = true →
        (∀ event ∈ after.2.events, event.change ≠ .deleted) ∧
          ∀ key ∈ m.baseline, key ∈ after.1.baseline := by
  constructor
  · intro hm hrows fs hfs hclear hutf8 detectedBy order after
    refine ⟨?_, ?_, ?_, ?_⟩
    · intro path hpath
      exact (rescan_for hm hfs hclear hutf8 hrows detectedBy order hpath).symm
    · intro event hevent
      exact rescan_events hm hfs hclear hutf8 hrows hevent
    · intro key hkey
      exact rescan_rows hm hfs hclear hutf8 hrows hkey
    · intro again reorder
      exact rescan_again hm hfs hclear hutf8 hrows again reorder
  · intro detectedBy walked c after
    exact rescanOver_truncated m detectedBy walked c

/-! ### A directory with one file -/

def sampleRoot : Path := [⟨"etc", 0, by decide, by decide⟩]

def samplePath : Path := sampleRoot ++ [⟨"passwd", 0, by decide, by decide⟩]

theorem samplePath_utf8 : samplePath.IsUtf8 := by
  intro name hname
  rcases List.mem_append.1 hname with hetc | hpasswd
  · rw [List.mem_singleton.1 hetc]
    rfl
  · rw [List.mem_singleton.1 hpasswd]
    rfl

/-- `/etc` with a file `passwd` in it that has the hash. -/
def sampleFiles (hash : Option String) : FileSystem where
  symlinkMetadata path :=
    if path = sampleRoot then .ok ⟨.dir, 4096, 0o755, 0, 0⟩
    else if path = samplePath then .ok ⟨.file, 10, 0o644, 0, 0⟩
    else .error .notFound
  readDir path := if path = sampleRoot then some [some ⟨"passwd", 0, by decide, by decide⟩]
    else none
  hashFile path := if path = samplePath then hash else none

def sampleSettings : FimSettings := { paths := [sampleRoot] }

theorem sampleFiles_consistent (hash : Option String) : (sampleFiles hash).Consistent where
  lists := by
    rintro path entries name child ⟨m, hm, hkind⟩ hentries hchild
    simp only [sampleFiles] at hm hentries hchild
    split_ifs at hentries with hroot
    cases hentries
    rw [hroot] at hchild
    split_ifs at hchild with hself hpasswd
    · exact absurd hself (by simp)
    · have hname := List.append_cancel_left hpasswd
      rw [(List.cons.inj hname).1]
      exact List.mem_cons_self
  size_lt := by
    intro path m hm
    simp only [sampleFiles] at hm
    split_ifs at hm
    · cases hm
      decide
    · cases hm
      decide

theorem sampleFiles_utf8 (hash : Option String) (path : Path)
    (h : (sampleFiles hash).RegularUnder sampleSettings.paths path) : path.IsUtf8 := by
  obtain ⟨m, hm, hkind⟩ := h.isFile
  simp only [sampleFiles] at hm
  split_ifs at hm with hroot hpasswd
  · cases hm
    exact absurd hkind (by decide)
  · rw [hpasswd]
    exact samplePath_utf8

/-- A monitor of `/etc` that knows one row. -/
def sampleMonitor (row : FileRecord) : Monitor where
  settings := sampleSettings
  baseline := AList.insert (samplePath.key) row ∅
  establishing := false

theorem sampleMonitor_rows (row : FileRecord) : (sampleMonitor row).RowsUnderRoots := by
  intro key hkey
  rcases (AList.mem_insert _).1 hkey with rfl | hempty
  · exact ⟨samplePath, samplePath_utf8, Monitor.isWatched_iff.2
      ⟨sampleRoot, List.mem_cons_self, Path.startsWith_iff.2 ⟨_, rfl⟩⟩, rfl⟩
  · exact absurd hempty (AList.notMem_empty _)

theorem sampleFiles_clear (hash : Option String) :
    (walk (sampleFiles hash) sampleSettings).limits.truncated = false := rfl

/-- The file has another hash than its row: that is reported, and a second rescan is silent. -/
theorem rescan_reports_modified :
    let m := sampleMonitor ⟨some "a", 10, 0o644, 0, 0⟩
    let after := m.rescan .baselineRescan (sampleFiles (some "b")) (HashOrder.asStored _)
    (eventsFor (samplePath.key) after.2.events).map FimEvent.change =
        [.modified] ∧
      ∀ again reorder,
        (after.1.rescan again (sampleFiles (some "b")) reorder).2.events = [] := by
  classical
  intro m after
  obtain ⟨hfor, -, -, hagain⟩ := (rescan_reports_difference m).1 rfl (sampleMonitor_rows _)
    (sampleFiles (some "b")) (sampleFiles_consistent _) (sampleFiles_clear _) (sampleFiles_utf8 _)
    .baselineRescan (HashOrder.asStored _)
  refine ⟨?_, hagain⟩
  have hregular : (sampleFiles (some "b")).RegularUnder sampleSettings.paths samplePath :=
    ⟨sampleRoot, List.mem_cons_self, _, rfl, ⟨_, rfl, rfl⟩, ⟨_, rfl, rfl⟩⟩
  have hrecord : recordOf (sampleFiles (some "b")) sampleSettings samplePath =
      some ⟨some "b", 10, 0o644, 0, 0⟩ := by
    rw [recordOf, if_pos hregular]
    rfl
  have hrow : m.baseline.get samplePath.key = some ⟨some "a", 10, 0o644, 0, 0⟩ :=
    AList.lookup_insert _
  have hchanged : ContentChanged ⟨some "a", 10, 0o644, 0, 0⟩ ⟨some "b", 10, 0o644, 0, 0⟩ :=
    Or.inl ⟨"a", "b", rfl, rfl, by decide⟩
  have hevents := (hfor samplePath samplePath_utf8).1
  rw [hrow] at hevents
  rw [show recordOf (sampleFiles (some "b")) m.settings samplePath = _ from hrecord, expectedChange,
    if_pos hchanged] at hevents
  exact hevents

end CyberSentinel.Fim
