import CyberSentinel.FimRescan

/-!
# Rescans and rechecks that fail

Every operation of the baseline can fail, and a rescan or a recheck ends with the first one that
does: its events are dropped, and the rows it has written stay as they are. A failed operation
writes nothing. `left` counts the operations that still succeed.
-/

namespace CyberSentinel.Fim

open Tables

/-! ### A scan whose baseline fails -/

namespace Sweep

section

variable (establishing : Bool) (detectedBy : FimDetection) (inspected : Path → Inspection)

/-- Compare a file: its row is read, then written. -/
def compareFallible (left : ℕ) (s : Sweep) (path : Path) : Except Baseline (ℕ × Sweep) :=
  match inspected path with
  | .ok (some _) =>
    if left < 2 then .error s.baseline
    else .ok (left - 2, s.compare establishing detectedBy inspected path)
  | _ => .ok (left, s.compare establishing detectedBy inspected path)

def filesFallible (shouldContinue : ℕ → Bool) :
    ℕ → ℕ → Sweep → List Path → Except Baseline (ℕ × Sweep)
  | _, left, s, [] => .ok (left, s)
  | i, left, s, path :: rest =>
    if shouldContinue i then
      match s.compareFallible establishing detectedBy inspected left path with
      | .error b => .error b
      | .ok (left, s) => filesFallible shouldContinue (i + 1) left s rest
    else .ok (left, s.abandon)

end

section

variable (detectedBy : FimDetection) (order : HashOrder String)

/-- The rows under one root, as they were listed: a row that was not seen is read, then removed. -/
def forgetFallible : ℕ → Sweep → List String → Except Baseline (ℕ × Sweep)
  | left, s, [] => .ok (left, s)
  | left, s, known :: rest =>
    if known ∈ s.seen then forgetFallible left s rest
    else if left < 2 then .error s.baseline
    else forgetFallible (left - 2) (s.forget detectedBy known) rest

/-- The deletion pass: the rows under each root are listed first. -/
def forgetUnderFallible : ℕ → Sweep → List Path → Except Baseline (ℕ × Sweep)
  | left, s, [] => .ok (left, s)
  | left, s, root :: rest =>
    if left = 0 then .error s.baseline
    else
      match forgetFallible detectedBy (left - 1) s (s.baseline.pathsUnder order root.key) with
      | .error b => .error b
      | .ok (left, s) => forgetUnderFallible left s rest

end

end Sweep

namespace Monitor

/-- A scan in which only so many operations of the baseline succeed; no outcome when one fails. -/
def rescanFallible (m : Monitor) (detectedBy : FimDetection) (walked : Walked) (c : Conditions)
    (left : ℕ) : Monitor × Option RescanOutcome :=
  match Sweep.filesFallible m.establishing detectedBy c.inspected c.shouldContinue 0 left
    { baseline := m.baseline, outcome := { limits := walked.limits } } walked.files with
  | .error b => ({ m with baseline := b }, none)
  | .ok (left, swept) =>
    if swept.outcome.limits.abandoned then
      ({ m with baseline := swept.baseline }, some swept.outcome)
    else if !m.establishing && !swept.outcome.limits.truncated then
      match Sweep.forgetUnderFallible detectedBy c.order left swept m.settings.paths with
      | .error b => ({ m with baseline := b }, none)
      | .ok (_, cleared) =>
        ({ m with baseline := cleared.baseline, establishing := false }, some cleared.outcome)
    else ({ m with baseline := swept.baseline, establishing := false }, some swept.outcome)

/-- How many operations of the baseline a recheck makes: it reads the row, unless the baseline is
being established, and then writes it or takes it out. -/
def recheckOperations (m : Monitor) (path : Path) (inspected : Inspection) : ℕ :=
  if !m.isWatched path then 0
  else if m.establishing then
    match inspected with
    | .ok (some _) => 1
    | _ => 0
  else
    match inspected with
    | .ok (some _) => 2
    | .ok none => if (m.baseline.get path.key).isSome then 2 else 1
    | .error _ => 1

/-- A recheck in which only so many operations of the baseline succeed; no outcome when one fails.
The last operation is the only one that writes. -/
def recheckFallible (m : Monitor) (path : Path) (inspected : Inspection) (left : ℕ) :
    Monitor × Option (Option FimEvent) :=
  if left < m.recheckOperations path inspected then (m, none)
  else ((m.recheck path inspected).1, some (m.recheck path inspected).2)

end Monitor

/-! ### What a scan has written when it fails -/

namespace Sweep

def hasRecord (inspected : Path → Inspection) (path : Path) : Bool :=
  match inspected path with
  | .ok (some _) => true
  | _ => false

/-- The files that a scan is through with when the operations run out. -/
def completed (inspected : Path → Inspection) : ℕ → List Path → List Path
  | _, [] => []
  | left, path :: rest =>
    if hasRecord inspected path then
      if left < 2 then [] else path :: completed inspected (left - 2) rest
    else path :: completed inspected left rest

def stale (seen : Finset String) (keys : List String) : List String :=
  keys.filter (fun key => key ∉ seen)

/-- The rows that the deletion pass has removed when the operations run out. -/
def removed (detectedBy : FimDetection) (order : HashOrder String) :
    ℕ → Sweep → List Path → List String
  | _, _, [] => []
  | left, s, root :: rest =>
    let gone := stale s.seen (s.baseline.pathsUnder order root.key)
    if left - 1 < 2 * gone.length then gone.take ((left - 1) / 2)
    else
      gone ++ removed detectedBy order (left - 1 - 2 * gone.length)
        (s.forgetUnder detectedBy order root) rest

variable (establishing : Bool) (detectedBy : FimDetection) (inspected : Path → Inspection)

theorem compareFallible_eq (left : ℕ) (s : Sweep) (path : Path) :
    s.compareFallible establishing detectedBy inspected left path =
      if hasRecord inspected path then
        if left < 2 then .error s.baseline
        else .ok (left - 2, s.compare establishing detectedBy inspected path)
      else .ok (left, s.compare establishing detectedBy inspected path) := by
  rw [compareFallible, hasRecord]
  cases inspected path with
  | error e => rfl
  | ok record =>
    cases record with
    | none => rfl
    | some current => rfl

/-- A loop that fails leaves the rows of the files it was through with. -/
theorem filesFallible_error {shouldContinue : ℕ → Bool} {i left : ℕ} {s : Sweep} {files : List Path}
    {b : Baseline} (h : filesFallible establishing detectedBy inspected shouldContinue i
    left s files =
      .error b) :
    b = ((completed inspected left files).foldl
      (compare establishing detectedBy inspected) s).baseline ∧
      completed inspected left files ≠ files := by
  induction files generalizing i left s with
  | nil => cases h
  | cons path rest ih =>
    rw [filesFallible, compareFallible_eq] at h
    rw [completed]
    split_ifs at h ⊢ with hgo hrecord hleft
    · cases h
      exact ⟨rfl, (List.cons_ne_nil _ _).symm⟩
    · obtain ⟨hrest, hne⟩ := ih h
      exact ⟨hrest, fun heq => hne (List.cons.inj heq).2⟩
    · obtain ⟨hrest, hne⟩ := ih h
      exact ⟨hrest, fun heq => hne (List.cons.inj heq).2⟩

theorem filesFallible_eq {shouldContinue : ℕ → Bool} {i left left' : ℕ} {s swept : Sweep}
    {files : List Path}
    (h : filesFallible establishing detectedBy inspected shouldContinue i left s files =
      .ok (left', swept)) :
    swept = Sweep.files establishing detectedBy inspected shouldContinue i s files := by
  induction files generalizing i left s with
  | nil =>
    cases h
    rfl
  | cons path rest ih =>
    rw [filesFallible, compareFallible_eq] at h
    rw [Sweep.files]
    by_cases hgo : shouldContinue i = true
    · rw [if_pos hgo] at h ⊢
      split_ifs at h with hrecord hfew
      · exact ih h
      · exact ih h
    · rw [if_neg hgo] at h ⊢
      cases h
      rfl

/-- A loop that ends without being stopped is through with every file. -/
theorem filesFallible_ok {shouldContinue : ℕ → Bool} {i left left' : ℕ} {s swept : Sweep}
    {files : List Path}
    (h : filesFallible establishing detectedBy inspected shouldContinue i left s files =
      .ok (left', swept)) (habandoned : swept.outcome.limits.abandoned = false) :
    swept = files.foldl (compare establishing detectedBy inspected) s ∧
      completed inspected left files = files ∧
      left' = left - 2 * files.countP (hasRecord inspected) := by
  induction files generalizing i left s with
  | nil =>
    cases h
    exact ⟨rfl, rfl, rfl⟩
  | cons path rest ih =>
    rw [filesFallible, compareFallible_eq] at h
    rw [completed, List.foldl_cons, List.countP_cons]
    by_cases hgo : shouldContinue i = true
    · rw [if_pos hgo] at h
      by_cases hrecord : hasRecord inspected path = true
      · by_cases hfew : left < 2
        · rw [if_pos hrecord, if_pos hfew] at h
          cases h
        · rw [if_pos hrecord, if_neg hfew] at h ⊢
          obtain ⟨hswept, hcompleted, hleft⟩ := ih h
          exact ⟨hswept, by rw [hcompleted], by rw [if_pos hrecord]; omega⟩
      · rw [if_neg hrecord] at h ⊢
        obtain ⟨hswept, hcompleted, hleft⟩ := ih h
        exact ⟨hswept, by rw [hcompleted], by rw [if_neg hrecord]; omega⟩
    · rw [if_neg hgo] at h
      cases h
      exact absurd habandoned (by simp [abandon])

/-! ### The deletion pass -/

theorem forget_of_seen {s : Sweep} {known : String} (h : known ∈ s.seen) :
    s.forget detectedBy known = s := by
  rw [forget, if_pos h]

theorem seen_forget (s : Sweep) (known : String) : (s.forget detectedBy known).seen = s.seen := by
  rw [forget]
  split_ifs <;> rfl

/-- The rows under one root: those that were not seen are removed one by one, as far as the
operations reach. -/
theorem forgetFallible_cases (keys : List String) (left : ℕ) (s : Sweep) :
    (2 * (stale s.seen keys).length ≤ left ∧ forgetFallible detectedBy left s keys =
        .ok (left - 2 * (stale s.seen keys).length, keys.foldl (forget detectedBy) s)) ∨
      (left < 2 * (stale s.seen keys).length ∧ forgetFallible detectedBy left s keys =
        .error (((stale s.seen keys).take (left / 2)).foldl (forget detectedBy) s).baseline) := by
  induction keys generalizing left s with
  | nil => exact Or.inl ⟨Nat.zero_le _, rfl⟩
  | cons known rest ih =>
    rw [forgetFallible, List.foldl_cons]
    by_cases hseen : known ∈ s.seen
    · have hstale : stale s.seen (known :: rest) = stale s.seen rest :=
        List.filter_cons_of_neg (by simpa using hseen)
      rw [if_pos hseen, forget_of_seen detectedBy hseen, hstale]
      exact ih left s
    · have hstale : stale s.seen (known :: rest) = known :: stale s.seen rest :=
        List.filter_cons_of_pos (by simpa using hseen)
      rw [if_neg hseen, hstale, List.length_cons]
      by_cases hfew : left < 2
      · rw [if_pos hfew, Nat.div_eq_of_lt hfew]
        exact Or.inr ⟨by omega, rfl⟩
      · have hrest := ih (left - 2) (s.forget detectedBy known)
        rw [seen_forget] at hrest
        rw [if_neg hfew]
        rcases hrest with ⟨hle, heq⟩ | ⟨hlt, heq⟩
        · refine Or.inl ⟨by omega, heq.trans ?_⟩
          rw [show left - 2 - 2 * (stale s.seen rest).length =
            left - 2 * ((stale s.seen rest).length + 1) by omega]
        · refine Or.inr ⟨by omega, heq.trans ?_⟩
          rw [show left / 2 = (left - 2) / 2 + 1 by omega, List.take_succ_cons, List.foldl_cons]

theorem mem_stale {seen : Finset String} {keys : List String} {key : String} :
    key ∈ stale seen keys ↔ key ∈ keys ∧ key ∉ seen := by
  rw [stale, List.mem_filter, decide_eq_true_eq]

variable (order : HashOrder String)

theorem removed_zero (s : Sweep) (roots : List Path) : removed detectedBy order 0 s roots = [] := by
  induction roots generalizing s with
  | nil => rfl
  | cons root rest ih =>
    simp only [removed]
    split_ifs with hfew
    · rfl
    · have hnil : stale s.seen (s.baseline.pathsUnder order root.key) = [] :=
        List.eq_nil_of_length_eq_zero (by omega)
      rw [hnil, List.nil_append]
      exact ih _

/-- A deletion pass that fails has removed some of the rows that were not seen, and no other. -/
theorem forgetUnderFallible_error {roots : List Path} {left : ℕ} {s : Sweep} {b : Baseline}
    (h : forgetUnderFallible detectedBy order left s roots = .error b) (key : String) :
    (key ∈ removed detectedBy order left s roots → b.get key = none ∧ key ∉ s.seen) ∧
      (key ∉ removed detectedBy order left s roots → b.get key = s.baseline.get key) := by
  induction roots generalizing left s with
  | nil => cases h
  | cons root rest ih =>
    rw [forgetUnderFallible] at h
    by_cases hzero : left = 0
    · rw [if_pos hzero] at h
      cases h
      rw [hzero, removed_zero]
      exact ⟨fun hmem => absurd hmem List.not_mem_nil, fun _ => rfl⟩
    · rw [if_neg hzero] at h
      have hnodup := s.baseline.nodup_pathsUnder order root.key
      simp only [removed]
      rcases forgetFallible_cases detectedBy (s.baseline.pathsUnder order root.key)
        (left - 1) s with
        ⟨hle, heq⟩ | ⟨hlt, heq⟩
      · rw [heq] at h
        obtain ⟨hseen, hrow, -⟩ := foldl_forget detectedBy hnodup s key
        obtain ⟨hgone, hkept⟩ := ih h
        have hunder : (s.baseline.pathsUnder order root.key).foldl (forget detectedBy) s =
            s.forgetUnder detectedBy order root := rfl
        rw [hunder] at hgone hkept hseen hrow
        rw [if_neg (Nat.not_lt.2 hle), List.mem_append, mem_stale]
        rw [hseen] at hgone
        rw [hrow] at hkept
        by_cases hlater : key ∈ removed detectedBy order (left - 1 -
            2 * (stale s.seen (s.baseline.pathsUnder order root.key)).length)
            (s.forgetUnder detectedBy order root) rest
        · exact ⟨fun _ => hgone hlater, fun hnot => absurd (Or.inr hlater) hnot⟩
        · have hb := hkept hlater
          constructor
          · intro hmem
            have hstale := hmem.resolve_right hlater
            exact ⟨hb.trans (if_pos hstale), hstale.2⟩
          · intro hnot
            exact hb.trans (if_neg (fun hstale => hnot (Or.inl hstale)))
      · rw [heq] at h
        cases h
        rw [if_pos hlt]
        have hsub : ((stale s.seen (s.baseline.pathsUnder order root.key)).take
            ((left - 1) / 2)).Nodup :=
          (hnodup.filter _).sublist (List.take_sublist _ _)
        obtain ⟨-, hrow, -⟩ := foldl_forget detectedBy hsub s key
        constructor
        · intro hmem
          have hunseen : key ∉ s.seen := (mem_stale.1 (List.mem_of_mem_take hmem)).2
          exact ⟨hrow.trans (if_pos ⟨hmem, hunseen⟩), hunseen⟩
        · intro hnot
          exact hrow.trans (if_neg (fun hmem => hnot hmem.1))

/-- A deletion pass in which no operation fails is the deletion pass. -/
theorem forgetUnderFallible_ok {roots : List Path} {left : ℕ} {s : Sweep} {cleared : ℕ × Sweep}
    (h : forgetUnderFallible detectedBy order left s roots = .ok cleared) :
    cleared.2 = roots.foldl (forgetUnder detectedBy order) s := by
  induction roots generalizing left s with
  | nil =>
    cases h
    rfl
  | cons root rest ih =>
    rw [forgetUnderFallible] at h
    by_cases hzero : left = 0
    · rw [if_pos hzero] at h
      cases h
    · rw [if_neg hzero] at h
      rcases forgetFallible_cases detectedBy (s.baseline.pathsUnder order root.key)
        (left - 1) s with
        ⟨-, heq⟩ | ⟨-, heq⟩
      · rw [heq] at h
        exact ih h
      · rw [heq] at h
        cases h

/-! ### Rows of one path -/

/-- Two sweeps that have the same row and the same events of a path, and agree on what was seen and
left out. -/
structure AgreeAt (key : String) (s t : Sweep) : Prop where
  row : s.baseline.get key = t.baseline.get key
  events : eventsFor key s.outcome.events = eventsFor key t.outcome.events
  seen : s.seen = t.seen
  limits : s.outcome.limits = t.outcome.limits

theorem compare_seen_limits (s : Sweep) (path : Path) :
    (s.compare establishing detectedBy inspected path).seen = insert path.key s.seen ∧
      (s.compare establishing detectedBy inspected path).outcome.limits =
        match inspected path with
        | .error _ => { s.outcome.limits with unreadable := s.outcome.limits.unreadable + 1 }
        | .ok _ => s.outcome.limits := by
  rw [compare]
  cases inspected path with
  | error e => exact ⟨rfl, rfl⟩
  | ok record =>
    cases record with
    | none => exact ⟨rfl, rfl⟩
    | some current =>
      dsimp only
      split_ifs <;> exact ⟨rfl, rfl⟩

theorem AgreeAt.compare {key : String} {s t : Sweep} (h : AgreeAt key s t) (path : Path) :
    AgreeAt key (s.compare establishing detectedBy inspected path)
      (t.compare establishing detectedBy inspected path) := by
  obtain ⟨hseen, hlimits⟩ := compare_seen_limits establishing detectedBy inspected s path
  obtain ⟨hseen', hlimits'⟩ := compare_seen_limits establishing detectedBy inspected t path
  have hsame : (s.compare establishing detectedBy inspected path).baseline.get key =
        (t.compare establishing detectedBy inspected path).baseline.get key ∧
      eventsFor key (s.compare establishing detectedBy inspected path).outcome.events =
        eventsFor key (t.compare establishing detectedBy inspected path).outcome.events := by
    by_cases hkey : key = path.key
    · subst hkey
      obtain ⟨hrow, hevents⟩ := compare_self establishing detectedBy inspected s path
      obtain ⟨hrow', hevents'⟩ := compare_self establishing detectedBy inspected t path
      rw [hrow, hrow', hevents, hevents', h.row, h.events]
      exact ⟨rfl, rfl⟩
    · obtain ⟨hrow, hevents⟩ := compare_ne establishing detectedBy inspected s hkey
      obtain ⟨hrow', hevents'⟩ := compare_ne establishing detectedBy inspected t hkey
      rw [hrow, hrow', hevents, hevents', h.row, h.events]
      exact ⟨rfl, rfl⟩
  exact ⟨hsame.1, hsame.2, by rw [hseen, hseen', h.seen], by rw [hlimits, hlimits', h.limits]⟩

theorem AgreeAt.foldl_compare {key : String} {s t : Sweep} (h : AgreeAt key s t)
    (files : List Path) :
    AgreeAt key (files.foldl (Sweep.compare establishing detectedBy inspected) s)
      (files.foldl (Sweep.compare establishing detectedBy inspected) t) := by
  induction files generalizing s t with
  | nil => exact h
  | cons path rest ih => exact ih (h.compare establishing detectedBy inspected path)

theorem AgreeAt.files {key : String} {s t : Sweep} (h : AgreeAt key s t) (shouldContinue : ℕ → Bool)
    (i : ℕ) (files : List Path) :
    AgreeAt key (Sweep.files establishing detectedBy inspected shouldContinue i s files)
      (Sweep.files establishing detectedBy inspected shouldContinue i t files) := by
  have hfold := h.foldl_compare establishing detectedBy inspected (reached shouldContinue i files)
  rw [files_eq, files_eq]
  dsimp only
  split_ifs
  · exact hfold
  · refine ⟨hfold.row, hfold.events, hfold.seen, ?_⟩
    rw [abandon, abandon, hfold.limits]

/-- The events of a path in the deletion pass depend on its row alone. -/
theorem AgreeAt.forgetUnder_events {key : String} {s t : Sweep} (h : AgreeAt key s t)
    (roots : List Path) :
    eventsFor key (roots.foldl (forgetUnder detectedBy order) s).outcome.events =
      eventsFor key (roots.foldl (forgetUnder detectedBy order) t).outcome.events := by
  classical
  have hstale : s.Stale roots key ↔ t.Stale roots key := by
    rw [Stale, Stale, Baseline.mem_iff, Baseline.mem_iff, h.row, h.seen]
  rw [(foldl_forgetUnder detectedBy order roots s key).2,
    (foldl_forgetUnder detectedBy order roots t key).2, h.events, h.row]
  simp only [hstale]

end Sweep

/-- What a scan reports of a path depends on the row of that path alone. -/
theorem eventsFor_rescanOver {m n : Monitor} (hsettings : n.settings = m.settings)
    (hestablishing : n.establishing = m.establishing) {key : String}
    (hrow : n.baseline.get key = m.baseline.get key) (detectedBy : FimDetection) (walked : Walked)
    (c : Monitor.Conditions) :
    eventsFor key (n.rescanOver detectedBy walked c).2.events =
      eventsFor key (m.rescanOver detectedBy walked c).2.events := by
  have hstart : Sweep.AgreeAt key { baseline := n.baseline, outcome := { limits := walked.limits } }
      { baseline := m.baseline, outcome := { limits := walked.limits } } := ⟨hrow, rfl, rfl, rfl⟩
  have hswept := hstart.files m.establishing detectedBy c.inspected c.shouldContinue 0 walked.files
  rw [Monitor.rescanOver, Monitor.rescanOver, hestablishing, hsettings]
  dsimp only
  rw [hswept.limits]
  split_ifs
  · exact hswept.events
  · exact hswept.forgetUnder_events detectedBy c.order m.settings.paths
  · exact hswept.events

/-! ### What a failed scan leaves -/

namespace Sweep

variable (establishing : Bool) (detectedBy : FimDetection) (inspected : Path → Inspection)

theorem foldl_compare_unwritten (files : List Path) (s : Sweep) {key : String}
    (h : ∀ path ∈ files, hasRecord inspected path = true → path.key ≠ key) :
    (files.foldl (compare establishing detectedBy inspected) s).baseline.get key =
      s.baseline.get key := by
  induction files generalizing s with
  | nil => rfl
  | cons path rest ih =>
    rw [List.foldl_cons, ih _ (fun other hother => h other (List.mem_cons_of_mem _ hother))]
    by_cases hkey : key = path.key
    · have hnone : hasRecord inspected path ≠ true := fun hrecord =>
        h path List.mem_cons_self hrecord hkey.symm
      subst hkey
      rw [(compare_self establishing detectedBy inspected s path).1]
      rw [hasRecord] at hnone
      cases hinspected : inspected path with
      | error e => rfl
      | ok record =>
        cases record with
        | none => rfl
        | some current => simp [hinspected] at hnone
    · exact (compare_ne establishing detectedBy inspected s hkey).1

theorem completed_prefix (left : ℕ) (files : List Path) :
    completed inspected left files <+: files := by
  induction files generalizing left with
  | nil => exact List.prefix_rfl
  | cons path rest ih =>
    rw [completed]
    split_ifs
    · exact List.nil_prefix
    · exact (List.prefix_cons_inj path).2 (ih _)
    · exact (List.prefix_cons_inj path).2 (ih _)

theorem hasRecord_iff {path : Path} :
    hasRecord inspected path = true ↔ ∃ current, inspected path = .ok (some current) := by
  rw [hasRecord]
  cases inspected path with
  | error e => simp
  | ok record => cases record <;> simp

end Sweep

namespace Monitor

def sweepFrom (m : Monitor) (walked : Walked) : Sweep :=
  { baseline := m.baseline, outcome := { limits := walked.limits } }

def writtenBefore (m : Monitor) (detectedBy : FimDetection) (walked : Walked) (c : Conditions)
    (left : ℕ) : List String :=
  let done := Sweep.completed c.inspected left walked.files
  let written := (done.filter (Sweep.hasRecord c.inspected)).map Path.key
  if done = walked.files then
    written ++ Sweep.removed detectedBy c.order
      (left - 2 * done.countP (Sweep.hasRecord c.inspected))
      (done.foldl (Sweep.compare m.establishing detectedBy c.inspected) (m.sweepFrom walked))
      m.settings.paths
  else written

variable {m : Monitor} {detectedBy : FimDetection} {walked : Walked} {c : Conditions} {left : ℕ}

theorem rescanFallible_some {outcome : RescanOutcome}
    (h : (m.rescanFallible detectedBy walked c left).2 = some outcome) :
    m.rescanFallible detectedBy walked c left =
      ((m.rescanOver detectedBy walked c).1, some (m.rescanOver detectedBy walked c).2) := by
  rw [rescanFallible] at h ⊢
  rw [rescanOver]
  cases hfiles : Sweep.filesFallible m.establishing detectedBy c.inspected c.shouldContinue 0 left
    { baseline := m.baseline, outcome := { limits := walked.limits } } walked.files with
  | error b =>
    rw [hfiles] at h
    cases h
  | ok result =>
    obtain ⟨left', swept⟩ := result
    rw [← Sweep.filesFallible_eq _ _ _ hfiles]
    simp only [hfiles] at h ⊢
    by_cases habandoned : swept.outcome.limits.abandoned = true
    · rw [if_pos habandoned, if_pos habandoned]
    · rw [if_neg habandoned] at h ⊢
      rw [if_neg habandoned]
      by_cases hclear : (!m.establishing && !swept.outcome.limits.truncated) = true
      · rw [if_pos hclear] at h ⊢
        rw [if_pos hclear]
        cases hunder : Sweep.forgetUnderFallible detectedBy c.order left' swept
          m.settings.paths with
        | error b =>
          simp only [hunder] at h
          cases h
        | ok cleared => rw [← Sweep.forgetUnderFallible_ok detectedBy c.order hunder]
      · rw [if_neg hclear, if_neg hclear]

/-- Where a scan fails: in the loop over the files, or in the deletion pass. -/
theorem rescanFallible_none (h : (m.rescanFallible detectedBy walked c left).2 = none) :
    ∃ b, (m.rescanFallible detectedBy walked c left).1 = { m with baseline := b } ∧
      let done := Sweep.completed c.inspected left walked.files
      let swept := done.foldl (Sweep.compare m.establishing detectedBy c.inspected)
        (m.sweepFrom walked)
      (done ≠ walked.files ∧ b = swept.baseline ∨
        done = walked.files ∧ Sweep.forgetUnderFallible detectedBy c.order
          (left - 2 * done.countP (Sweep.hasRecord c.inspected)) swept m.settings.paths =
          .error b) := by
  rw [rescanFallible] at h ⊢
  cases hfiles : Sweep.filesFallible m.establishing detectedBy c.inspected c.shouldContinue 0 left
    { baseline := m.baseline, outcome := { limits := walked.limits } } walked.files with
  | error b =>
    obtain ⟨hb, hne⟩ := Sweep.filesFallible_error _ _ _ hfiles
    exact ⟨b, rfl, Or.inl ⟨hne, hb⟩⟩
  | ok result =>
    obtain ⟨left', swept⟩ := result
    simp only [hfiles] at h ⊢
    by_cases habandoned : swept.outcome.limits.abandoned = true
    · rw [if_pos habandoned] at h
      cases h
    · rw [if_neg habandoned] at h ⊢
      obtain ⟨hswept, hdone, hleft⟩ := Sweep.filesFallible_ok _ _ _ hfiles
        (Bool.eq_false_iff.2 habandoned)
      by_cases hclear : (!m.establishing && !swept.outcome.limits.truncated) = true
      · rw [if_pos hclear] at h ⊢
        cases hunder : Sweep.forgetUnderFallible detectedBy c.order left' swept
          m.settings.paths with
        | error b =>
          refine ⟨b, by simp only, Or.inr ⟨hdone, ?_⟩⟩
          rw [hdone, ← hleft, ← hunder, hswept]
          rfl
        | ok cleared =>
          simp only [hunder] at h
          cases h
      · rw [if_neg hclear] at h
        cases h

theorem get_of_not_written (h : (m.rescanFallible detectedBy walked c left).2 = none) {key : String}
    (hkey : key ∉ m.writtenBefore detectedBy walked c left) :
    (m.rescanFallible detectedBy walked c left).1.baseline.get key = m.baseline.get key := by
  obtain ⟨b, hafter, hcases⟩ := rescanFallible_none h
  rw [hafter]
  simp only [writtenBefore] at hkey
  have hunwritten : key ∉ ((Sweep.completed c.inspected left walked.files).filter
      (Sweep.hasRecord c.inspected)).map Path.key →
      ((Sweep.completed c.inspected left walked.files).foldl
        (Sweep.compare m.establishing detectedBy c.inspected)
        (m.sweepFrom walked)).baseline.get key =
      m.baseline.get key := by
    intro hnot
    apply Sweep.foldl_compare_unwritten
    intro path hpath hrecord heq
    exact hnot (List.mem_map.2 ⟨path, List.mem_filter.2 ⟨hpath, hrecord⟩, heq⟩)
  rcases hcases with ⟨hne, hb⟩ | ⟨hdone, herror⟩
  · rw [if_neg hne] at hkey
    rw [hb]
    exact hunwritten hkey
  · rw [if_pos hdone, List.mem_append, not_or] at hkey
    exact ((Sweep.forgetUnderFallible_error detectedBy c.order herror key).2 hkey.2).trans
      (hunwritten hkey.1)

/-- The row of a path that a failed scan was alone to look at: taken out, as it was, or written. -/
theorem row_of_failure (h : (m.rescanFallible detectedBy walked c left).2 = none) {path : Path}
    (halone : ∀ other ∈ Sweep.completed c.inspected left walked.files, other.key = path.key →
      other = path) :
    let row := (m.rescanFallible detectedBy walked c left).1.baseline.get path.key
    row = none ∨ row = m.baseline.get path.key ∨
      path ∈ Sweep.completed c.inspected left walked.files ∧
        ∃ record, c.inspected path = .ok (some record) ∧ row = some record.stored := by
  intro row
  obtain ⟨b, hafter, hcases⟩ := rescanFallible_none h
  have hrow : row = b.get path.key :=
    congrArg (fun n : Monitor => n.baseline.get path.key) hafter
  have hbegins := Sweep.completed_prefix c.inspected left walked.files
  -- what the loop over the files has left of the row
  have hswept : let swept := ((Sweep.completed c.inspected left walked.files).foldl
        (Sweep.compare m.establishing detectedBy c.inspected) (m.sweepFrom walked)).baseline
      swept.get path.key = m.baseline.get path.key ∨
        path ∈ Sweep.completed c.inspected left walked.files ∧
          ∃ record, c.inspected path = .ok (some record) ∧
            swept.get path.key = some record.stored := by
    intro swept
    by_cases hdone : path ∈ Sweep.completed c.inspected left walked.files
    · have hself := (Sweep.foldl_compare_self m.establishing detectedBy c.inspected
        (walked.nodup.sublist hbegins.sublist) (m.sweepFrom walked) hdone halone).1
      by_cases hrecord : Sweep.hasRecord c.inspected path = true
      · obtain ⟨record, hfound⟩ := (Sweep.hasRecord_iff _).1 hrecord
        exact Or.inr ⟨hdone, record, hfound, by rw [hself, hfound]; rfl⟩
      · refine Or.inl (Sweep.foldl_compare_unwritten _ _ _ _ _ ?_)
        intro other hother hfound heq
        exact hrecord (halone other hother heq ▸ hfound)
    · refine Or.inl (Sweep.foldl_compare_unwritten _ _ _ _ _ ?_)
      intro other hother _ heq
      exact hdone (halone other hother heq ▸ hother)
  rw [hrow]
  rcases hcases with ⟨_, hb⟩ | ⟨_, herror⟩
  · rw [hb]
    exact Or.inr hswept
  · obtain ⟨hgone, hkept⟩ := Sweep.forgetUnderFallible_error detectedBy c.order herror path.key
    by_cases hremoved : path.key ∈ Sweep.removed detectedBy c.order
        (left - 2 * (Sweep.completed c.inspected left walked.files).countP
        (Sweep.hasRecord c.inspected))
        ((Sweep.completed c.inspected left walked.files).foldl
          (Sweep.compare m.establishing detectedBy c.inspected) (m.sweepFrom walked))
          m.settings.paths
    · exact Or.inl (hgone hremoved).1
    · rw [hkept hremoved]
      exact Or.inr hswept

/-- A path that was written has the row of its file, or none if the scan saw no such file. -/
theorem get_of_written (h : (m.rescanFallible detectedBy walked c left).2 = none)
    (hkeys : ∀ path ∈ walked.files, ∀ other ∈ walked.files, other.key = path.key → other = path)
    {key : String} (hkey : key ∈ m.writtenBefore detectedBy walked c left) :
    (∃ path ∈ walked.files, path.key = key ∧ ∃ current, c.inspected path = .ok (some current) ∧
      (m.rescanFallible detectedBy walked c left).1.baseline.get key = some current.stored) ∨
    (∀ path ∈ walked.files, path.key ≠ key) ∧
      (m.rescanFallible detectedBy walked c left).1.baseline.get key = none := by
  obtain ⟨b, hafter, hcases⟩ := rescanFallible_none h
  rw [hafter]
  simp only [writtenBefore] at hkey
  have hbegins := Sweep.completed_prefix c.inspected left walked.files
  have hwritten : key ∈ ((Sweep.completed c.inspected left walked.files).filter
      (Sweep.hasRecord c.inspected)).map Path.key → ∃ path ∈ walked.files, path.key = key ∧
      ∃ current, c.inspected path = .ok (some current) ∧
        ((Sweep.completed c.inspected left walked.files).foldl
          (Sweep.compare m.establishing detectedBy c.inspected)
          (m.sweepFrom walked)).baseline.get key =
        some current.stored := by
    intro hmem
    obtain ⟨path, hpath, rfl⟩ := List.mem_map.1 hmem
    obtain ⟨hdone, hrecord⟩ := List.mem_filter.1 hpath
    obtain ⟨current, hcurrent⟩ := (Sweep.hasRecord_iff _).1 hrecord
    have hfiles := hbegins.subset hdone
    refine ⟨path, hfiles, rfl, current, hcurrent, ?_⟩
    rw [(Sweep.foldl_compare_self m.establishing detectedBy c.inspected
      (walked.nodup.sublist hbegins.sublist) (m.sweepFrom walked) hdone
      (fun other hother => hkeys path hfiles other (hbegins.subset hother))).1, hcurrent]
    rfl
  rcases hcases with ⟨hne, hb⟩ | ⟨hdone, herror⟩
  · rw [if_neg hne] at hkey
    rw [hb]
    exact Or.inl (hwritten hkey)
  · rw [if_pos hdone, List.mem_append] at hkey
    obtain ⟨hgone, hkept⟩ := Sweep.forgetUnderFallible_error detectedBy c.order herror key
    by_cases hremoved : key ∈ Sweep.removed detectedBy c.order
        (left - 2 * (Sweep.completed c.inspected left walked.files).countP
        (Sweep.hasRecord c.inspected))
        ((Sweep.completed c.inspected left walked.files).foldl
          (Sweep.compare m.establishing detectedBy c.inspected) (m.sweepFrom walked))
          m.settings.paths
    · obtain ⟨hnone, hunseen⟩ := hgone hremoved
      refine Or.inr ⟨fun path hpath heq => hunseen ?_, hnone⟩
      rw [Sweep.foldl_compare_seen]
      exact Or.inr ⟨path, hdone.symm ▸ hpath, heq⟩
    · obtain ⟨path, hpath, hsame, current, hcurrent, hrow⟩ := hwritten (hkey.resolve_right hremoved)
      exact Or.inl ⟨path, hpath, hsame, current, hcurrent, (hkept hremoved).trans hrow⟩

/-! ### The next scan -/

def Reports (m : Monitor) (detectedBy : FimDetection) (walked : Walked) (c : Conditions)
    (key : String) : Prop :=
  eventsFor key (m.rescanOver detectedBy walked c).2.events ≠ []

/-- The path differs from its row: a scan that is neither stopped nor fails reports it. -/
def Differs (m : Monitor) (detectedBy : FimDetection) (walked : Walked) (c : Conditions)
    (key : String) : Prop :=
  m.Reports detectedBy walked { c with shouldContinue := fun _ => true } key

/-- A scan that is not stopped is silent about a path that its loop is silent about and that is not
stale after it. -/
theorem not_reports {n : Monitor} (hn : n.establishing = false) {key : String}
    (hevents : eventsFor key (walked.files.foldl (Sweep.compare false detectedBy c.inspected)
      (n.sweepFrom walked)).outcome.events = [])
    (hstale : ¬ (walked.files.foldl (Sweep.compare false detectedBy c.inspected)
      (n.sweepFrom walked)).Stale n.settings.paths key) :
    ¬ n.Differs detectedBy walked c key := by
  classical
  have hfiles : Sweep.files false detectedBy c.inspected (fun _ => true) 0
      { baseline := n.baseline, outcome := { limits := walked.limits } } walked.files =
      walked.files.foldl (Sweep.compare false detectedBy c.inspected) (n.sweepFrom walked) := by
    rw [Sweep.files_eq, Sweep.reached_all]
    exact if_pos rfl
  rw [Differs, Reports, not_not, rescanOver, hn]
  simp only [hfiles]
  split_ifs
  · exact hevents
  · rw [(Sweep.foldl_forgetUnder detectedBy c.order n.settings.paths _ key).2, hevents,
      if_neg hstale]
    rfl
  · exact hevents

/-- The same scan says nothing of a path that it finds as the row has it. -/
theorem not_differs_of_written {n : Monitor} (hn : n.establishing = false)
    (hkeys : ∀ path ∈ walked.files, ∀ other ∈ walked.files, other.key = path.key → other = path)
    (hsizes : ∀ path ∈ walked.files, ∀ current, c.inspected path = .ok (some current) →
      current.size < 2 ^ 63) {key : String}
    (hrow : (∃ path ∈ walked.files, path.key = key ∧
    ∃ current, c.inspected path = .ok (some current) ∧
        n.baseline.get key = some current.stored) ∨
      (∀ path ∈ walked.files, path.key ≠ key) ∧ n.baseline.get key = none) :
    ¬ n.Differs detectedBy walked c key := by
  rcases hrow with ⟨path, hpath, rfl, current, hcurrent, hrow⟩ | ⟨hother, hrow⟩
  · obtain ⟨hafter, hevents⟩ := Sweep.foldl_compare_self false detectedBy c.inspected walked.nodup
      (n.sweepFrom walked) hpath (hkeys path hpath)
    have hstored : current.stored = current := by
      have hsize := hsizes path hpath current hcurrent
      rw [FileRecord.stored, min_eq_left (by omega)]
    apply not_reports hn
    · have hsame : (n.sweepFrom walked).baseline.get path.key = some current := by
        rw [← hstored]
        exact hrow
      have hdifference := difference_change path.key (some current) current detectedBy
      rw [expectedChange_self] at hdifference
      rw [hevents, hcurrent, hsame]
      simp only [Sweep.reported, Bool.false_eq_true, if_false]
      rw [List.map_eq_nil_iff.1 hdifference]
      rfl
    · intro hstale
      apply hstale.2.1
      rw [Sweep.foldl_compare_seen]
      exact Or.inr ⟨path, hpath, rfl⟩
  · obtain ⟨hafter, hevents⟩ := Sweep.foldl_compare_ne false detectedBy c.inspected walked.files
      (n.sweepFrom walked) key (fun path hpath => (hother path hpath).symm)
    apply not_reports hn
    · exact hevents
    · intro hstale
      have hmem := hstale.1
      rw [Baseline.mem_iff, hafter] at hmem
      change (n.baseline.get key).isSome = true at hmem
      rw [hrow] at hmem
      exact absurd hmem (by simp)

/-- Whatever differed before the scan, and would still be reported against the earlier rows, is
reported against the rows that the failed scan left. -/
def LosesNothing (m : Monitor) (detectedBy : FimDetection) (walked : Walked) (c : Conditions)
    (after : Monitor) : Prop :=
  ∀ key, m.Differs detectedBy walked c key → ∀ next fs c',
    m.Reports next (walk fs m.settings) c' key → after.Reports next (walk fs after.settings) c' key

/-- No path that differs is written or removed before the operation that fails. -/
def WritesNoDifference (m : Monitor) (detectedBy : FimDetection) (walked : Walked) (c : Conditions)
    (left : ℕ) : Prop :=
  ∀ key ∈ m.writtenBefore detectedBy walked c left, ¬ m.Differs detectedBy walked c key

end Monitor

open Monitor

/-- A failed scan loses nothing when no path that differs was written before the operation that
failed; and when file names are UTF-8 and sizes fit the store, only then. -/
theorem failed_rescan_loses_nothing_iff (m : Monitor) (hm : m.establishing = false)
    (detectedBy : FimDetection) (fs : FileSystem) (c : Conditions) (left : ℕ)
    (hfail : (m.rescanFallible detectedBy (walk fs m.settings) c left).2 = none) :
    let walked := walk fs m.settings
    let after := (m.rescanFallible detectedBy walked c left).1
    (m.WritesNoDifference detectedBy walked c left → m.LosesNothing detectedBy walked c after) ∧
    ((∀ path ∈ walked.files, path.IsUtf8) →
      (∀ path ∈ walked.files, ∀ current, c.inspected path = .ok (some current) →
        current.size < 2 ^ 63) →
      (m.LosesNothing detectedBy walked c after ↔
      m.WritesNoDifference detectedBy walked c left)) := by
  intro walked after
  obtain ⟨b, hafter, -⟩ := rescanFallible_none hfail
  have hsettings : after.settings = m.settings := by
    rw [show after = _ from hafter]
  have hestablishing : after.establishing = m.establishing := by
    rw [show after = _ from hafter]
  have henough : m.WritesNoDifference detectedBy walked c left →
      m.LosesNothing detectedBy walked c after := by
    intro hnone key hdiffers next fs' c' hreports
    have hrow := get_of_not_written hfail (fun hmem => hnone key hmem hdiffers)
    rw [Reports, hsettings, eventsFor_rescanOver hsettings hestablishing hrow]
    exact hreports
  refine ⟨henough, fun hutf8 hsizes => ⟨?_, henough⟩⟩
  intro hlossless key hkey hdiffers
  have hkeys : ∀ path ∈ walked.files, ∀ other ∈ walked.files, other.key = path.key → other = path :=
    fun path hpath other hother heq =>
      Path.key_injective (hutf8 other hother) (hutf8 path hpath) heq
  have hagain := hlossless key hdiffers detectedBy fs
    { c with shouldContinue := fun _ => true } hdiffers
  rw [hsettings] at hagain
  exact not_differs_of_written (hestablishing.trans hm) hkeys hsizes
    (get_of_written hfail hkeys hkey) hagain

/-! ### One file that changed -/

theorem walk_sampleFiles (hash : Option String) :
    (walk (sampleFiles hash) sampleSettings).files = [samplePath] :=
  Finset.sort_singleton _ samplePath

/-- The first operation fails: the change is still there to be found. -/
theorem failed_rescan_loses_nothing_first :
    let m := sampleMonitor ⟨some "a", 10, 0o644, 0, 0⟩
    let fs := sampleFiles (some "b")
    let c : Conditions := { inspected := fun path => inspect fs path sampleSettings.maxFileBytes }
    (m.rescanFallible .baselineRescan (walk fs m.settings) c 0).2 = none ∧
      m.LosesNothing .baselineRescan (walk fs m.settings) c
        (m.rescanFallible .baselineRescan (walk fs m.settings) c 0).1 := by
  intro m fs c
  have hwalk : (walk fs m.settings).files = [samplePath] := walk_sampleFiles _
  have hrecord : c.inspected samplePath = .ok (some ⟨some "b", 10, 0o644, 0, 0⟩) := rfl
  have hfail : (m.rescanFallible .baselineRescan (walk fs m.settings) c 0).2 = none := by
    rw [rescanFallible, hwalk]
    rfl
  refine ⟨hfail, (failed_rescan_loses_nothing_iff m rfl .baselineRescan fs c 0 hfail).1 ?_⟩
  intro key hkey
  rw [writtenBefore, hwalk] at hkey
  exact absurd hkey List.not_mem_nil

/-- The listing of the rows fails after the file has been compared: its change is in the baseline,
its event is not reported, and the next rescan is silent. -/
theorem failed_rescan_loses_modification :
    let m := sampleMonitor ⟨some "a", 10, 0o644, 0, 0⟩
    let fs := sampleFiles (some "b")
    let c : Conditions := { inspected := fun path => inspect fs path sampleSettings.maxFileBytes }
    m.establishing = false ∧ (m.rescanFallible .baselineRescan (walk fs m.settings) c 2).2 = none ∧
      ¬ m.LosesNothing .baselineRescan (walk fs m.settings) c
        (m.rescanFallible .baselineRescan (walk fs m.settings) c 2).1 := by
  intro m fs c
  have hwalk : (walk fs m.settings).files = [samplePath] := walk_sampleFiles _
  have hfail : (m.rescanFallible .baselineRescan (walk fs m.settings) c 2).2 = none := by
    rw [rescanFallible, hwalk]
    rfl
  have hdiffers : m.Differs .baselineRescan (walk fs m.settings) c samplePath.key := by
    rw [Differs, Reports, rescanOver, hwalk]
    decide +kernel
  have hkeys : ∀ path ∈ (walk fs m.settings).files, ∀ other ∈ (walk fs m.settings).files,
      other.key = path.key → other = path := by
    rw [hwalk]
    intro path hpath other hother _
    rw [List.mem_singleton.1 hpath, List.mem_singleton.1 hother]
  have hsizes : ∀ path ∈ (walk fs m.settings).files, ∀ current,
      c.inspected path = .ok (some current) → current.size < 2 ^ 63 := by
    rw [hwalk]
    intro path hpath current hcurrent
    rw [List.mem_singleton.1 hpath] at hcurrent
    obtain rfl : ⟨some "b", 10, 0o644, 0, 0⟩ = current := Option.some.inj (Except.ok.inj hcurrent)
    decide
  have hwritten : samplePath.key ∈ m.writtenBefore .baselineRescan (walk fs m.settings) c 2 := by
    rw [writtenBefore, hwalk]
    decide +kernel
  obtain ⟨b, hafter, -⟩ := rescanFallible_none hfail
  have hrow := get_of_written hfail hkeys hwritten
  refine ⟨rfl, hfail, fun hlossless => ?_⟩
  have hagain := hlossless samplePath.key hdiffers .baselineRescan fs
    { c with shouldContinue := fun _ => true } hdiffers
  rw [hafter] at hagain hrow
  exact not_differs_of_written rfl hkeys hsizes hrow hagain

end CyberSentinel.Fim
