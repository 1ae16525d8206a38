import CyberSentinel.FimFailure
import CyberSentinel.Runs

/-!
# What a monitor forgets

Every call overwrites the row of a file with whatever could be read at that moment. A content change
is reported as long as no call silently replaces a row that has a hash by a record that has none:
the later hash then has nothing to be compared with. A call that fails drops the events of the rows
it has written, so it must not have come by a change of the file. And a first scan that is
interrupted leaves rows behind, while the flag that says the baseline is not established is
forgotten with the process.
-/

namespace CyberSentinel.Fim

open Tables

/-! ### Calls -/

def Inspection.record : Inspection → Option FileRecord
  | .ok record => record
  | .error _ => none

inductive Call
  | rescan (detectedBy : FimDetection) (walked : Walked) (c : Monitor.Conditions)
  | recheck (path : Path) (inspected : Inspection)
  /-- Only so many operations of the baseline succeed. -/
  | failingRescan (detectedBy : FimDetection) (walked : Walked) (c : Monitor.Conditions) (left : ℕ)
  | failingRecheck (path : Path) (inspected : Inspection) (left : ℕ)

namespace Call

def inspection (path : Path) : Call → Inspection
  | rescan _ _ c => c.inspected path
  | recheck _ inspected => inspected
  | failingRescan _ _ c _ => c.inspected path
  | failingRecheck _ inspected _ => inspected

def plain : Call → Call
  | failingRescan detectedBy walked c _ => rescan detectedBy walked c
  | failingRecheck path inspected _ => recheck path inspected
  | call => call

def WritesRow (path : Path) : Call → Prop
  | failingRescan _ walked c left => path ∈ Sweep.completed c.inspected left walked.files
  | _ => False

end Call

namespace Monitor

def serve (m : Monitor) : Call → Monitor × List FimEvent
  | .rescan detectedBy walked c =>
    ((m.rescanOver detectedBy walked c).1, (m.rescanOver detectedBy walked c).2.events)
  | .recheck path inspected => ((m.recheck path inspected).1, (m.recheck path inspected).2.toList)
  | .failingRescan detectedBy walked c left =>
    let (m, outcome) := m.rescanFallible detectedBy walked c left
    (m, outcome.elim [] RescanOutcome.events)
  | .failingRecheck path inspected left =>
    let (m, event) := m.recheckFallible path inspected left
    (m, event.elim [] Option.toList)

def fails (m : Monitor) : Call → Bool
  | .failingRescan detectedBy walked c left => (m.rescanFallible detectedBy walked c left).2.isNone
  | .failingRecheck path inspected left => (m.recheckFallible path inspected left).2.isNone
  | _ => false

/-- The call looks at the path. A scan that fails in the loop over the files has looked at the one
it is at; a recheck that cannot read the row does not look. -/
def LooksAt (m : Monitor) (path : Path) : Call → Prop
  | .rescan _ walked c => path ∈ Sweep.reached c.shouldContinue 0 walked.files
  | .recheck checked _ => checked = path ∧ m.isWatched checked = true
  | .failingRescan detectedBy walked c left =>
    if (m.rescanFallible detectedBy walked c left).2.isNone then
      path ∈ walked.files.take ((Sweep.completed c.inspected left walked.files).length + 1)
    else path ∈ Sweep.reached c.shouldContinue 0 walked.files
  | .failingRecheck checked _ left =>
    (checked = path ∧ m.isWatched checked = true) ∧ (left = 0 → m.establishing = true)

def Inspects (m : Monitor) (path : Path) (call : Call) (record : FileRecord) : Prop :=
  m.LooksAt path call ∧ (call.inspection path).record = some record

def Alone (m : Monitor) (path : Path) (call : Call) : Prop :=
  ∀ other, m.LooksAt other call → other.key = path.key → other = path

end Monitor

/-! ### What a call does to one row -/

/-- The row and the events of a path that the call looks at, or does not look at. -/
structure Serves (m : Monitor) (path : Path) (call : Call) : Prop where
  establishing_eq : (m.serve call).1.establishing = false
  settings_eq : (m.serve call).1.settings = m.settings
  inspected : ∀ record, m.Inspects path call record →
    (m.serve call).1.baseline.get path.key = some record.stored ∧
      ∃ detectedBy, eventsFor path.key (m.serve call).2 =
        (difference path.key (m.baseline.get path.key) record detectedBy).toList
  otherwise : (∀ record, ¬m.Inspects path call record) →
    (m.serve call).1.baseline.get path.key = m.baseline.get path.key ∨
      eventsFor path.key (m.serve call).2 ≠ []

theorem eventsFor_deleted (key : String) (row : Option FileRecord) (detectedBy : FimDetection) :
    eventsFor key [deletedEvent key row detectedBy] = [deletedEvent key row detectedBy] := by
  simp [eventsFor, deletedEvent]

/-- What the loop over the files does to the row of a path that it gets to alone. -/
theorem files_for {m : Monitor} (hm : m.establishing = false) (detectedBy : FimDetection)
    (walked : Walked) (c : Monitor.Conditions) {path : Path}
    (halone : m.Alone path (.rescan detectedBy walked c)) :
    let swept := Sweep.files m.establishing detectedBy c.inspected c.shouldContinue 0
      { baseline := m.baseline, outcome := { limits := walked.limits } } walked.files
    let reached := Sweep.reached c.shouldContinue 0 walked.files
    (path ∈ reached → path.key ∈ swept.seen ∧
      swept.baseline.get path.key =
        Sweep.rowAfter (c.inspected path) (m.baseline.get path.key) ∧
      eventsFor path.key swept.outcome.events = Sweep.reported false detectedBy path.key
        (c.inspected path) (m.baseline.get path.key)) ∧
    (path ∉ reached → swept.baseline.get path.key = m.baseline.get path.key ∧
      eventsFor path.key swept.outcome.events = []) := by
  intro swept reached
  have hnodup : reached.Nodup := walked.nodup.sublist (Sweep.reached_sublist _ _ _)
  -- being abandoned changes neither the rows nor the events
  have hswept : swept.seen = (reached.foldl (Sweep.compare false detectedBy c.inspected)
        { baseline := m.baseline, outcome := { limits := walked.limits } }).seen ∧
      swept.baseline = (reached.foldl (Sweep.compare false detectedBy c.inspected)
        { baseline := m.baseline, outcome := { limits := walked.limits } }).baseline ∧
      swept.outcome.events = (reached.foldl (Sweep.compare false detectedBy c.inspected)
        { baseline := m.baseline, outcome := { limits := walked.limits } }).outcome.events := by
    simp only [swept, Sweep.files_eq, hm]
    split_ifs
    · exact ⟨rfl, rfl, rfl⟩
    · exact ⟨rfl, rfl, rfl⟩
  rw [hswept.1, hswept.2.1, hswept.2.2]
  constructor
  · intro hpath
    have hself := Sweep.foldl_compare_self false detectedBy c.inspected hnodup
      { baseline := m.baseline, outcome := { limits := walked.limits } } hpath
      (fun other hother heq => halone other hother heq)
    exact ⟨(Sweep.foldl_compare_seen _ _ _ _ _ _).2 (Or.inr ⟨path, hpath, rfl⟩), hself.1, hself.2⟩
  · intro hpath
    have hother := Sweep.foldl_compare_ne false detectedBy c.inspected reached
      { baseline := m.baseline, outcome := { limits := walked.limits } } path.key
      (fun other hmem heq => hpath (halone other hmem heq.symm ▸ hmem))
    exact ⟨hother.1, hother.2⟩

/-- What a scan that compares ends with: what the loop over the files leaves, with the rows taken
out that it did not come by, or all of it. -/
theorem rescanOver_final {m : Monitor} (hm : m.establishing = false) (detectedBy : FimDetection)
    (walked : Walked)
    (c : Monitor.Conditions) :
    let swept := Sweep.files m.establishing detectedBy c.inspected c.shouldContinue 0
      { baseline := m.baseline, outcome := { limits := walked.limits } } walked.files
    ∃ final, (final = swept ∨
      final = m.settings.paths.foldl (Sweep.forgetUnder detectedBy c.order) swept) ∧
      m.rescanOver detectedBy walked c =
        ({ m with baseline := final.baseline, establishing := false }, final.outcome) := by
  intro swept
  rw [Monitor.rescanOver]
  dsimp only
  split_ifs with habandoned hclear
  · refine ⟨swept, Or.inl rfl, ?_⟩
    rw [← hm]
  · exact ⟨_, Or.inr rfl, rfl⟩
  · exact ⟨_, Or.inl rfl, rfl⟩

/-- Taking rows out leaves those of the files that were come by; where it takes one out there is an
event. -/
theorem forgetUnder_for (detectedBy : FimDetection) (order : HashOrder String) (roots : List Path)
    (swept : Sweep)
    (key : String) :
    let final := roots.foldl (Sweep.forgetUnder detectedBy order) swept
    (key ∈ swept.seen → final.baseline.get key = swept.baseline.get key ∧
      eventsFor key final.outcome.events = eventsFor key swept.outcome.events) ∧
    (final.baseline.get key = swept.baseline.get key ∨
    eventsFor key final.outcome.events ≠ []) := by
  classical
  obtain ⟨hrow, hevents⟩ := Sweep.foldl_forgetUnder detectedBy order roots swept key
  intro final
  rw [hrow, hevents]
  by_cases hstale : swept.Stale roots key
  · refine ⟨fun hseen => absurd hseen hstale.2.1, Or.inr ?_⟩
    rw [if_pos hstale]
    simp
  · rw [if_neg hstale, if_neg hstale, List.append_nil]
    exact ⟨fun _ => ⟨rfl, rfl⟩, Or.inl rfl⟩

theorem inspected_of_record {inspected : Inspection} {record : FileRecord}
    (h : inspected.record = some record) :
    inspected = .ok (some record) := by
  cases inspected with
  | error e => cases h
  | ok found => exact congrArg Except.ok h

theorem serves_rescan {m : Monitor} (hm : m.establishing = false) (detectedBy : FimDetection)
    (walked : Walked) (c : Monitor.Conditions) {path : Path}
    (halone : m.Alone path (.rescan detectedBy walked c)) :
    Serves m path (.rescan detectedBy walked c) := by
  obtain ⟨hreached, hunreached⟩ := files_for hm detectedBy walked c halone
  obtain ⟨final, hcase, hresult⟩ := rescanOver_final hm detectedBy walked c
  have hserve : m.serve (.rescan detectedBy walked c) =
      ({ m with baseline := final.baseline, establishing := false }, final.outcome.events) := by
    rw [Monitor.serve, hresult]
  generalize Sweep.files m.establishing detectedBy c.inspected c.shouldContinue 0
    { baseline := m.baseline, outcome := { limits := walked.limits } } walked.files = swept
    at hreached hunreached hcase
  -- the row and the events of the path in the end
  have hfinal : (path.key ∈ swept.seen → final.baseline.get path.key = swept.baseline.get path.key ∧
        eventsFor path.key final.outcome.events = eventsFor path.key swept.outcome.events) ∧
      (final.baseline.get path.key = swept.baseline.get path.key ∨
      eventsFor path.key final.outcome.events ≠ []) := by
    rcases hcase with rfl | rfl
    · exact ⟨fun _ => ⟨rfl, rfl⟩, Or.inl rfl⟩
    · exact forgetUnder_for detectedBy c.order m.settings.paths swept path.key
  constructor
  · rw [hserve]
  · rw [hserve]
  · rintro record ⟨hlooks, hrecord⟩
    obtain ⟨hseen, hrow, hevents⟩ := hreached hlooks
    obtain ⟨hrowFinal, heventsFinal⟩ := hfinal.1 hseen
    have hinspected : c.inspected path = .ok (some record) := inspected_of_record hrecord
    rw [hinspected] at hrow hevents
    rw [hserve]
    refine ⟨hrowFinal.trans hrow, detectedBy, heventsFinal.trans ?_⟩
    rw [hevents]
    rfl
  · intro hnone
    have hsweptRow : swept.baseline.get path.key = m.baseline.get path.key := by
      by_cases hlooks : path ∈ Sweep.reached c.shouldContinue 0 walked.files
      · rw [(hreached hlooks).2.1]
        cases hfound : c.inspected path with
        | error e => rfl
        | ok found =>
          cases found with
          | none => rfl
          | some record =>
            exact absurd ⟨hlooks, by rw [Call.inspection, hfound]; rfl⟩ (hnone record)
      · exact (hunreached hlooks).1
    rw [hserve]
    rcases hfinal.2 with hrow | hevents
    · exact Or.inl (hrow.trans hsweptRow)
    · exact Or.inr hevents

theorem serves_of_idle {m : Monitor} (hm : m.establishing = false) {path : Path} {call : Call}
    (hserve : m.serve call = (m, [])) (hnone : ∀ record, ¬m.Inspects path call record) :
    Serves m path call := by
  refine ⟨?_, ?_, fun record hrecord => absurd hrecord (hnone record), fun _ => Or.inl ?_⟩
  · rw [hserve]
    exact hm
  · rw [hserve]
  · rw [hserve]

theorem serves_recheck {m : Monitor} (hm : m.establishing = false) (checked : Path)
    (inspected : Inspection) {path : Path} (halone : m.Alone path (.recheck checked inspected)) :
    Serves m path (.recheck checked inspected) := by
  have hkey : m.isWatched checked = true → checked ≠ path → path.key ≠ checked.key :=
    fun hwatched hne heq => hne (halone checked ⟨rfl, hwatched⟩ heq.symm)
  by_cases hwatched : m.isWatched checked = true
  · cases inspected with
    | error e =>
      apply serves_of_idle hm (by simp [Monitor.serve, Monitor.recheck, hwatched])
      rintro record ⟨-, hrecord⟩
      cases hrecord
    | ok found =>
      cases found with
      | none =>
        cases hrow : m.baseline.get checked.key with
        | none =>
          refine serves_of_idle hm
            (by simp [Monitor.serve, Monitor.recheck, hwatched, hm, hrow]) ?_
          rintro record ⟨-, hrecord⟩
          cases hrecord
        | some row =>
          have hserve : m.serve (.recheck checked (.ok none)) =
              ({ m with baseline := m.baseline.remove checked.key },
                [deletedEvent checked.key (some row) .realTime]) := by
            simp [Monitor.serve, Monitor.recheck, hwatched, hm, hrow]
          refine ⟨by rw [hserve]; exact hm, by rw [hserve], ?_, ?_⟩
          · rintro record ⟨-, hrecord⟩
            cases hrecord
          · intro _
            rw [hserve]
            by_cases hpath : checked = path
            · right
              rw [hpath, eventsFor_deleted]
              simp
            · exact Or.inl (Baseline.get_remove_ne _ (hkey hwatched hpath))
      | some current =>
        have hserve : m.serve (.recheck checked (.ok (some current))) =
            ({ m with baseline := m.baseline.put checked.key current },
              (difference checked.key (m.baseline.get checked.key) current .realTime).toList) := by
          simp [Monitor.serve, Monitor.recheck, hwatched, hm]
        refine ⟨by rw [hserve]; exact hm, by rw [hserve], ?_, ?_⟩
        · rintro record ⟨⟨rfl, -⟩, hrecord⟩
          cases hrecord
          rw [hserve]
          exact ⟨Baseline.get_put_self _ _ _, .realTime, eventsFor_difference _ _ _ _⟩
        · intro hnone
          rw [hserve]
          have hpath : checked ≠ path := fun heq => hnone current ⟨⟨heq, hwatched⟩, rfl⟩
          exact Or.inl (Baseline.get_put_ne _ _ (hkey hwatched hpath))
  · apply serves_of_idle hm (by simp [Monitor.serve, Monitor.recheck, hwatched])
    rintro record ⟨⟨-, hchecked⟩, -⟩
    exact absurd hchecked hwatched

theorem serves_plain {m : Monitor} (hm : m.establishing = false) {path : Path} (call : Call)
    (halone : m.Alone path call.plain) : Serves m path call.plain := by
  cases call with
  | rescan detectedBy walked c => exact serves_rescan hm detectedBy walked c halone
  | recheck checked inspected => exact serves_recheck hm checked inspected halone
  | failingRescan detectedBy walked c left => exact serves_rescan hm detectedBy walked c halone
  | failingRecheck checked inspected left => exact serves_recheck hm checked inspected halone

theorem serve_plain {m : Monitor} {call : Call} (h : m.fails call = false) :
    m.serve call = m.serve call.plain ∧ ∀ path, m.LooksAt path call ↔
      m.LooksAt path call.plain := by
  cases call with
  | rescan detectedBy walked c => exact ⟨rfl, fun _ => Iff.rfl⟩
  | recheck checked inspected => exact ⟨rfl, fun _ => Iff.rfl⟩
  | failingRescan detectedBy walked c left =>
    rw [Monitor.fails] at h
    have hsome : (m.rescanFallible detectedBy walked c left).2.isSome = true := by
      rw [← Option.not_isNone, h]
      rfl
    obtain ⟨outcome, houtcome⟩ := Option.isSome_iff_exists.1 hsome
    refine ⟨?_, fun path => ?_⟩
    · simp only [Monitor.serve, Call.plain, Monitor.rescanFallible_some houtcome]
      rfl
    · simp only [Monitor.LooksAt, Call.plain, h, Bool.false_eq_true, if_false]
  | failingRecheck checked inspected left =>
    rw [Monitor.fails, Monitor.recheckFallible] at h
    split_ifs at h with hfew
    · cases h
    · refine ⟨?_, fun path => ?_⟩
      · simp only [Monitor.serve, Call.plain, Monitor.recheckFallible, if_neg hfew]
        rfl
      · refine ⟨And.left, fun hlooks => ⟨hlooks, fun hzero => ?_⟩⟩
        by_contra hm
        apply hfew
        rw [hzero]
        unfold Monitor.recheckOperations
        rw [hlooks.2, Bool.eq_false_iff.2 hm]
        rcases inspected with _ | (_ | current)
        · exact Nat.one_pos
        · simp only [Bool.not_true, Bool.false_eq_true, if_false]
          split_ifs <;> omega
        · exact Nat.two_pos

theorem serves {m : Monitor} (hm : m.establishing = false) {path : Path} {call : Call}
    (hworks : m.fails call = false) (halone : m.Alone path call) : Serves m path call := by
  obtain ⟨hserve, hlooks⟩ := serve_plain hworks
  have hinspects : ∀ record, m.Inspects path call record ↔ m.Inspects path call.plain record := by
    intro record
    rw [Monitor.Inspects, Monitor.Inspects, hlooks]
    cases call <;> rfl
  have hplain := serves_plain hm call
    (fun other hother => halone other ((hlooks other).2 hother))
  refine ⟨?_, ?_, ?_, ?_⟩
  · rw [hserve]
    exact hplain.establishing_eq
  · rw [hserve]
    exact hplain.settings_eq
  · intro record hrecord
    rw [hserve]
    exact hplain.inspected record ((hinspects record).1 hrecord)
  · intro hnone
    rw [hserve]
    exact hplain.otherwise (fun record hrecord => hnone record ((hinspects record).2 hrecord))

/-- What a call that fails does: it emits nothing, and a row is written for the record that was
found. -/
structure FailsAt (m : Monitor) (path : Path) (call : Call) : Prop where
  silent : (m.serve call).2 = []
  establishing_eq : (m.serve call).1.establishing = m.establishing
  row : (m.serve call).1.baseline.get path.key = none ∨
    (m.serve call).1.baseline.get path.key = m.baseline.get path.key ∨
    call.WritesRow path ∧ ∃ record, m.Inspects path call record ∧
      (m.serve call).1.baseline.get path.key = some record.stored

theorem failsAt {m : Monitor} {path : Path} {call : Call} (hfails : m.fails call = true)
    (halone : m.Alone path call) : FailsAt m path call := by
  cases call with
  | rescan detectedBy walked c => cases hfails
  | recheck checked inspected => cases hfails
  | failingRescan detectedBy walked c left =>
    have hnone := Option.isNone_iff_eq_none.1 hfails
    obtain ⟨b, hafter, -⟩ := Monitor.rescanFallible_none hnone
    have hserve : m.serve (.failingRescan detectedBy walked c left) =
        ((m.rescanFallible detectedBy walked c left).1, []) := by
      simp only [Monitor.serve, hnone]
      rfl
    have hlooks : ∀ other ∈ Sweep.completed c.inspected left walked.files,
        m.LooksAt other (.failingRescan detectedBy walked c left) := by
      intro other hother
      rw [Monitor.LooksAt, hnone, if_pos Option.isNone_none]
      rw [List.prefix_iff_eq_take.1 (Sweep.completed_prefix c.inspected left walked.files)]
        at hother
      exact (List.take_prefix_take_left (Nat.le_succ _)).subset hother
    refine ⟨?_, ?_, ?_⟩
    · rw [hserve]
    · rw [hserve, hafter]
    · rw [hserve]
      rcases Monitor.row_of_failure hnone (fun other hother =>
        halone other (hlooks other hother)) with
        hgone | hkept | ⟨hwritten, record, hrecord, hrow⟩
      · exact Or.inl hgone
      · exact Or.inr (Or.inl hkept)
      · refine Or.inr (Or.inr ⟨hwritten, record, ⟨hlooks path hwritten, ?_⟩, hrow⟩)
        rw [Call.inspection, hrecord]
        rfl
  | failingRecheck checked inspected left =>
    have hserve : m.serve (.failingRecheck checked inspected left) = (m, []) := by
      rw [Monitor.fails, Monitor.recheckFallible] at hfails
      split_ifs at hfails with hfew
      · simp only [Monitor.serve, Monitor.recheckFallible, if_pos hfew]
        rfl
      · cases hfails
    refine ⟨?_, ?_, Or.inr (Or.inl ?_)⟩
    · rw [hserve]
    · rw [hserve]
    · rw [hserve]

/-! ### Content changes -/

namespace Monitor

/-- The call does not lose the hash of the path. No other path of the same text is looked at; a row
with a hash does not meet a record without one that agrees with it in size and attributes; and where
the call fails, a hash that it has found, and a record that it has written, is the hash of the row.
-/
structure KeepsHash (path : Path) (m : Monitor) (call : Call) : Prop where
  alone : m.Alone path call
  hashed : m.fails call = false → ∀ record, m.Inspects path call record → record.sha256 = none →
    ∀ row, m.baseline.get path.key = some row → row.sha256 ≠ none →
      row.size ≠ record.size ∨ AttributesDiffer row record
  failing : m.fails call = true → ∀ record, m.Inspects path call record →
    record.sha256 ≠ none ∨ call.WritesRow path →
      ∃ row, m.baseline.get path.key = some row ∧ row.sha256 = record.sha256

def HashHeld (path : Path) (hash : String) (m : Monitor) : Prop :=
  ∀ row, m.baseline.get path.key = some row → row.sha256 = some hash

end Monitor

theorem difference_ne_none {key : String} {row record : FileRecord} {detectedBy : FimDetection}
    (h : contentChanged row record = true ∨ AttributesDiffer row record) :
    (difference key (some row) record detectedBy).toList ≠ [] := by
  simp only [difference]
  split_ifs with hcontent hattributes
  · simp
  · simp
  · rcases h with hchanged | hdiffer
    · exact absurd hchanged hcontent
    · exact absurd hdiffer hattributes

theorem Monitor.Inspects.unique {m : Monitor} {path : Path} {call : Call}
    {record record' : FileRecord}
    (h : m.Inspects path call record) (h' : m.Inspects path call record') : record = record' :=
  Option.some.inj (h.2.symm.trans h'.2)

theorem Monitor.KeepsHash.establishing {m : Monitor} (hm : m.establishing = false) {path : Path}
    {call : Call} (hkeeps : m.KeepsHash path call) : (m.serve call).1.establishing = false := by
  cases hfails : m.fails call with
  | false => exact (serves hm hfails hkeeps.alone).establishing_eq
  | true => exact (failsAt hfails hkeeps.alone).establishing_eq.trans hm

theorem hashHeld_of_inspects {m : Monitor} (hm : m.establishing = false) {path : Path} {call : Call}
    (hkeeps : m.KeepsHash path call) {record : FileRecord} (hinspects : m.Inspects path call record)
    {hash : String} (hhash : record.sha256 = some hash) :
    Monitor.HashHeld path hash (m.serve call).1 := by
  intro after hafter
  cases hfails : m.fails call with
  | false =>
    rw [((serves hm hfails hkeeps.alone).inspected record hinspects).1] at hafter
    exact Option.some.inj hafter ▸ hhash
  | true =>
    obtain ⟨row, hrow, hrowHash⟩ :=
      hkeeps.failing hfails record hinspects (Or.inl (by simp [hhash]))
    rcases (failsAt hfails hkeeps.alone).row with hgone | hkept | ⟨_, record', hrecord', hwritten⟩
    · rw [hgone] at hafter
      cases hafter
    · rw [hkept, hrow] at hafter
      exact Option.some.inj hafter ▸ hrowHash.trans hhash
    · rw [hwritten, ← hinspects.unique hrecord'] at hafter
      exact Option.some.inj hafter ▸ hhash

/-- A hash that differs from the one in the row is reported, and so is one where there is no row. -/
theorem reported_of_hash_ne {m : Monitor} (hm : m.establishing = false) {path : Path} {call : Call}
    (hkeeps : m.KeepsHash path call) {known hash : String} (hheld : m.HashHeld path known)
    {record : FileRecord} (hinspects : m.Inspects path call record)
    (hhash : record.sha256 = some hash) (hne : known ≠ hash) :
    eventsFor path.key (m.serve call).2 ≠ [] := by
  cases hfails : m.fails call with
  | false =>
    obtain ⟨-, detectedBy, hevents⟩ := (serves hm hfails hkeeps.alone).inspected record hinspects
    rw [hevents]
    cases hrow : m.baseline.get path.key with
    | none => simp [difference]
    | some row =>
      refine difference_ne_none (Or.inl ?_)
      simp [contentChanged, hheld row hrow, hhash, hne]
  | true =>
    obtain ⟨row, hrow, hrowHash⟩ :=
      hkeeps.failing hfails record hinspects (Or.inl (by simp [hhash]))
    have hboth := (hheld row hrow).symm.trans (hrowHash.trans hhash)
    exact absurd (Option.some.inj hboth) hne

/-- A call that keeps the hash and reports nothing leaves the hash where it was. -/
theorem hashHeld_serve {m : Monitor} (hm : m.establishing = false) {path : Path} {call : Call}
    (hkeeps : m.KeepsHash path call) {hash : String} (hheld : m.HashHeld path hash)
    (hsilent : eventsFor path.key (m.serve call).2 = []) :
    Monitor.HashHeld path hash (m.serve call).1 := by
  by_cases hfound : ∃ record, m.Inspects path call record ∧ record.sha256 ≠ none
  · obtain ⟨record, hinspects, hsome⟩ := hfound
    obtain ⟨found, hhash⟩ := Option.ne_none_iff_exists'.1 hsome
    by_cases hsame : hash = found
    · rw [hsame]
      exact hashHeld_of_inspects hm hkeeps hinspects hhash
    · exact absurd hsilent (reported_of_hash_ne hm hkeeps hheld hinspects hhash hsame)
  · have hunhashed : ∀ record, m.Inspects path call record → record.sha256 = none := by
      intro record hinspects
      by_contra hsome
      exact hfound ⟨record, hinspects, hsome⟩
    intro after hafter
    cases hfails : m.fails call with
    | false =>
      have hserves := serves hm hfails hkeeps.alone
      by_cases hinspects : ∃ record, m.Inspects path call record
      · -- the row would be lost, but then its size or its attributes differ
        obtain ⟨record, hinspects⟩ := hinspects
        have hnone := hunhashed record hinspects
        obtain ⟨-, detectedBy, hevents⟩ := hserves.inspected record hinspects
        refine absurd hsilent ?_
        rw [hevents]
        cases hrow : m.baseline.get path.key with
        | none => simp [difference]
        | some row =>
          have hrowHash := hheld row hrow
          apply difference_ne_none
          rcases hkeeps.hashed hfails record hinspects hnone row hrow (by simp [hrowHash]) with
            hsize | hdiffer
          · left
            simp [contentChanged, hnone, hsize]
          · exact Or.inr hdiffer
      · rcases hserves.otherwise (fun record h => hinspects ⟨record, h⟩) with hkept | hevents
        · exact hheld after (hkept.symm.trans hafter)
        · exact absurd hsilent hevents
    | true =>
      rcases (failsAt hfails hkeeps.alone).row with hgone | hkept | ⟨hwrites, record, hinspects, _⟩
      · rw [hgone] at hafter
        cases hafter
      · exact hheld after (hkept.symm.trans hafter)
      · -- a record without a hash was written, over a row without one
        obtain ⟨row, hrow, hrowHash⟩ := hkeeps.failing hfails record hinspects (Or.inr hwrites)
        rw [hheld row hrow, hunhashed record hinspects] at hrowHash
        cases hrowHash

/-- Over calls that keep the hash and report nothing, it stays in the row. -/
theorem hashHeld_run {path : Path} {hash : String} {calls : List Call} {m : Monitor}
    (hm : m.establishing = false)
    (hkeeps : Runs.Along Monitor.serve (Monitor.KeepsHash path) m calls)
    (hheld : m.HashHeld path hash)
    (hsilent : eventsFor path.key (Runs.run Monitor.serve m calls).2.flatten = []) :
    (Runs.run Monitor.serve m calls).1.establishing = false ∧
      Monitor.HashHeld path hash (Runs.run Monitor.serve m calls).1 := by
  induction calls generalizing m with
  | nil => exact ⟨hm, hheld⟩
  | cons call rest ih =>
    rw [Runs.run_cons, List.flatten_cons, eventsFor_append, List.append_eq_nil_iff] at hsilent
    exact ih (hkeeps.1.establishing hm) hkeeps.2
      (hashHeld_serve hm hkeeps.1 hheld hsilent.1) hsilent.2

theorem establishing_run {path : Path} {calls : List Call} {m : Monitor}
    (hm : m.establishing = false)
    (hkeeps : Runs.Along Monitor.serve (Monitor.KeepsHash path) m calls) :
    (Runs.run Monitor.serve m calls).1.establishing = false :=
  Runs.invariant_along Monitor.serve (fun m => m.establishing = false) (Monitor.KeepsHash path)
    (fun _ _ hm hkeeps => hkeeps.establishing hm) hm hkeeps

/-- No content change of the path is forgotten in the run: where two calls find different hashes, a
call after the first and up to the second has reported the path. -/
def RemembersChanges (path : Path) (m : Monitor) (calls : List Call) : Prop :=
  ∀ before first between second after,
    calls = before ++ first :: (between ++ second :: after) →
    ∀ old new oldHash newHash,
      (Runs.run Monitor.serve m before).1.Inspects path first old → old.sha256 = some oldHash →
      (Runs.run Monitor.serve m (before ++ first :: between)).1.Inspects path second new →
      new.sha256 = some newHash → oldHash ≠ newHash →
      ∃ event ∈ (Runs.run Monitor.serve (Runs.run Monitor.serve m (before ++ [first])).1
        (between ++ [second])).2.flatten, event.path = path.key

/-- As long as no call loses its hash, no content change of a path is forgotten. -/
theorem changes_remembered (m : Monitor) (hm : m.establishing = false) (path : Path)
    (calls : List Call) (hkeeps : Runs.Along Monitor.serve (Monitor.KeepsHash path) m calls) :
    RemembersChanges path m calls := by
  intro before first between second after hcalls old new oldHash newHash hold holdHash hnew hnewHash
    hne
  rw [hcalls, Runs.along_append] at hkeeps
  obtain ⟨hbefore, hfirst, hrest⟩ := hkeeps
  rw [Runs.along_append] at hrest
  obtain ⟨hbetween, hsecond, -⟩ := hrest
  have hmFirst := establishing_run hm hbefore
  have hstate : (Runs.run Monitor.serve m (before ++ [first])).1 =
      ((Runs.run Monitor.serve m before).1.serve first).1 := by
    rw [Runs.run_append]
    rfl
  have hstateSecond : (Runs.run Monitor.serve m (before ++ first :: between)).1 =
      (Runs.run Monitor.serve ((Runs.run Monitor.serve m before).1.serve first).1 between).1 := by
    rw [Runs.run_append, Runs.run_cons]
  rw [hstateSecond] at hnew
  rw [hstate]
  have hheld := hashHeld_of_inspects hmFirst hfirst hold holdHash
  have hmBetween := hfirst.establishing hmFirst
  -- if nothing was reported up to the second call, it finds the old hash and reports itself
  by_contra hnone
  have hsilent : eventsFor path.key (Runs.run Monitor.serve
      ((Runs.run Monitor.serve m before).1.serve first).1 (between ++ [second])).2.flatten =
      [] := by
    refine List.filter_eq_nil_iff.2 (fun event hevent => ?_)
    rw [decide_eq_true_eq]
    exact fun heq => hnone ⟨event, hevent, heq⟩
  rw [Runs.run_append, List.flatten_append, eventsFor_append, List.append_eq_nil_iff] at hsilent
  obtain ⟨hmSecond, hheldSecond⟩ := hashHeld_run hmBetween hbetween hheld hsilent.1
  have hreported := reported_of_hash_ne hmSecond hsecond hheldSecond hnew hnewHash hne
  rw [Runs.run_cons, Runs.run_nil, List.flatten_cons, List.flatten_nil, List.append_nil] at hsilent
  exact hreported hsilent.2

def sampleCheck (hash : Option String) : Call :=
  .recheck samplePath (.ok (some ⟨hash, 10, 0o644, 0, 0⟩))

def sampleFailure (hash : Option String) : Call :=
  .failingRescan .baselineRescan ⟨[samplePath], {}, by decide +kernel⟩
    { inspected := fun _ => .ok (some ⟨hash, 10, 0o644, 0, 0⟩) } 0

/-- A rescan that fails before it has come by the change. -/
theorem changes_remembered_sample :
    RemembersChanges samplePath (sampleMonitor ⟨some "a", 10, 0o644, 0, 0⟩)
      [sampleCheck (some "a"), sampleFailure (some "a"), sampleCheck (some "b")] := by
  have hkeeps (m : Monitor) (hash : String) : m.KeepsHash samplePath (sampleCheck (some hash)) := by
    refine ⟨fun other hother _ => hother.1.symm, ?_, fun hfails => nomatch hfails⟩
    rintro - record ⟨-, hrecord⟩ hnone
    cases hrecord
    cases hnone
  have hfailure : Monitor.KeepsHash samplePath ((sampleMonitor ⟨some "a", 10, 0o644, 0, 0⟩).serve
      (sampleCheck (some "a"))).1 (sampleFailure (some "a")) := by
    refine ⟨fun other hother _ => ?_, fun hworks => absurd hworks (by decide +kernel), ?_⟩
    · exact List.mem_singleton.1 hother
    · rintro - record ⟨-, hrecord⟩ -
      cases hrecord
      exact ⟨⟨some "a", 10, 0o644, 0, 0⟩, by decide +kernel, rfl⟩
  exact changes_remembered _ rfl samplePath _ ⟨hkeeps _ _, hfailure, hkeeps _ _, trivial⟩

/-- A file that could be stat-ed but not read in between: its change is never reported. -/
theorem content_change_forgotten :
    ¬∀ (m : Monitor) (path : Path) (calls : List Call), m.establishing = false →
      m.isWatched path = true → RemembersChanges path m calls := by
  intro h
  obtain ⟨event, hevent, -⟩ := h (sampleMonitor ⟨some "a", 10, 0o644, 0, 0⟩) samplePath
    [sampleCheck (some "a"), sampleCheck none, sampleCheck (some "b")] rfl (by decide +kernel)
    [] (sampleCheck (some "a")) [sampleCheck none] (sampleCheck (some "b")) [] rfl
    ⟨some "a", 10, 0o644, 0, 0⟩ ⟨some "b", 10, 0o644, 0, 0⟩ "a" "b"
    ⟨⟨rfl, by decide +kernel⟩, rfl⟩ rfl ⟨⟨rfl, by decide +kernel⟩, rfl⟩ rfl (by decide)
  have hsilent : (Runs.run Monitor.serve (Runs.run Monitor.serve
      (sampleMonitor ⟨some "a", 10, 0o644, 0, 0⟩) ([] ++ [sampleCheck (some "a")])).1
      ([sampleCheck none] ++ [sampleCheck (some "b")])).2.flatten = [] := by decide +kernel
  rw [hsilent] at hevent
  exact absurd hevent List.not_mem_nil

/-! ### The first scan -/

/-- What happens to an installation: a call on its monitor, or a restart of the process. -/
inductive Op
  | call (call : Call)
  | restart

/-- The monitor of an installation, and whether an establishing scan has ever run to completion. -/
structure Installation where
  monitor : Monitor
  established : Bool

/-- The call is a scan that establishes the baseline and is not abandoned. -/
def Monitor.completes (m : Monitor) : Call → Bool
  | .rescan detectedBy walked c =>
    m.establishing && !(m.rescanOver detectedBy walked c).2.limits.abandoned
  | .failingRescan detectedBy walked c left =>
    m.establishing &&
      (m.rescanFallible detectedBy walked c left).2.any (fun outcome => !outcome.limits.abandoned)
  | .recheck _ _ => false
  | .failingRecheck _ _ _ => false

namespace Installation

def new (settings : FimSettings) : Installation := ⟨Monitor.new settings ∅, false⟩

/-- A restart builds a new monitor over the baseline that was left. -/
def step (s : Installation) : Op → Installation × List FimEvent
  | .call call =>
    (⟨(s.monitor.serve call).1, s.established || s.monitor.completes call⟩,
      (s.monitor.serve call).2)
  | .restart => (⟨Monitor.new s.monitor.settings s.monitor.baseline, s.established⟩, [])

/-- Before an establishing scan has run to completion, a restart finds the baseline empty. -/
def RestartsEmpty (s : Installation) (op : Op) : Prop :=
  op = .restart → s.established = false → s.monitor.baseline.isEmpty = true

/-- Until an establishing scan has run to completion the monitor is establishing. -/
def Waits (s : Installation) : Prop := s.established = false → s.monitor.establishing = true

end Installation

/-- The file is there, with the record, whenever the monitor can look. -/
def Op.Finds (path : Path) (record : FileRecord) : Op → Prop
  | .call (.rescan _ _ c) => ∀ found, c.inspected path = .ok found → found = some record
  | .call (.recheck checked inspected) =>
    checked = path → ∀ found, inspected = .ok found → found = some record
  | .call (.failingRescan _ _ c _) => ∀ found, c.inspected path = .ok found → found = some record
  | .call (.failingRecheck checked inspected _) =>
    checked = path → ∀ found, inspected = .ok found → found = some record
  | .restart => True

/-- Until an establishing scan has run to completion, no rescan reports as created a file that was
there unchanged from the start. -/
def FabricatesNothing (settings : FimSettings) (ops : List Op) : Prop :=
  ∀ before detectedBy walked c after,
    ops = before ++ .call (.rescan detectedBy walked c) :: after →
    let run := Runs.run Installation.step (Installation.new settings) before
    run.1.established = false →
    ∀ path record, (∀ op ∈ before ++ [.call (.rescan detectedBy walked c)], op.Finds path record) →
    ∀ event ∈ (run.1.step (.call (.rescan detectedBy walked c))).2, event.path = path.key →
      event.change ≠ .created

theorem foldl_compare_establishing (detectedBy : FimDetection) (inspected : Path → Inspection)
    (files : List Path) (s : Sweep) :
    (files.foldl (Sweep.compare true detectedBy inspected) s).outcome.events =
    s.outcome.events := by
  induction files generalizing s with
  | nil => rfl
  | cons path rest ih =>
    rw [List.foldl_cons, ih, Sweep.compare]
    split
    · rfl
    · rfl
    · rfl

/-- While establishing a scan is silent, and what it is afterwards is decided by whether it was
abandoned. -/
theorem rescanOver_establishing {m : Monitor} (hm : m.establishing = true)
    (detectedBy : FimDetection) (walked : Walked) (c : Monitor.Conditions) :
    (m.rescanOver detectedBy walked c).2.events = [] ∧
      (m.rescanOver detectedBy walked c).1.establishing =
        (m.rescanOver detectedBy walked c).2.limits.abandoned := by
  have hevents : (Sweep.files m.establishing detectedBy c.inspected c.shouldContinue 0
      { baseline := m.baseline, outcome := { limits := walked.limits } }
      walked.files).outcome.events = [] := by
    rw [Sweep.files_eq, hm]
    dsimp only
    split_ifs
    · exact foldl_compare_establishing _ _ _ _
    · exact foldl_compare_establishing _ _ _ _
  rw [Monitor.rescanOver]
  generalize Sweep.files m.establishing detectedBy c.inspected c.shouldContinue 0
    { baseline := m.baseline, outcome := { limits := walked.limits } } walked.files = swept
    at hevents
  simp only [hm, Bool.not_true, Bool.false_and, Bool.false_eq_true, if_false]
  split_ifs with habandoned
  · exact ⟨hevents, habandoned.symm⟩
  · exact ⟨hevents, by simpa using habandoned⟩

theorem recheck_establishing (m : Monitor) (path : Path) (inspected : Inspection) :
    (m.recheck path inspected).1.establishing = m.establishing := by
  rw [Monitor.recheck]
  cases m.isWatched path with
  | false => rfl
  | true =>
    rcases inspected with _ | (_ | current)
    · rfl
    · cases hm : m.establishing with
      | true => exact hm
      | false =>
        dsimp only
        cases m.baseline.get path.key with
        | none => exact hm
        | some previous => rfl
    · rfl

theorem Installation.waits_step (s : Installation) (op : Op) (h : s.Waits)
    (hop : s.RestartsEmpty op) : (s.step op).1.Waits := by
  intro hestablished
  cases op with
  | call call =>
    simp only [Installation.step, Bool.or_eq_false_iff] at hestablished
    have hm := h hestablished.1
    cases call with
    | rescan detectedBy walked c =>
      have hcompletes := hestablished.2
      rw [Monitor.completes, hm, Bool.true_and, Bool.not_eq_false'] at hcompletes
      exact (rescanOver_establishing hm detectedBy walked c).2.trans hcompletes
    | recheck path inspected => exact (recheck_establishing _ _ _).trans hm
    | failingRescan detectedBy walked c left =>
      have hcompletes := hestablished.2
      rw [Monitor.completes, hm, Bool.true_and] at hcompletes
      change (s.monitor.rescanFallible detectedBy walked c left).1.establishing = true
      cases houtcome : (s.monitor.rescanFallible detectedBy walked c left).2 with
      | none =>
        obtain ⟨b, hafter, -⟩ := Monitor.rescanFallible_none houtcome
        rw [hafter]
        exact hm
      | some outcome =>
        rw [Monitor.rescanFallible_some houtcome] at hcompletes ⊢
        refine (rescanOver_establishing hm detectedBy walked c).2.trans ?_
        simpa using hcompletes
    | failingRecheck path inspected left =>
      change (s.monitor.recheckFallible path inspected left).1.establishing = true
      rw [Monitor.recheckFallible]
      split_ifs
      · exact hm
      · exact (recheck_establishing _ _ _).trans hm
  | restart => exact hop rfl hestablished

/-- As long as no restart before the first complete scan finds rows, no creation is fabricated. -/
theorem creations_not_fabricated (settings : FimSettings) (ops : List Op)
    (hops : Runs.Along Installation.step Installation.RestartsEmpty
    (Installation.new settings) ops) :
    FabricatesNothing settings ops := by
  intro before detectedBy walked c after heq run hestablished path record _ event hevent _
  rw [heq, Runs.along_append] at hops
  have hwaits : run.1.Waits := Runs.invariant_along Installation.step Installation.Waits
    Installation.RestartsEmpty Installation.waits_step (fun _ => rfl) hops.1
  have hsilent := (rescanOver_establishing (hwaits hestablished) detectedBy walked c).1
  have hevents : (run.1.step (.call (.rescan detectedBy walked c))).2 = [] := hsilent
  rw [hevents] at hevent
  exact absurd hevent List.not_mem_nil

/-! ### A restart in the middle of the first scan -/

/-- The file `shadow` beside `passwd`. -/
def otherPath : Path := sampleRoot ++ [⟨"shadow", 0, by decide, by decide⟩]

/-- A scan of `/etc` with both files in it, told to stop when it asks for the `stop`th time. -/
def sampleScan (stop : ℕ) : Op :=
  .call (.rescan .baselineRescan ⟨[samplePath, otherPath], {}, by decide +kernel⟩
    { inspected := fun _ => .ok (some ⟨some "a", 10, 0o644, 0, 0⟩)
      shouldContinue := fun i => i != stop })

/-- The first scan is stopped before it has looked at a file, the process restarts, and the next two
scans go on from there. -/
theorem creations_not_fabricated_sample :
    FabricatesNothing sampleSettings [sampleScan 0, .restart, sampleScan 1, sampleScan 2] :=
  creations_not_fabricated sampleSettings _
    ⟨fun h _ => (nomatch h), fun _ _ => (by decide +kernel), fun h _ => (nomatch h),
      fun h _ => (nomatch h), trivial⟩

/-- The first scan is stopped after one of two files and the process restarts. -/
theorem creation_fabricated :
    ¬∀ (settings : FimSettings) (ops : List Op), FabricatesNothing settings ops := by
  intro h
  have hnone := h sampleSettings [sampleScan 1, .restart, sampleScan 2] [sampleScan 1, .restart] _ _
    _ [] rfl (by decide +kernel) otherPath ⟨some "a", 10, 0o644, 0, 0⟩
  have hunchanged : ∀ op ∈ [sampleScan 1, .restart] ++ [sampleScan 2],
      op.Finds otherPath ⟨some "a", 10, 0o644, 0, 0⟩ := by
    intro op hop
    simp only [List.cons_append, List.nil_append, List.mem_cons, List.not_mem_nil, or_false] at hop
    rcases hop with rfl | rfl | rfl
    · exact fun found hfound => (Except.ok.inj hfound).symm
    · trivial
    · exact fun found hfound => (Except.ok.inj hfound).symm
  have hcreated : ((Runs.run Installation.step (Installation.new sampleSettings)
      [sampleScan 1, .restart]).1.step (sampleScan 2)).2 =
      [{ path := otherPath.key, change := .created, detectedBy := .baselineRescan, size := some 10,
         sha256 := some "a", mode := some 0o644, uid := some 0, gid := some 0 }] := by
    decide +kernel
  have hmem := List.mem_singleton_self (α := FimEvent)
    { path := otherPath.key, change := .created, detectedBy := .baselineRescan, size := some 10,
      sha256 := some "a", mode := some 0o644, uid := some 0, gid := some 0 }
  exact hnone hunchanged _ (hcreated ▸ hmem) rfl rfl

end CyberSentinel.Fim
