import CyberSentinel.FilePaths
import CyberSentinel.HostEvents
import CyberSentinel.Tables

/-!
# File integrity monitoring

The watched trees are walked within bounds, every file found is inspected and compared with the
baseline, and rows of the baseline that the walk did not reach are taken for deleted. A notification
rechecks a single path. The baseline is a table from the texts of paths to records; its rows come in
some order. The filesystem is given by what its calls return.
-/

namespace CyberSentinel.Fim

open Tables

inductive FileKind
  | file
  | dir
  | symlink
  | other
  deriving DecidableEq, Repr

structure Metadata where
  kind : FileKind
  size : ℕ
  mode : UInt32
  uid : UInt32
  gid : UInt32
  deriving DecidableEq, Repr

inductive IoError
  | notFound
  | other
  deriving DecidableEq, Repr

structure FileSystem where
  /-- Symbolic links are not followed at the end of the path. -/
  symlinkMetadata : Path → Except IoError Metadata
  /-- The names in a directory; an entry that could not be read has none. -/
  readDir : Path → Option (List (Option FileName))
  hashFile : Path → Option String

structure FimSettings where
  paths : List Path
  maxFileBytes : ℕ := 64 * 2 ^ 20
  maxDepth : ℕ := 16
  maxEntries : ℕ := 50000

structure FileRecord where
  /-- Absent for files too large to hash or unreadable. -/
  sha256 : Option String
  size : ℕ
  mode : UInt32
  uid : UInt32
  gid : UInt32
  deriving DecidableEq, Repr

/-- What looking at a path comes to: an error, no regular file, or its record. -/
abbrev Inspection := Except IoError (Option FileRecord)

def inspect (fs : FileSystem) (path : Path) (maxFileBytes : ℕ) : Inspection :=
  match fs.symlinkMetadata path with
  | .error .notFound => .ok none
  | .error .other => .error .other
  | .ok m =>
    if m.kind ≠ .file then .ok none
    else
      .ok (some ⟨if m.size ≤ maxFileBytes then fs.hashFile path else none, m.size, m.mode, m.uid,
        m.gid⟩)

abbrev Baseline := Table String FileRecord

namespace Baseline

def get (b : Baseline) (path : String) : Option FileRecord := b.lookup path

def put (b : Baseline) (path : String) (record : FileRecord) : Baseline :=
  b.insert path { record with size := min record.size (2 ^ 63 - 1) }

def remove (b : Baseline) (path : String) : Baseline := b.erase path

/-- `LIKE` with an escaped text and a wildcard after it: ASCII letters match in either case. -/
def likeUnder (root path : String) : Bool :=
  (root.toList.map Char.toLower).isPrefixOf (path.toList.map Char.toLower)

def pathsUnder (b : Baseline) (order : HashOrder String) (root : String) : List String :=
  (order.arrange b.keys).filter (likeUnder root)

def isEmpty (b : Baseline) : Bool := size b == 0

end Baseline

structure WalkLimits where
  overEntryLimit : ℕ := 0
  overDepthLimit : ℕ := 0
  unreadable : ℕ := 0
  symlinksSkipped : ℕ := 0
  abandoned : Bool := false
  deriving DecidableEq, Repr

def WalkLimits.truncated (l : WalkLimits) : Bool :=
  l.abandoned || 0 < l.overEntryLimit || 0 < l.overDepthLimit || 0 < l.unreadable

structure WalkState where
  found : Finset Path := ∅
  limits : WalkLimits := {}

namespace WalkState

def noteUnreadable (s : WalkState) (count : ℕ) : WalkState :=
  { s with limits := { s.limits with unreadable := s.limits.unreadable + count } }

/-- Look at a path; a directory is left to `descend`. -/
def look (fs : FileSystem) (maxEntries : ℕ) (path : Path) (descend : WalkState → WalkState)
    (s : WalkState) : WalkState :=
  match fs.symlinkMetadata path with
  | .error _ => s.noteUnreadable 1
  | .ok m =>
    match m.kind with
    | .symlink =>
      { s with limits := { s.limits with symlinksSkipped := s.limits.symlinksSkipped + 1 } }
    | .file =>
      if maxEntries ≤ s.found.card then
        { s with limits := { s.limits with overEntryLimit := s.limits.overEntryLimit + 1 } }
      else { s with found := insert path s.found }
    | .dir => descend s
    | .other => s

/-- Visit a path and what is below it, over at most `remaining` levels. The stack of the walk hands
back the entry pushed last with its whole subtree before the one pushed before it. -/
def visit (fs : FileSystem) (maxEntries : ℕ) : ℕ → WalkState → Path → WalkState
  | 0, s, path =>
    look fs maxEntries path (fun s =>
      { s with limits := { s.limits with overDepthLimit := s.limits.overDepthLimit + 1 } }) s
  | remaining + 1, s, path =>
    look fs maxEntries path (fun s =>
      match fs.readDir path with
      | none => s.noteUnreadable 1
      | some entries =>
        entries.reduceOption.reverse.foldl
          (fun s name => visit fs maxEntries remaining s (path ++ [name]))
          (s.noteUnreadable (entries.countP Option.isNone))) s

end WalkState

structure Walked where
  files : List Path
  limits : WalkLimits
  nodup : files.Nodup

def walk (fs : FileSystem) (settings : FimSettings) : Walked :=
  let s := settings.paths.foldl (WalkState.visit fs settings.maxEntries settings.maxDepth) {}
  ⟨s.found.sort (· ≤ ·), s.limits, s.found.sort_nodup _⟩

def contentChanged (previous current : FileRecord) : Bool :=
  match previous.sha256, current.sha256 with
  | some before, some after => before != after
  | _, _ => previous.size != current.size

/-- Compare a file against its baseline entry. Content changes outrank attribute changes. -/
def difference (path : String) (previous : Option FileRecord) (current : FileRecord)
    (detectedBy : FimDetection) : Option FimEvent :=
  let event (change : FileChange) (previousSha256 : Option String) : FimEvent :=
    { path, change, detectedBy, size := some current.size, sha256 := current.sha256, previousSha256,
      mode := some current.mode, uid := some current.uid, gid := some current.gid }
  match previous with
  | none => some (event .created none)
  | some previous =>
    if contentChanged previous current then some (event .modified previous.sha256)
    else if previous.mode ≠ current.mode ∨ previous.uid ≠ current.uid ∨
      previous.gid ≠ current.gid then
      some (event .attributesChanged previous.sha256)
    else none

def deletedEvent (path : String) (previous : Option FileRecord) (detectedBy : FimDetection) :
    FimEvent where
  path := path
  change := .deleted
  detectedBy := detectedBy
  previousSha256 := previous.bind FileRecord.sha256

structure RescanOutcome where
  events : List FimEvent := []
  filesSeen : ℕ := 0
  limits : WalkLimits := {}

structure Monitor where
  settings : FimSettings
  baseline : Baseline
  /-- Whether the baseline still has to be established. -/
  establishing : Bool

structure Sweep where
  baseline : Baseline
  outcome : RescanOutcome := {}
  seen : Finset String := ∅

namespace Sweep

def compare (establishing : Bool) (detectedBy : FimDetection) (inspected : Path → Inspection)
    (s : Sweep) (path : Path) : Sweep :=
  let key := path.key
  let s := { s with
    seen := insert key s.seen
    outcome := { s.outcome with filesSeen := s.outcome.filesSeen + 1 } }
  match inspected path with
  | .ok (some current) =>
    let previous := s.baseline.get key
    let s := { s with baseline := s.baseline.put key current }
    if establishing then s
    else
      { s with outcome := { s.outcome with
          events := s.outcome.events ++ (difference key previous current detectedBy).toList } }
  | .ok none => s
  | .error _ =>
    { s with outcome := { s.outcome with limits := { s.outcome.limits with
        unreadable := s.outcome.limits.unreadable + 1 } } }

/-- The loop over the files. It asks whether to go on before each of them, for the `i`th time. -/
def files (establishing : Bool) (detectedBy : FimDetection) (inspected : Path → Inspection)
    (shouldContinue : ℕ → Bool) : ℕ → Sweep → List Path → Sweep
  | _, s, [] => s
  | i, s, path :: rest =>
    if shouldContinue i then
      files establishing detectedBy inspected shouldContinue (i + 1)
        (s.compare establishing detectedBy inspected path) rest
    else
      { s with outcome := { s.outcome with limits := { s.outcome.limits with abandoned := true } } }

def forget (detectedBy : FimDetection) (s : Sweep) (known : String) : Sweep :=
  if known ∈ s.seen then s
  else
    { s with
      baseline := s.baseline.remove known
      outcome := { s.outcome with
        events := s.outcome.events ++ [deletedEvent known (s.baseline.get known) detectedBy] } }

def forgetUnder (detectedBy : FimDetection) (order : HashOrder String) (s : Sweep) (root : Path) :
    Sweep :=
  (s.baseline.pathsUnder order root.key).foldl (forget detectedBy) s

end Sweep

namespace Monitor

/-- Build a monitor over an open baseline: whether this is a first run is decided here. -/
def new (settings : FimSettings) (baseline : Baseline) : Monitor where
  settings := settings
  baseline := baseline
  establishing := baseline.isEmpty

/-- What happens to the outside while a scan runs: what looking at each file comes to, the answers
to whether it should go on, and the order of the rows. -/
structure Conditions where
  inspected : Path → Inspection
  shouldContinue : ℕ → Bool := fun _ => true
  order : HashOrder String := HashOrder.asStored _

/-- Compare what a walk found with the baseline. Rows are only taken for deleted when nothing was
left out, and only a scan that was not abandoned has established anything. -/
def rescanOver (m : Monitor) (detectedBy : FimDetection) (walked : Walked) (c : Conditions) :
    Monitor × RescanOutcome :=
  let swept := Sweep.files m.establishing detectedBy c.inspected c.shouldContinue 0
    { baseline := m.baseline, outcome := { limits := walked.limits } } walked.files
  if swept.outcome.limits.abandoned then
    ({ m with baseline := swept.baseline }, swept.outcome)
  else
    let cleared :=
      if !m.establishing && !swept.outcome.limits.truncated then
        m.settings.paths.foldl (Sweep.forgetUnder detectedBy c.order) swept
      else swept
    ({ m with baseline := cleared.baseline, establishing := false }, cleared.outcome)

/-- Walk the configured roots and report every difference from the baseline, abandoned as soon as
`shouldContinue` says stop. -/
def rescanUntil (m : Monitor) (detectedBy : FimDetection) (fs : FileSystem) (c : Conditions) :
    Monitor × RescanOutcome :=
  m.rescanOver detectedBy (walk fs m.settings) c

def rescan (m : Monitor) (detectedBy : FimDetection) (fs : FileSystem) (order : HashOrder String) :
    Monitor × RescanOutcome :=
  m.rescanUntil detectedBy fs
    { inspected := fun path => inspect fs path m.settings.maxFileBytes, order := order }

def isWatched (m : Monitor) (path : Path) : Bool := m.settings.paths.any (Path.startsWith path)

def recheck (m : Monitor) (path : Path) (inspected : Inspection) : Monitor × Option FimEvent :=
  if !m.isWatched path then (m, none)
  else
    let key := path.key
    let previous := m.baseline.get key
    match inspected with
    | .ok (some current) =>
      -- while establishing there is nothing to compare against
      ({ m with baseline := m.baseline.put key current },
        if m.establishing then none else difference key previous current .realTime)
    | .ok none =>
      if m.establishing then (m, none)
      else
        match previous with
        | none => (m, none)
        | some previous =>
          ({ m with baseline := m.baseline.remove key },
            some (deletedEvent key (some previous) .realTime))
    | .error _ => (m, none)

end Monitor
end CyberSentinel.Fim
