import CyberSentinel.Engine
import CyberSentinel.HostEvents

/-!
# Host rules

Host events are records with named fields, and a host rule is compared with them directly:
candidates are the rules for the kind of the record, in order. Thresholds, alerts and counters are
as for packets, and in the same tables. The flowbits are one set, because there is one host. The
regular expressions are those of the `regex` crate, given by what building and matching return.
-/

namespace CyberSentinel.Detect

open Rules Tables

inductive HostObservation
  | fim (event : FimEvent)
  | auth (event : AuthEvent)
  | process (event : ProcessEvent)
  deriving DecidableEq

namespace HostObservation

def kind : HostObservation → HostEventKind
  | fim _ => .fim
  | auth _ => .auth
  | process _ => .process

def field : HostObservation → HostField → Option String
  | fim event, .filePath => some event.path
  | fim event, .fileChange => some event.change.asStr
  | auth event, .authOutcome => some event.outcome.asStr
  | auth event, .authUser => event.user
  | auth event, .authService => event.service
  | auth event, .authSource => event.sourceAddress.map IpAddr.text
  | process event, .processName => some event.name
  | process event, .processChange => some event.change.asStr
  | process event, .processCommandLine => event.commandLine
  | _, _ => none

/-- What a `track by_src` threshold counts against: who did this. -/
def subject : HostObservation → String
  | fim event => event.path
  | auth event => ((event.sourceAddress.map IpAddr.text).or event.user).getD ""
  | process event => event.name

end HostObservation

structure TextRegex where
  Matcher : Type
  build : String → CompileLimits → Except String Matcher
  isMatch : Matcher → String → Bool

inductive CompiledMatcher (T : TextRegex)
  | anyOf (values : List String) (kind : HostMatchKind) (nocase : Bool)
  | regex (matcher : T.Matcher)

def toAsciiLowercase (text : String) : String := String.ofList (text.toList.map Char.toLower)

def HostMatchKind.compare (kind : HostMatchKind) (value candidate : String) : Bool :=
  match kind with
  | .exact => value == candidate
  | .startsWith => candidate.toList.isPrefixOf value.toList
  | .contains => value.toList.tails.any (fun rest => candidate.toList.isPrefixOf rest)

def CompiledMatcher.matches {T : TextRegex} : CompiledMatcher T → String → Bool
  | anyOf values kind nocase, value =>
    values.any fun candidate =>
      if nocase then
        HostMatchKind.compare kind (toAsciiLowercase value) (toAsciiLowercase candidate)
      else HostMatchKind.compare kind value candidate
  | regex matcher, value => T.isMatch matcher value

inductive CompiledCondition (T : TextRegex)
  | field (field : HostField) (negated : Bool) (matcher : CompiledMatcher T)
  | bitIsSet (name : String)
  | bitIsNotSet (name : String)
  | bitEffect (op : FlowBitsOp)

structure CompiledHostRule (T : TextRegex) where
  sid : UInt32
  rev : UInt32
  msg : String
  classtype : Option String
  severity : UInt8
  metadata : List (String × List String)
  kind : HostEventKind
  threshold : Option Threshold
  noAlert : Bool
  origin : String
  conditions : List (CompiledCondition T)

inductive HostCompileError
  /-- `no host field conditions` -/
  | noHostFields
  /-- `mixes {first} and {second} fields, so it could never match one event` -/
  | mixedKinds (first second : HostEventKind)
  /-- `{option} is not a host condition` -/
  | notHostCondition (option : RuleOption)
  | regex (expression reason : String)

/-- The kind of event the options name fields of, or the two kinds that conflict. -/
def hostEventKind : Option HostEventKind → List RuleOption →
    Except (HostEventKind × HostEventKind) (Option HostEventKind)
  | found, [] => .ok found
  | found, option :: rest =>
    match option.hostEventKind, found with
    | none, _ => hostEventKind found rest
    | some kind, none => hostEventKind (some kind) rest
    | some kind, some existing =>
      if existing ≠ kind then .error (existing, kind) else hostEventKind (some kind) rest

variable (T : TextRegex)

def compileMatcher (limits : CompileLimits) :
    HostMatcher → Except HostCompileError (CompiledMatcher T)
  | .anyOf values kind nocase => .ok (.anyOf values kind nocase)
  | .regex source =>
    match T.build source limits with
    | .ok matcher => .ok (.regex matcher)
    | .error reason => .error (.regex source reason)

/-- Anything the host evaluator cannot answer is refused: a condition ignored would widen the
rule. -/
def compileCondition (limits : CompileLimits) :
    RuleOption → Except HostCompileError (CompiledCondition T)
  | .host h =>
    match compileMatcher T limits h.matcher with
    | .ok matcher => .ok (.field h.field h.negated matcher)
    | .error error => .error error
  | .flowBits (.isSet name) => .ok (.bitIsSet name)
  | .flowBits (.isNotSet name) => .ok (.bitIsNotSet name)
  | .flowBits op => .ok (.bitEffect op)
  | other => .error (.notHostCondition other)

def compileConditions (limits : CompileLimits) :
    List RuleOption → Except HostCompileError (List (CompiledCondition T))
  | [] => .ok []
  | option :: rest =>
    match compileCondition T limits option with
    | .error error => .error error
    | .ok condition =>
      match compileConditions limits rest with
      | .error error => .error error
      | .ok others => .ok (condition :: others)

def compileHostRule (limits : CompileLimits) (rule : Rule) :
    Except HostCompileError (CompiledHostRule T) :=
  match hostEventKind none rule.options with
  | .ok none => .error .noHostFields
  | .error (first, second) => .error (.mixedKinds first second)
  | .ok (some kind) =>
    match compileConditions T limits rule.options with
    | .error error => .error error
    | .ok conditions =>
      .ok { sid := rule.sid, rev := rule.rev, msg := rule.msg, classtype := rule.classtype,
            severity := rule.severity, metadata := groupMetadata rule.metadata, kind := kind,
            threshold := rule.threshold, noAlert := rule.noAlert, origin := rule.location,
            conditions := conditions }

def armedHost (limits : CompileLimits) (rule : Rule) : Option (CompiledHostRule T) :=
  if rule.isEvaluable then (compileHostRule T limits rule).toOption else none

structure HostRuleset where
  rules : List (CompiledHostRule T)

/-- Never fails as a whole: what cannot be compiled is left out. -/
def HostRuleset.compile (limits : CompileLimits) (rules : List Rule) : HostRuleset T where
  rules := rules.filterMap (armedHost T limits)

variable {T}

def HostRuleset.candidates (s : HostRuleset T) (kind : HostEventKind) : List (CompiledHostRule T) :=
  s.rules.filter (fun rule => rule.kind = kind)

def evaluateConditions (observation : HostObservation) (bits : FlowBits) :
    List (CompiledCondition T) → Option (List FlowBitsOp)
  | [] => some []
  | .field field negated matcher :: rest =>
    -- an absent value is not evidence, for a negated condition neither
    match observation.field field with
    | none => none
    | some value =>
      if matcher.matches value = negated then none else evaluateConditions observation bits rest
  | .bitIsSet name :: rest =>
    if bits.isSet name then evaluateConditions observation bits rest else none
  | .bitIsNotSet name :: rest =>
    if bits.isSet name then none else evaluateConditions observation bits rest
  | .bitEffect op :: rest => (evaluateConditions observation bits rest).map (op :: ·)

def evaluateHost (rule : CompiledHostRule T) (observation : HostObservation) (bits : FlowBits) :
    Option MatchOutcome :=
  if rule.kind ≠ observation.kind then none
  else (evaluateConditions observation bits rule.conditions).map (fun effects => ⟨effects⟩)

/-- Apply one event to a counter and say whether it alerts; the packet and the host path share it,
only the key differs. A full table drops the counter rather than the alert. -/
def countEvent {κ : Type*} [DecidableEq κ] (maxEntries : ℕ)
    (thresholds : Table (UInt32 × κ) ThresholdEntry) (sid : UInt32)
    (threshold : Threshold) (key : κ)
    (now : Instant) : Table (UInt32 × κ) ThresholdEntry × Bool :=
  match thresholds.lookup (sid, key) with
  | none =>
    if maxEntries ≤ size thresholds then (thresholds, true)
    else
      (thresholds.insert (sid, key) ⟨1, now⟩,
        ThresholdKind.allows threshold.kind 1 threshold.count)
  | some entry =>
    let window := threshold.seconds.toNat * nanosPerSecond
    let entry := if window ≤ elapsed now entry.windowStart then ⟨0, now⟩ else entry
    let entry : ThresholdEntry := { entry with count := entry.count + 1 }
    (thresholds.insert (sid, key) entry,
      ThresholdKind.allows threshold.kind entry.count threshold.count)

theorem countAgainstThreshold_eq (maxEntries : ℕ) (thresholds : Thresholds) (sid : UInt32)
    (threshold : Threshold) (key : String) (now : Instant) :
    (countAgainstThreshold maxEntries thresholds sid threshold key now).thresholds =
        (countEvent maxEntries thresholds sid threshold key now).1 ∧
      (countAgainstThreshold maxEntries thresholds sid threshold key now).allowed =
        (countEvent maxEntries thresholds sid threshold key now).2 := by
  rw [countAgainstThreshold, countEvent]
  cases thresholds.lookup (sid, key) with
  | none =>
    dsimp only
    split_ifs
    · exact ⟨rfl, rfl⟩
    · exact ⟨rfl, rfl⟩
  | some entry => exact ⟨rfl, rfl⟩

def Track.hostKey (track : Track) (subject : String) : String :=
  match track with
  | .bySource => subject
  | .byDestination | .byRule => ""

def hostThresholdAllows (maxEntries : ℕ) (thresholds : Thresholds) (sid : UInt32)
    (threshold : Option Threshold) (subject : String) (now : Instant) : Thresholds × Bool :=
  match threshold with
  | none => (thresholds, true)
  | some threshold =>
    countEvent maxEntries thresholds sid threshold (Track.hostKey threshold.track subject) now

structure HostTally where
  thresholds : Thresholds
  counters : EngineCounters
  pending : List FlowBitsOp := []
  alerts : List AlertRecord := []

/-- Host rules never block: there is no packet to drop. -/
def CompiledHostRule.record (rule : CompiledHostRule T) : AlertRecord where
  sid := rule.sid
  rev := rule.rev
  signature := rule.msg
  classtype := rule.classtype
  severity := rule.severity
  metadata := rule.metadata
  blocks := false

def HostTally.hit (t : HostTally) (limits : EngineLimits) (subject : String) (now : Instant)
    (rule : CompiledHostRule T) (outcome : MatchOutcome) : HostTally :=
  let t := { t with counters := { t.counters with matched := t.counters.matched + 1 }
                    pending := t.pending ++ outcome.sideEffects }
  if rule.noAlert then
    { t with counters := { t.counters with silent := t.counters.silent + 1 } }
  else
    let counted := hostThresholdAllows limits.maxThresholdEntries t.thresholds rule.sid
      rule.threshold subject now
    let t := { t with thresholds := counted.1 }
    if counted.2 then
      { t with counters := { t.counters with alerts := t.counters.alerts + 1 }
               alerts := t.alerts ++ [rule.record] }
    else { t with counters := { t.counters with thresholded := t.counters.thresholded + 1 } }

def HostTally.judge (limits : EngineLimits) (observation : HostObservation) (now : Instant)
    (bits : FlowBits) (t : HostTally) (rule : CompiledHostRule T) : HostTally :=
  match evaluateHost rule observation bits with
  | none => t
  | some outcome => t.hit limits observation.subject now rule outcome

structure HostEngine (T : TextRegex) where
  rules : HostRuleset T
  limits : EngineLimits
  thresholds : Thresholds
  counters : EngineCounters
  bits : FlowBits

namespace HostEngine

def inspectHost (e : HostEngine T) (observation : HostObservation) (timestamp : Instant) :
    HostEngine T × List AlertRecord :=
  let candidates := e.rules.candidates observation.kind
  if candidates = [] then (e, [])
  else
    let t := candidates.foldl (HostTally.judge e.limits observation timestamp e.bits)
      { thresholds := e.thresholds
        counters := { e.counters with inspections := e.counters.inspections + 1 } }
    ({ e with
        thresholds := t.thresholds
        counters := t.counters
        bits := (e.bits.applyAll e.limits.maxFlowbitsPerFlow t.pending).1 }, t.alerts)

end HostEngine

/-- What only host events meet: the host rules, and their bits. -/
structure HostSide (T : TextRegex) where
  rules : HostRuleset T
  bits : FlowBits := {}

def HostSide.new (T : TextRegex) (limits : EngineLimits) (rules : List Rule) : HostSide T where
  rules := HostRuleset.compile T limits.compile (rules.filter Rule.isHostRuleByOptions)

variable {R : Regex} {A : AhoCorasick}

namespace Engine

/-- The threshold table and its capacity, like the counters, are those that packets meet. -/
def hostPart (e : Engine R A) (host : HostSide T) : HostEngine T where
  rules := host.rules
  limits := e.limits
  thresholds := e.thresholds
  counters := e.counters
  bits := host.bits

def inspectHost (e : Engine R A) (host : HostSide T) (observation : HostObservation)
    (timestamp : Instant) : Engine R A × HostSide T × List AlertRecord :=
  let inspected := (e.hostPart host).inspectHost observation timestamp
  ({ e with thresholds := inspected.1.thresholds, counters := inspected.1.counters },
    { host with bits := inspected.1.bits }, inspected.2)

end Engine
end CyberSentinel.Detect
