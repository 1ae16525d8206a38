import CyberSentinel.Addresses
import CyberSentinel.FlowTable
import CyberSentinel.Prefilter

/-!
# The detection engine

The engine ties the pre-filter and the evaluator to the state a rule set needs: flowbits, the
inspection windows of a flow's two directions, an HTTP parser, and threshold counters. All of it is
bounded. Host rules are compiled elsewhere and are set aside here.

A call returns its alerts and what the bounds did to it: the flow states it evicted, whether a match
went uncounted because the threshold table was full, whether a flowbit was refused, and the stream
region it inspected.
-/

namespace CyberSentinel.Detect

open Rules Tables

structure EngineLimits where
  compile : CompileLimits := {}
  maxFlowStates : ℕ := 65536
  maxFlowbitsPerFlow : ℕ := 64
  /-- Bytes of reassembled stream kept per direction. -/
  inspectionWindow : ℕ := 64 * 2 ^ 10
  maxThresholdEntries : ℕ := 65536
  normalize : NormalizeConfig := {}
  maxHttpHead : ℕ := defaultMaxHead
  deriving DecidableEq

def EngineLimits.ofConfig (c : Config) : EngineLimits where
  compile := ⟨c.detect.regexSizeLimit, c.detect.regexDfaSizeLimit⟩
  maxFlowStates := c.detect.maxFlowStates
  maxFlowbitsPerFlow := c.detect.maxFlowbitsPerFlow
  inspectionWindow := c.detect.inspectionWindow
  maxThresholdEntries := c.detect.maxThresholdEntries
  normalize := c.normalize

structure AlertRecord where
  sid : UInt32
  rev : UInt32
  signature : String
  classtype : Option String
  severity : UInt8
  metadata : List (String × List String)
  /-- What the rule asks for, not what happens. -/
  blocks : Bool
  deriving DecidableEq

structure EngineCounters where
  inspections : ℕ := 0
  bytesInspected : ℕ := 0
  candidates : ℕ := 0
  matched : ℕ := 0
  alerts : ℕ := 0
  thresholded : ℕ := 0
  silent : ℕ := 0
  flowStatesEvicted : ℕ := 0
  inspectionBytesDropped : ℕ := 0
  deriving DecidableEq

/-- A bounded view of one direction's stream, of which `scanned` bytes have been inspected. -/
structure InspectionBuffer where
  data : List UInt8 := []
  scanned : ℕ := 0
  deriving DecidableEq

structure Appended where
  buffer : InspectionBuffer
  /-- Where the region to inspect starts. -/
  start : ℕ
  dropped : ℕ
  deriving DecidableEq

/-- Append, drop what exceeds the window from the front, and step back by the overlap. -/
def InspectionBuffer.append (b : InspectionBuffer) (bytes : List UInt8) (overlap window : ℕ) :
    Appended :=
  let data := b.data ++ bytes
  let excess := data.length - window
  let kept := data.drop excess
  ⟨⟨kept, kept.length⟩, (b.scanned - excess) - overlap, excess⟩

structure FlowState where
  bits : FlowBits := {}
  toServer : InspectionBuffer := {}
  toClient : InspectionBuffer := {}
  lastSeen : Instant := 0
  http : Option HttpParser := none
  deriving DecidableEq

namespace FlowState

def direction (s : FlowState) (toServer : Bool) : InspectionBuffer :=
  if toServer then s.toServer else s.toClient

def setDirection (s : FlowState) (toServer : Bool) (b : InspectionBuffer) : FlowState :=
  if toServer then { s with toServer := b } else { s with toClient := b }

end FlowState

structure ThresholdEntry where
  count : UInt32
  windowStart : Instant
  deriving DecidableEq

/-- Counters by rule and by the text of what the rule tracks. Packets and host events share them. -/
abbrev Thresholds := Table (UInt32 × String) ThresholdEntry

structure Counted where
  thresholds : Thresholds
  allowed : Bool
  uncounted : Bool

def ThresholdKind.allows (kind : ThresholdKind) (seen count : UInt32) : Bool :=
  match kind with
  | .threshold => seen % count == 0
  | .limit => seen ≤ count
  | .both => seen == count

/-- Apply one event to a counter. A full table drops the counter rather than the alert. -/
def countAgainstThreshold (maxEntries : ℕ) (thresholds : Thresholds) (sid : UInt32)
    (threshold : Threshold) (key : String) (now : Instant) : Counted :=
  match thresholds.lookup (sid, key) with
  | none =>
    if maxEntries ≤ size thresholds then ⟨thresholds, true, true⟩
    else
      ⟨thresholds.insert (sid, key) ⟨1, now⟩, ThresholdKind.allows threshold.kind 1 threshold.count,
        false⟩
  | some entry =>
    let window := threshold.seconds.toNat * nanosPerSecond
    let entry := if window ≤ elapsed now entry.windowStart then ⟨0, now⟩ else entry
    let entry : ThresholdEntry := { entry with count := entry.count + 1 }
    ⟨thresholds.insert (sid, key) entry,
      ThresholdKind.allows threshold.kind entry.count threshold.count, false⟩

def Track.key (track : Track) (tuple : NetTuple) : String :=
  match track with
  | .bySource => tuple.srcIp.text
  | .byDestination => tuple.destIp.text
  | .byRule => ""

def thresholdAllows (maxEntries : ℕ) (thresholds : Thresholds) (sid : UInt32)
    (threshold : Option Threshold) (tuple : NetTuple) (now : Instant) : Counted :=
  match threshold with
  | none => ⟨thresholds, true, false⟩
  | some threshold =>
    countAgainstThreshold maxEntries thresholds sid threshold (Track.key threshold.track tuple) now

structure Tally where
  thresholds : Thresholds
  counters : EngineCounters
  pending : List FlowBitsOp := []
  alerts : List AlertRecord := []
  uncounted : Bool := false

variable {R : Regex} {A : AhoCorasick}

def CompiledRule.record (rule : CompiledRule R) : AlertRecord where
  sid := rule.sid
  rev := rule.rev
  signature := rule.msg
  classtype := rule.classtype
  severity := rule.severity
  metadata := rule.metadata
  blocks := rule.blocks

/-- A rule that matched: its side effects are kept, and it alerts unless it is silent or its
threshold holds the alert back. -/
def Tally.hit (t : Tally) (limits : EngineLimits) (tuple : NetTuple) (now : Instant)
    (rule : CompiledRule R) (outcome : MatchOutcome) : Tally :=
  let t := { t with counters := { t.counters with matched := t.counters.matched + 1 }
                    pending := t.pending ++ outcome.sideEffects }
  if rule.noAlert then
    { t with counters := { t.counters with silent := t.counters.silent + 1 } }
  else
    let counted := thresholdAllows limits.maxThresholdEntries t.thresholds rule.sid rule.threshold
      tuple now
    let t := { t with
      thresholds := counted.thresholds
      uncounted := t.uncounted || counted.uncounted }
    if counted.allowed then
      { t with counters := { t.counters with alerts := t.counters.alerts + 1 }
               alerts := t.alerts ++ [rule.record] }
    else { t with counters := { t.counters with thresholded := t.counters.thresholded + 1 } }

def Tally.judge (limits : EngineLimits) (input : MatchInput) (now : Instant) (bits : FlowBits)
    (t : Tally) (rule : CompiledRule R) : Tally :=
  match evaluate rule input bits with
  | none => t
  | some outcome => t.hit limits input.tuple now rule outcome

def FlowBits.refuses (b : FlowBits) (op : FlowBitsOp) (limit : ℕ) : Bool :=
  match op with
  | .set name | .toggle name => limit ≤ b.bits.card && !b.isSet name
  | _ => false

/-- Apply the pending side effects, noting whether one was refused. -/
def FlowBits.applyAll (limit : ℕ) : FlowBits → List FlowBitsOp → FlowBits × Bool
  | b, [] => (b, false)
  | b, op :: rest =>
    let applied := FlowBits.applyAll limit (b.apply op limit) rest
    (applied.1, b.refuses op limit || applied.2)

structure Engine (R : Regex) (A : AhoCorasick) where
  ruleset : CompiledRuleset R A
  limits : EngineLimits
  states : Table UInt64 FlowState
  thresholds : Thresholds
  counters : EngineCounters
  /-- Longest pattern of the rule set, for the overlap. -/
  longestPattern : ℕ

/-- A region handed to `inspect`, and the bytes its call dropped from the window before that. -/
structure Scan where
  region : List UInt8
  dropped : ℕ
  deriving DecidableEq

structure Output where
  alerts : List AlertRecord := []
  evicted : List UInt64 := []
  uncounted : Bool := false
  bitsRefused : Bool := false
  scan : Option Scan := none
  deriving DecidableEq

def Output.andThen (a b : Output) : Output where
  alerts := a.alerts ++ b.alerts
  evicted := a.evicted ++ b.evicted
  uncounted := a.uncounted || b.uncounted
  bitsRefused := a.bitsRefused || b.bitsRefused
  scan := a.scan.or b.scan

def longestPatternOf (rules : List (CompiledRule R)) : ℕ :=
  ((rules.flatMap CompiledRule.options).filterMap (fun option =>
    match option with
    | .content c => some c.pattern.length
    | _ => none)).foldr max 0

namespace Engine

def new (R : Regex) (A : AhoCorasick) (resolve : HeaderResolver) (limits : EngineLimits)
    (rules : List Rule) : Engine R A × CompileReport :=
  let compiled := CompiledRuleset.compile R A resolve limits.compile
    (rules.filter (fun rule => !rule.isHostRuleByOptions))
  ({ ruleset := compiled.1, limits := limits, states := ∅, thresholds := ∅, counters := {}
     longestPattern := longestPatternOf compiled.1.rules }, compiled.2)

/-- The flow ids to evict: the least recently used tenth of the table. -/
def evictees (e : Engine R A) (order : HashOrder UInt64) : List UInt64 :=
  let byAge := (iter order e.states).insertionSort (fun a b => a.2.lastSeen ≤ b.2.lastSeen)
  (byAge.take (max (e.limits.maxFlowStates / 10) 1)).map Prod.fst

def makeRoom (e : Engine R A) (order : HashOrder UInt64) : Engine R A × List UInt64 :=
  if size e.states < e.limits.maxFlowStates then (e, [])
  else
    let ids := e.evictees order
    ({ e with
        states := ids.foldl (fun states id => states.erase id) e.states
        counters := { e.counters with
          flowStatesEvicted := e.counters.flowStatesEvicted + ids.length } }, ids)

def stateOf (e : Engine R A) (flowId : UInt64) : FlowState := (e.states.lookup flowId).getD {}

def setState (e : Engine R A) (flowId : UInt64) (s : FlowState) : Engine R A :=
  { e with states := e.states.insert flowId s }

def applyPending (e : Engine R A) (order : HashOrder UInt64) (flowId : UInt64) (timestamp : Instant)
    (pending : List FlowBitsOp) : Engine R A × Output :=
  if pending = [] then (e, {})
  else
    let room := e.makeRoom order
    let state := room.1.stateOf flowId
    let applied := state.bits.applyAll e.limits.maxFlowbitsPerFlow pending
    (room.1.setState flowId { state with lastSeen := timestamp, bits := applied.1 },
      { evicted := room.2, bitsRefused := applied.2 })

def conclude (e : Engine R A) (order : HashOrder UInt64) (flowId : UInt64) (timestamp : Instant)
    (t : Tally) : Engine R A × Output :=
  let after := applyPending { e with thresholds := t.thresholds, counters := t.counters }
    order flowId timestamp t.pending
  (after.1, { after.2 with alerts := t.alerts, uncounted := t.uncounted })

def countInspection (e : Engine R A) (haystacks : List (Buffer × List UInt8)) : EngineCounters :=
  { e.counters with
    inspections := e.counters.inspections + 1
    bytesInspected := e.counters.bytesInspected + (haystacks.map (fun h => h.2.length)).sum
    candidates := e.counters.candidates + (e.ruleset.candidatesIn haystacks).length }

/-- Inspect, pre-filtering across several buffers at once. The flow's bits are read before any side
effect is applied. -/
def inspectBuffers (e : Engine R A) (order : HashOrder UInt64) (flowId : UInt64) (tuple : NetTuple)
    (toServer established : Bool) (buffers : Buffers) (prefilterBuffers : List Buffer)
    (timestamp : Instant) : Engine R A × Output :=
  let haystacks := buffers.haystacks prefilterBuffers
  let bits := ((e.states.lookup flowId).map FlowState.bits).getD {}
  e.conclude order flowId timestamp ((e.ruleset.candidatesIn haystacks).foldl (fun t index =>
      (e.ruleset.rule index).elim t
        (Tally.judge e.limits ⟨tuple, established, toServer, buffers⟩ timestamp bits t))
    { thresholds := e.thresholds, counters := e.countInspection haystacks })

def httpBuffers : List Buffer := [.httpUri, .httpHeader, .httpUserAgent, .httpMethod, .httpHost]

def requestBuffers (request : HttpRequest) : Buffers where
  payload := []
  httpUri := some request.uri
  httpHeader := some request.headers
  httpUserAgent := request.userAgent
  httpMethod := some request.method
  httpHost := request.host
  normalization := request.normalization

def inspectRequests (order : HashOrder UInt64) (flowId : UInt64) (tuple : NetTuple)
    (timestamp : Instant) : Engine R A → List HttpRequest → Engine R A × Output
  | e, [] => (e, {})
  | e, request :: rest =>
    let first := e.inspectBuffers order flowId tuple true true (requestBuffers request) httpBuffers
      timestamp
    let others := inspectRequests order flowId tuple timestamp first.1 rest
    (others.1, first.2.andThen others.2)

/-- Feed client-to-server bytes to the HTTP parser and inspect each head it completes. -/
def inspectHttp (e : Engine R A) (order : HashOrder UInt64) (flowId : UInt64) (tuple : NetTuple)
    (delivered : List UInt8) (timestamp : Instant) : Engine R A × Output :=
  match e.states.lookup flowId with
  | none => (e, {})
  | some state =>
    let parser := state.http.getD (HttpParser.new e.limits.maxHttpHead)
    let pushed := parser.push delivered e.limits.normalize
    inspectRequests order flowId tuple timestamp
      (e.setState flowId { state with http := some pushed.1 }) pushed.2

/-- Inspect a self-contained payload. Nothing accumulates. -/
def inspectPacket (e : Engine R A) (order : HashOrder UInt64) (flowId : UInt64) (tuple : NetTuple)
    (toServer : Bool) (payload : List UInt8) (timestamp : Instant) : Engine R A × Output :=
  e.inspectBuffers order flowId tuple toServer false { payload := payload } [.payload] timestamp

def extendWindow (e : Engine R A) (flowId : UInt64) (toServer : Bool) (delivered : List UInt8)
    (timestamp : Instant) : Engine R A × Scan :=
  let state := e.stateOf flowId
  let appended := (state.direction toServer).append delivered (e.longestPattern - 1)
    e.limits.inspectionWindow
  let e := e.setState flowId
    ({ state with lastSeen := timestamp }.setDirection toServer appended.buffer)
  ({ e with counters := { e.counters with
      inspectionBytesDropped := e.counters.inspectionBytesDropped + appended.dropped } },
    ⟨appended.buffer.data.drop appended.start, appended.dropped⟩)

/-- Inspect newly delivered stream bytes: only the new region and an overlap are scanned. -/
def inspectStream (e : Engine R A) (order : HashOrder UInt64) (flowId : UInt64) (tuple : NetTuple)
    (toServer : Bool) (delivered : List UInt8) (timestamp : Instant) : Engine R A × Output :=
  if delivered = [] then (e, {})
  else
    let room := e.makeRoom order
    let extended := room.1.extendWindow flowId toServer delivered timestamp
    let scanned := extended.1.inspectBuffers order flowId tuple toServer true
      { payload := extended.2.region } [.payload] timestamp
    let out := Output.andThen { evicted := room.2, scan := some extended.2 } scanned.2
    if toServer && e.ruleset.needsHttp then
      let http := scanned.1.inspectHttp order flowId tuple delivered timestamp
      (http.1, out.andThen http.2)
    else (scanned.1, out)

def onFlowEnd (e : Engine R A) (flowId : UInt64) : Engine R A :=
  { e with states := e.states.erase flowId }

end Engine

/-- A call on the engine, with the order in which the state table is walked if it has to be. -/
inductive Call
  | packet (order : HashOrder UInt64) (flowId : UInt64) (tuple : NetTuple) (toServer : Bool)
      (payload : List UInt8) (timestamp : Instant)
  | stream (order : HashOrder UInt64) (flowId : UInt64) (tuple : NetTuple) (toServer : Bool)
      (delivered : List UInt8) (timestamp : Instant)
  | flowEnd (flowId : UInt64)

def Engine.step (e : Engine R A) : Call → Engine R A × Output
  | .packet order flowId tuple toServer payload timestamp =>
    e.inspectPacket order flowId tuple toServer payload timestamp
  | .stream order flowId tuple toServer delivered timestamp =>
    e.inspectStream order flowId tuple toServer delivered timestamp
  | .flowEnd flowId => (e.onFlowEnd flowId, {})

end CyberSentinel.Detect
