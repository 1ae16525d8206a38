import CyberSentinel.BlockCapacity
import CyberSentinel.Correlation
import CyberSentinel.Decode
import CyberSentinel.FimThread
import CyberSentinel.HostRules
import CyberSentinel.Processes
import CyberSentinel.VerdictPath

/-!
# What the sensor reports

The detection thread turns what the pipeline and the engine found into events: an alert for every
match, with what was done about it, an anomaly for a malformed packet, a flow event for every flow
that has ended, the host's own findings, and the incidents that correlation completes. The verdict
thread runs beside it. The detection thread's work is taken here piece by piece, so that the verdict
thread can step between any two of them. Events are offered to the log: its emitter drops them when
its queue is full, and returns nothing that the sensor looks at.
-/

namespace CyberSentinel

open Tables Detect
open Correlation (Correlator Domain EventKind IncidentEvent)
open Prevent (AlertAction Enforcement PreventionSettings Received StoreCall)
open Processes (SweepEvent)

/-- The last second that a date can be given for: the end of the year 9999. -/
def lastSecond : ℕ := 253402300799

/-- An event is stamped in whole microseconds, never ahead of its time. A time before the epoch, or
one that has no date, counts as the epoch. -/
def toTimestamp (time : Instant) : Instant :=
  let sinceEpoch := elapsed time 0
  if sinceEpoch / nanosPerSecond ≤ lastSecond then (sinceEpoch / 1000 * 1000 : ℕ) else 0

inductive AlertSource
  | network
  | host
  deriving DecidableEq, Repr

structure AlertEvent where
  /-- What was done, not what the rule asked for. -/
  action : AlertAction
  source : AlertSource
  sid : UInt32
  rev : UInt32
  signature : String
  classtype : Option String
  severity : UInt8
  metadata : List (String × List String)
  deriving DecidableEq

structure AnomalyRecord where
  layer : String
  kind : String
  deriving DecidableEq, Repr

structure AnomalyEvent where
  anomalies : List AnomalyRecord
  interface : String
  capturedLen : UInt32
  packetLen : UInt32
  anomaliesTruncated : Bool
  deriving DecidableEq, Repr

structure FlowEvent where
  reason : EndReason
  start : Instant
  stop : Instant
  durationMs : UInt64
  packetsToServer : ℕ
  bytesToServer : ℕ
  packetsToClient : ℕ
  bytesToClient : ℕ
  tcpFlags : Option String
  deriving DecidableEq, Repr

inductive Payload
  | alert (event : AlertEvent)
  | anomaly (event : AnomalyEvent)
  | flow (event : FlowEvent)
  | fim (event : FimEvent)
  | auth (event : AuthEvent)
  | process (event : SweepEvent)
  | incident (event : IncidentEvent)
  deriving DecidableEq

def Payload.kind : Payload → EventKind
  | alert _ => .alert
  | anomaly _ => .anomaly
  | flow _ => .flow
  | fim _ => .fim
  | auth _ => .auth
  | process _ => .process
  | incident _ => .incident

structure SensorEvent where
  timestamp : Instant
  flowId : Option UInt64 := none
  net : Option NetTuple := none
  payload : Payload
  deriving DecidableEq

/-- An alert event carries the record of the match and what was done about it. -/
def Detect.AlertRecord.event (record : AlertRecord) (action : AlertAction) (source : AlertSource) :
    AlertEvent where
  action := action
  source := source
  sid := record.sid
  rev := record.rev
  signature := record.signature
  classtype := record.classtype
  severity := record.severity
  metadata := record.metadata

/-- The TCP flags seen, as their letters in the order of their bits. -/
def Flow.tcpFlagsString (flow : Flow) : Option String :=
  if flow.key.protocol ≠ tcpProtocol then none
  else
    some (String.ofList ((("FSRPAUEC".toList.zipIdx).filter
      (fun letter => flow.tcpFlagsSeen &&& (1 <<< UInt8.ofNat letter.2) ≠ 0)).map Prod.fst))

def Flow.orientedTuple (flow : Flow) : NetTuple where
  srcIp := flow.initiator.ip
  srcPort := portOrNone flow.initiator.port
  destIp := flow.responder.ip
  destPort := portOrNone flow.responder.port
  proto := protocolFromNumber flow.key.protocol

def EndedFlow.flowEvent (ended : EndedFlow) : FlowEvent where
  reason := ended.reason
  start := toTimestamp ended.flow.start
  stop := toTimestamp ended.flow.lastSeen
  durationMs := UInt64.ofNat
    (min (elapsed ended.flow.lastSeen ended.flow.start / 1000000) (2 ^ 64 - 1))
  packetsToServer := ended.flow.toServer.packets
  bytesToServer := ended.flow.toServer.bytes
  packetsToClient := ended.flow.toClient.packets
  bytesToClient := ended.flow.toClient.bytes
  tcpFlags := ended.flow.tcpFlagsString

def EndedFlow.event (ended : EndedFlow) : SensorEvent where
  timestamp := toTimestamp ended.flow.lastSeen
  flowId := some ended.flow.id
  net := some ended.flow.orientedTuple
  payload := .flow ended.flowEvent

namespace Decode

def Layer.asStr : Layer → String
  | ethernet => "ethernet"
  | vlan => "vlan"
  | ipv4 => "ipv4"
  | ipv6 => "ipv6"
  | tcp => "tcp"
  | udp => "udp"
  | icmp => "icmp"

def AnomalyKind.asStr : AnomalyKind → String
  | truncatedHeader => "truncated_header"
  | lengthMismatch => "length_mismatch"
  | impossibleLength => "impossible_length"
  | unknownIpVersion => "unknown_ip_version"
  | badIpv4Checksum => "bad_ipv4_checksum"
  | tooManyLayers => "too_many_layers"
  | emptyFrame => "empty_frame"

def Anomaly.record (anomaly : Anomaly) : AnomalyRecord := ⟨anomaly.layer.asStr, anomaly.kind.asStr⟩

structure DecodeCounters where
  packets : ℕ := 0
  ipv4 : ℕ := 0
  ipv6 : ℕ := 0
  tcp : ℕ := 0
  udp : ℕ := 0
  icmp : ℕ := 0
  otherTransport : ℕ := 0
  nonIp : ℕ := 0
  fragments : ℕ := 0
  snapped : ℕ := 0
  anomalous : ℕ := 0
  anomalies : ℕ := 0
  deriving DecidableEq, Repr

def DecodeCounters.record (c : DecodeCounters) (d : DecodedFrame) : DecodeCounters where
  packets := c.packets + 1
  ipv4 := c.ipv4 + match d.network with | some (.ipv4 _) => 1 | _ => 0
  ipv6 := c.ipv6 + match d.network with | some (.ipv6 _) => 1 | _ => 0
  tcp := c.tcp + match d.transport with | some (.tcp _) => 1 | _ => 0
  udp := c.udp + match d.transport with | some (.udp _) => 1 | _ => 0
  icmp := c.icmp + match d.transport with | some .icmp => 1 | _ => 0
  otherTransport := c.otherTransport + match d.transport with | some (.other _) => 1 | _ => 0
  nonIp := c.nonIp + if d.network.isNone then 1 else 0
  fragments := c.fragments + if d.network.any Network.isFragment then 1 else 0
  snapped := c.snapped + if d.isSnapped then 1 else 0
  anomalous := c.anomalous + if d.anomalies.found = [] then 0 else 1
  anomalies := c.anomalies + d.anomalies.found.length

end Decode

def Transport.protocol : Transport → Protocol
  | tcp _ => .tcp
  | udp _ => .udp
  | icmp => .icmp
  | other _ => .ip

def Decoded.fiveTuple (d : Decoded) : Option NetTuple :=
  d.network.map fun network =>
    { srcIp := network.source
      srcPort := d.transport.bind Transport.sourcePort
      destIp := network.destination
      destPort := d.transport.bind Transport.destinationPort
      proto := (d.transport.map Transport.protocol).getD .ip }

def clampU32 (length : ℕ) : UInt32 := UInt32.ofNat (min length (2 ^ 32 - 1))

def anomalyEvent (interface : String) (packet : RawPacket) (decoded : Decode.DecodedFrame)
    (flowId : Option UInt64) : SensorEvent where
  timestamp := toTimestamp packet.timestamp
  flowId := flowId
  net := decoded.fiveTuple
  payload := .anomaly
    { anomalies := decoded.anomalies.found.map Decode.Anomaly.record
      interface := interface
      capturedLen := clampU32 packet.data.length
      packetLen := clampU32 packet.originalLen
      anomaliesTruncated := decoded.anomalies.overflowed }

inductive HostFinding
  | fim (event : FimEvent)
  | auth (event : AuthEvent)
  | process (event : SweepEvent)
  deriving DecidableEq

namespace HostFinding

def observation : HostFinding → HostObservation
  | fim event => .fim event
  | auth event => .auth event
  | process event => .process event.toProcessEvent

def payload : HostFinding → Payload
  | fim event => .fim event
  | auth event => .auth event
  | process event => .process event

def summary : HostFinding → String
  | fim event => event.change.asStr ++ " " ++ event.path
  | auth event =>
    event.outcome.asStr ++ " authentication for " ++ event.user.getD "an unnamed account"
  | process event =>
    event.change.asStr ++ " " ++ event.name ++ " (pid " ++ toString event.pid ++ ")"

end HostFinding

structure HostBatch extends Fim.HostBatch where
  auth : List AuthEvent := []
  process : List SweepEvent := []

def HostBatch.findings (batch : HostBatch) : List HostFinding :=
  batch.fim.map .fim ++ batch.auth.map .auth ++ batch.process.map .process

def overflowEvent (now : Instant) : SensorEvent where
  timestamp := toTimestamp now
  payload := .anomaly ⟨[⟨"host", "fim_queue_overflow"⟩], "", 0, 0, false⟩

inductive Report
  /-- Resolve what a rule asked for. -/
  | alert (flowId : UInt64) (tuple : NetTuple) (timestamp : Instant) (record : AlertRecord)
  /-- Report an alert with what was done about it. -/
  | resolved (flowId : UInt64) (tuple : NetTuple) (timestamp : Instant) (record : AlertRecord)
      (action : AlertAction)
  /-- Offer a network alert to correlation. -/
  | offer (timestamp : Instant) (record : AlertRecord)
  | event (event : SensorEvent)
  | overflow
  | finding (finding : HostFinding)
  deriving DecidableEq

structure PipelineOptions where
  emitAnomalyEvents : Bool
  emitFlowEvents : Bool
  deriving DecidableEq, Repr

/-- The flow, tuple and time that the alerts of a call are reported with. -/
def Detect.Call.addressed? : Call → Option (UInt64 × NetTuple × Instant)
  | .packet _ flowId tuple _ _ timestamp => some (flowId, tuple, timestamp)
  | .stream _ flowId tuple _ _ timestamp => some (flowId, tuple, timestamp)
  | .flowEnd _ => none

/-- All alerts of a call are reported before the first is offered to correlation. -/
def alertReports (call : Call) (alerts : List AlertRecord) : List Report :=
  match call.addressed? with
  | none => []
  | some (flowId, tuple, timestamp) =>
    alerts.map (.alert flowId tuple timestamp) ++ alerts.map (.offer timestamp)

def Event.reports (options : PipelineOptions) : Event → List Report
  | .delivered _ _ => []
  | .ended flow => if options.emitFlowEvents then [.event flow.event] else []
  | .call c output => alertReports c output.alerts

/-- The flow that a packet was attributed to: a fragment's own, not its datagram's. -/
def Event.flowId? : Event → Option UInt64
  | .delivered flowId _ => some flowId
  | _ => none

structure Detection (R : Regex) (A : AhoCorasick) (T : TextRegex) where
  pipeline : PacketPipeline R A
  host : HostSide T

/-- Match a host event against the host rules, if there is an engine. -/
def Detection.inspectHost {R : Regex} {A : AhoCorasick} {T : TextRegex} (d : Detection R A T)
    (observation : HostObservation) (timestamp : Instant) : Detection R A T × List AlertRecord :=
  match d.pipeline.engine with
  | none => (d, [])
  | some engine =>
    let inspected := engine.inspectHost d.host observation timestamp
    (⟨{ d.pipeline with engine := some inspected.1 }, inspected.2.1⟩, inspected.2.2)

/-- A run of the sensor: the detection thread with everything it owns, and the verdict thread. -/
structure Sensor (R : Regex) (A : AhoCorasick) (T : TextRegex) extends Detection R A T where
  /-- The name that its events and observations carry. -/
  name : String
  options : PipelineOptions
  decode : Decode.DecodeCounters := {}
  correlator : Option Correlator
  prevention : Option Enforcement
  hostAlerts : ℕ := 0
  pending : List Report := []

/-- What the clocks say when a piece of work is done: the monotonic one, and that of the wall. -/
structure Clocks where
  now : Instant
  wall : Instant
  deriving DecidableEq, Repr

/-- A move of the rest of the process: no block, which only the detection thread asks for. -/
def Prevent.Move.isBlock : Prevent.Move → Bool
  | .block _ _ => true
  | _ => false

inductive SensorMove
  /-- The detection thread takes up a captured packet. -/
  | packet (walks again : Walks) (sets : HashOrder FragmentKey) (interface : String)
      (packet : RawPacket)
  /-- It ends every open flow. -/
  | flush (order : HashOrder FlowKey)
  /-- It has polled the host sensors. -/
  | serviceHost (batch : HostBatch)
  /-- It does the next piece of its work. -/
  | report (clocks : Clocks)
  /-- Another thread steps. -/
  | beside (move : Prevent.Move) (h : move.isBlock = false)

def SensorMove.instant : SensorMove → Option Instant
  | .report clocks => some clocks.now
  | .beside move _ => move.instant
  | .packet _ _ _ _ _ | .flush _ | .serviceHost _ => none

def SensorMove.NotBefore (i j : SensorMove) : Prop := ∀ a ∈ i.instant, ∀ b ∈ j.instant, a ≤ b

namespace Sensor

variable {R : Regex} {A : AhoCorasick} {T : TextRegex}

/-- The sensor before its first packet, over the messages that its queue is going to receive. -/
def start (name : String) (options : PipelineOptions) (detection : Detection R A T)
    (correlation : Option Correlation.CorrelationSettings)
    (prevention : Option (PreventionSettings × List Received)) : Sensor R A T where
  toDetection := detection
  name := name
  options := options
  correlator := correlation.map Correlator.new
  prevention := prevention.map (fun p => Enforcement.start p.1 p.2)

def recorded (calls : List StoreCall) : Bool :=
  calls.any fun call =>
    match call.2 with
    | .block (.blocked _) => true
    | _ => false

/-- Resolve what a rule asked for into what happened. Without a store, or with a poisoned one, there
is only the alert. -/
def enforce (s : Sensor R A T) (ruleBlocks : Bool) (tuple : NetTuple) (now : Instant) :
    Sensor R A T × AlertAction :=
  if !ruleBlocks then (s, .alerted)
  else
    match s.prevention with
    | none => (s, .alerted)
    | some enforcement =>
      let blocked := enforcement.block tuple now
      ({ s with prevention := some blocked.1 }, if recorded blocked.2 then .blocked else .alerted)

/-- Offer an observation to correlation, and report the incident it completes. -/
def correlate (s : Sensor R A T) (domain : Domain) (eventType : EventKind) (sid : Option UInt32)
    (severity : UInt8) (summary : String) (timestamp : Instant) : Sensor R A T × List SensorEvent :=
  match s.correlator with
  | none => (s, [])
  | some correlator =>
    let observed := correlator.observe
      ⟨s.name, toTimestamp timestamp, domain, eventType, sid, severity, summary⟩
    ({ s with correlator := some observed.1 },
      observed.2.toList.map fun incident =>
        { timestamp := toTimestamp timestamp, payload := .incident incident })

/-- What a finding gives correlation: its first alert, or else the bare finding at the severity of
something nothing matched. -/
def hostEvidence (finding : HostFinding) (alerts : List AlertRecord) :
    Option UInt32 × UInt8 × String :=
  match alerts.head? with
  | some record => (some record.sid, record.severity, record.signature)
  | none => (none, 3, finding.summary)

def hostAlertEvent (timestamp : Instant) (record : AlertRecord) : SensorEvent where
  timestamp := toTimestamp timestamp
  payload := .alert (record.event .alerted .host)

/-- The alerts of a finding come first, then the incident it completes, then the finding. -/
def reportFinding (s : Sensor R A T) (finding : HostFinding) (timestamp : Instant) :
    Sensor R A T × List SensorEvent :=
  let inspected := s.toDetection.inspectHost finding.observation timestamp
  let counted := { s with
    toDetection := inspected.1
    hostAlerts := s.hostAlerts + inspected.2.length }
  let evidence := hostEvidence finding inspected.2
  let correlated := counted.correlate .host finding.payload.kind evidence.1 evidence.2.1
    evidence.2.2
    timestamp
  (correlated.1, inspected.2.map (hostAlertEvent timestamp) ++ correlated.2 ++
    [{ timestamp := toTimestamp timestamp, payload := finding.payload }])

def alertEvent (flowId : UInt64) (tuple : NetTuple) (timestamp : Instant) (record : AlertRecord)
    (action : AlertAction) : SensorEvent where
  timestamp := toTimestamp timestamp
  flowId := some flowId
  net := some tuple
  payload := .alert (record.event action .network)

/-- Do one piece of work, the rest of which is pending, and offer its events to the log. -/
def work (s : Sensor R A T) (clocks : Clocks) : Report → Sensor R A T × List SensorEvent
  | .alert flowId tuple timestamp record =>
    -- the store's lock is released before the event is built
    let enforced := s.enforce record.blocks tuple clocks.now
    ({ enforced.1 with
        pending := .resolved flowId tuple timestamp record enforced.2 :: enforced.1.pending }, [])
  | .resolved flowId tuple timestamp record action =>
    (s, [alertEvent flowId tuple timestamp record action])
  | .offer timestamp record =>
    s.correlate .network .alert (some record.sid) record.severity record.signature timestamp
  | .event event => (s, [event])
  | .overflow => (s, [overflowEvent clocks.wall])
  | .finding finding => s.reportFinding finding clocks.wall

/-- Decode a captured frame, track it, and line up what it warrants. The engine and the flow table
do not see what is reported, so the reports of a packet are lined up after all of its calls. -/
def onPacket (E : Decode.Etherparse) (s : Sensor R A T) (walks again : Walks)
    (sets : HashOrder FragmentKey) (interface : String) (packet : RawPacket) : Sensor R A T :=
  let decoded := Decode.decode E packet.data packet.originalLen
  let tracked := s.pipeline.track (Decode.decoder E) walks again sets decoded.toDecoded
    packet.timestamp
  let drained := tracked.1.drainEndedFlows
  let anomaly :=
    if s.options.emitAnomalyEvents && !decoded.anomalies.found.isEmpty then
      [Report.event (anomalyEvent interface packet decoded (tracked.2.findSome? Event.flowId?))]
    else []
  { s with
    pipeline := drained.1
    decode := s.decode.record decoded
    pending := tracked.2.flatMap (Event.reports s.options) ++ anomaly ++
      drained.2.flatMap (Event.reports s.options) }

def flush (s : Sensor R A T) (order : HashOrder FlowKey) : Sensor R A T :=
  let flushed := s.pipeline.flush order
  { s with
    pipeline := flushed.1
    pending := flushed.2.flatMap (Event.reports s.options) }

def serviceHost (s : Sensor R A T) (batch : HostBatch) : Sensor R A T :=
  { s with pending := List.replicate batch.overflows .overflow ++ batch.findings.map .finding }

/-- One step of the sensor, with the events that it offers to the log. The detection thread takes up
nothing new while it has work to do. -/
def step (E : Decode.Etherparse) (s : Sensor R A T) : SensorMove → Sensor R A T × List SensorEvent
  | .packet walks again sets interface packet =>
    if s.pending = [] then (s.onPacket E walks again sets interface packet, []) else (s, [])
  | .flush order => if s.pending = [] then (s.flush order, []) else (s, [])
  | .serviceHost batch => if s.pending = [] then (s.serviceHost batch, []) else (s, [])
  | .report clocks =>
    match s.pending with
    | [] => (s, [])
    | report :: rest => work { s with pending := rest } clocks report
  | .beside move _ => ({ s with prevention := s.prevention.map (fun e => (e.step move).1) }, [])

end Sensor
end CyberSentinel
