import CyberSentinel.Stream
import CyberSentinel.Tables

/-!
# The flow table

A bounded table of conversations, keyed by the two endpoints in canonical order. Time is a number of
nanoseconds since the epoch and may run backwards from one packet to the next. Every call that walks
the table is given the order the walk happens in. The table keeps the bytes held in all reassembly
buffers as a running total; `lostBytes` records whether a subtraction from that total ever took away
more than was there, which for the machine integer would be an underflow.
-/

namespace CyberSentinel

open Tables

abbrev Instant := ℤ

/-- `later.duration_since(earlier).unwrap_or_default()`. -/
def elapsed (later earlier : Instant) : ℕ := (later - earlier).toNat

def nanosPerSecond : ℕ := 1000000000

/-- A conversation: the protocol and the two endpoints, the lower one first. -/
structure FlowKey where
  protocol : UInt8
  first : Endpoint
  second : Endpoint
  deriving DecidableEq, Repr

def FlowKey.new (protocol : UInt8) (source destination : Endpoint) : FlowKey :=
  if source ≤ destination then ⟨protocol, source, destination⟩
  else ⟨protocol, destination, source⟩

structure DirectionCounters where
  packets : ℕ := 0
  bytes : ℕ := 0
  deriving DecidableEq, Repr

def DirectionCounters.count (c : DirectionCounters) (frameLen : ℕ) : DirectionCounters :=
  { packets := c.packets + 1, bytes := c.bytes + frameLen }

structure Flow where
  id : UInt64
  key : FlowKey
  initiator : Endpoint
  start : Instant
  lastSeen : Instant
  toServer : DirectionCounters
  toClient : DirectionCounters
  tcpFlagsSeen : UInt8
  finFromInitiator : Bool
  finFromResponder : Bool
  sawReset : Bool
  streams : Option StreamPair
  deriving DecidableEq, Repr

namespace Flow

def responder (f : Flow) : Endpoint :=
  if f.initiator = f.key.first then f.key.second else f.key.first

def isClosed (f : Flow) : Bool := f.sawReset || (f.finFromInitiator && f.finFromResponder)

def streamCounters (f : Flow) : Option StreamCounters := f.streams.map StreamPair.counters

def bufferedBytes (f : Flow) : ℕ := f.streams.elim 0 StreamPair.bufferedBytes

end Flow

inductive EndReason
  | closed
  | timedOut
  | evicted
  | sensorStopped
  deriving DecidableEq, Repr

/-- A flow that has left the table, with the bytes that became deliverable as it ended. -/
structure EndedFlow where
  flow : Flow
  reason : EndReason
  finalReady : StreamReady
  deriving DecidableEq, Repr

structure Observed where
  flowId : UInt64
  toServer : Bool
  isNew : Bool
  deriving DecidableEq, Repr

structure FlowCounters where
  created : ℕ := 0
  closed : ℕ := 0
  timedOut : ℕ := 0
  evicted : ℕ := 0
  resetsIgnored : ℕ := 0
  deriving DecidableEq, Repr

def tcpProtocol : UInt8 := 6

structure PacketSummary where
  protocol : UInt8
  source : Endpoint
  destination : Endpoint
  timestamp : Instant
  frameLen : ℕ
  payload : List UInt8
  tcp : Option TcpSegment
  deriving DecidableEq, Repr

structure Limits where
  maxFlows : ℕ := 65536
  /-- In nanoseconds. -/
  flowTimeout : ℕ := 300 * nanosPerSecond
  deriving DecidableEq, Repr

def bigEndian (count value : ℕ) : List UInt8 :=
  (List.range count).reverse.map (fun i => UInt8.ofNat (value / 256 ^ i))

def IpAddr.octets : IpAddr → List UInt8
  | .v4 address => bigEndian 4 address.toNat
  | .v6 address => bigEndian 16 address.toNat

/-- FNV-1a over the key and the start time; zero stands for no flow. -/
def deriveFlowId (key : FlowKey) (start : Instant) : UInt64 :=
  let mix : UInt64 → List UInt8 → UInt64 :=
    List.foldl (fun hash byte => (hash ^^^ byte.toUInt64) * 0x100000001b3)
  let endpoint (hash : UInt64) (e : Endpoint) : UInt64 :=
    mix (mix hash e.ip.octets) (bigEndian 2 e.port.toNat)
  let hash := mix 0xcbf29ce484222325 [key.protocol]
  let hash := endpoint (endpoint hash key.first) key.second
  let hash := mix hash (bigEndian 8 (elapsed start 0 % 2 ^ 64))
  if hash = 0 then 1 else hash

structure FlowTable where
  flows : Table FlowKey Flow
  limits : Limits
  reassembly : ReassemblyConfig
  /-- The bytes held in reassembly buffers, maintained as a running total. -/
  streamBytes : ℕ
  finishedStreamCounters : StreamCounters
  counters : FlowCounters
  ended : List EndedFlow
  lastSweep : Option Instant
  /-- Whether a subtraction from `streamBytes` has ever been cut short at zero. -/
  lostBytes : Bool

namespace FlowTable

def sweepInterval : ℕ := 10 * nanosPerSecond

def evictionBatchFraction : ℕ := 10

def withReassembly (limits : Limits) (reassembly : ReassemblyConfig) : FlowTable where
  flows := ∅
  limits := limits
  reassembly := reassembly
  streamBytes := 0
  finishedStreamCounters := {}
  counters := {}
  ended := []
  lastSweep := none
  lostBytes := false

/-- `streamBytes + added - removed`. -/
def adjustBytes (t : FlowTable) (added removed : ℕ) : FlowTable :=
  { t with
    streamBytes := t.streamBytes + added - removed
    lostBytes := t.lostBytes || decide (t.streamBytes + added < removed) }

def flushFlow (flow : Flow) : Flow × StreamReady :=
  match flow.streams with
  | none => (flow, {})
  | some streams => ({ flow with streams := some streams.flush.1 }, streams.flush.2)

def endFlow (t : FlowTable) (flow : Flow) (reason : EndReason) : FlowTable :=
  -- the bytes are read before the flush empties the buffers
  let released := flow.bufferedBytes
  let (flow, finalReady) := flushFlow flow
  let t := { t with
    finishedStreamCounters :=
      flow.streamCounters.elim t.finishedStreamCounters t.finishedStreamCounters.merge }
  let t := t.adjustBytes 0 released
  { t with ended := t.ended ++ [⟨flow, reason, finalReady⟩] }

def countEnd (c : FlowCounters) : EndReason → FlowCounters
  | .closed => { c with closed := c.closed + 1 }
  | .timedOut => { c with timedOut := c.timedOut + 1 }
  | .evicted => { c with evicted := c.evicted + 1 }
  | .sensorStopped => c

/-- Take the flow at `key` out of the table, if it is there, and report it. -/
def removeFlow (reason : EndReason) (t : FlowTable) (key : FlowKey) : FlowTable :=
  match t.flows.lookup key with
  | none => t
  | some flow =>
    endFlow { t with flows := t.flows.erase key, counters := countEnd t.counters reason } flow
      reason

def sweep (t : FlowTable) (order : HashOrder FlowKey) (now : Instant) : FlowTable :=
  let t := { t with lastSweep := some now }
  let expired := (iter order t.flows).filter
    (fun entry => t.limits.flowTimeout ≤ elapsed now entry.2.lastSeen)
  (expired.map Prod.fst).foldl (removeFlow .timedOut) t

def maybeSweep (t : FlowTable) (order : HashOrder FlowKey) (now : Instant) : FlowTable :=
  let due := t.lastSweep.all (fun last => last ≤ now && sweepInterval ≤ elapsed now last)
  if due then t.sweep order now else t

def withinLimits (t : FlowTable) : Bool :=
  size t.flows < t.limits.maxFlows && t.streamBytes < t.reassembly.maxStreamBytesTotal

def evict (t : FlowTable) (order : HashOrder FlowKey) : FlowTable :=
  let batch := max (t.limits.maxFlows / evictionBatchFraction) 1
  let byAge := ((iter order t.flows).map (fun entry => (entry.2.lastSeen, entry.1))).insertionSort
    (fun a b => a.1 ≤ b.1)
  ((byAge.take batch).map Prod.snd).foldl (removeFlow .evicted) t

def makeRoom (t : FlowTable) (order : HashOrder FlowKey) (now : Instant) : FlowTable :=
  if t.withinLimits then t
  else
    let t := t.sweep order now
    if t.withinLimits then t else t.evict order

def newFlow (t : FlowTable) (key : FlowKey) (packet : PacketSummary) : Flow where
  id := deriveFlowId key packet.timestamp
  key := key
  initiator := packet.source
  start := packet.timestamp
  lastSeen := packet.timestamp
  toServer := {}
  toClient := {}
  tcpFlagsSeen := 0
  finFromInitiator := false
  finFromResponder := false
  sawReset := false
  streams := if packet.protocol = tcpProtocol then some (StreamPair.new t.reassembly) else none

/-- The flow at `key`, created when there is none. -/
def entry (t : FlowTable) (key : FlowKey) (packet : PacketSummary) : FlowTable × Flow :=
  match t.flows.lookup key with
  | some flow => (t, flow)
  | none =>
    ({ t with counters := { t.counters with created := t.counters.created + 1 } },
      t.newFlow key packet)

/-- Count a packet of the flow. `lastSeen` never moves backwards. -/
def countPacket (flow : Flow) (toServer : Bool) (packet : PacketSummary) : Flow :=
  { flow with
    toServer := if toServer then flow.toServer.count packet.frameLen else flow.toServer
    toClient := if toServer then flow.toClient else flow.toClient.count packet.frameLen
    lastSeen := max flow.lastSeen packet.timestamp }

/-- What a TCP segment does to its flow: the flow, the bytes it made deliverable, and whether it was
a reset that the destination would not have acted on. -/
def pushSegment (flow : Flow) (toServer : Bool) (segment : TcpSegment)
    (policy : IpAddr → OverlapPolicy) : Flow × StreamReady × Bool :=
  let flow := { flow with
    tcpFlagsSeen := flow.tcpFlagsSeen ||| segment.flags
    finFromInitiator := flow.finFromInitiator || (segment.has Flags.fin && toServer)
    finFromResponder := flow.finFromResponder || (segment.has Flags.fin && !toServer) }
  match flow.streams with
  | some streams =>
    let (streams, ready) := streams.push toServer segment (policy flow.responder.ip)
      (policy flow.initiator.ip)
    let reset := segment.has Flags.rst
    let believed := streams.rstShouldClose toServer segment.sequence
    ({ flow with streams := some streams, sawReset := flow.sawReset || (reset && believed) },
      ready, reset && !believed)
  | none => ({ flow with sawReset := flow.sawReset || segment.has Flags.rst }, {}, false)

def updateFlow (flow : Flow) (toServer : Bool) (packet : PacketSummary)
    (policy : IpAddr → OverlapPolicy) : Flow × StreamReady × Bool :=
  let flow := countPacket flow toServer packet
  match packet.tcp with
  | none => (flow, {}, false)
  | some segment => pushSegment flow toServer segment policy

/-- The table a packet finds when it is attributed: swept if due, and with room for a new flow. -/
def prepare (t : FlowTable) (order : HashOrder FlowKey) (packet : PacketSummary) (key : FlowKey) :
    FlowTable :=
  let t := t.maybeSweep order packet.timestamp
  if (t.flows.lookup key).isNone then t.makeRoom order packet.timestamp else t

/-- Store what a packet made of its flow, and end the flow if the packet closed it. -/
def record (t : FlowTable) (key : FlowKey) (flow flow' : Flow) (ignored : Bool) : FlowTable :=
  let t := { t with
    counters := { t.counters with
      resetsIgnored := t.counters.resetsIgnored + if ignored then 1 else 0 } }
  let t := t.adjustBytes flow'.bufferedBytes flow.bufferedBytes
  let t := { t with flows := t.flows.insert key flow' }
  if flow'.isClosed then removeFlow .closed t key else t

def observe (t : FlowTable) (order : HashOrder FlowKey) (packet : PacketSummary)
    (policy : IpAddr → OverlapPolicy) : FlowTable × Observed × StreamReady :=
  let key := FlowKey.new packet.protocol packet.source packet.destination
  let swept := t.maybeSweep order packet.timestamp
  let isNew := (swept.flows.lookup key).isNone
  let (t, flow) := (t.prepare order packet key).entry key packet
  let toServer := packet.source = flow.initiator
  let (flow', ready, ignored) := updateFlow flow toServer packet policy
  (t.record key flow flow' ignored, ⟨flow.id, toServer, isNew⟩, ready)

/-- End every remaining flow, for shutdown or the end of the capture. -/
def flush (t : FlowTable) (order : HashOrder FlowKey) : FlowTable :=
  ((iter order t.flows).map Prod.snd).foldl (fun t flow => t.endFlow flow .sensorStopped)
    { t with flows := ∅ }

end FlowTable
end CyberSentinel
