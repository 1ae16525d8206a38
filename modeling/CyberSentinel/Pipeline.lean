import CyberSentinel.Defrag
import CyberSentinel.EngineRuns

/-!
# The packet pipeline

A captured frame is decoded, a fragment is offered to the defragmenter, the packet is attributed to
its flow, and the bytes the flow table delivers are handed to the engine. At the end of every
packet, and of the capture, the flows that have left the table are drained. Decoding is a parameter
here. A step returns its trace: what the flow table delivered and what the engine was called with,
in order.
-/

namespace CyberSentinel

open Tables Detect

structure Ipv4Info where
  source : BitVec 32
  destination : BitVec 32
  protocol : UInt8
  identification : UInt16
  /-- In units of eight bytes. -/
  fragmentOffset : UInt16
  moreFragments : Bool
  deriving DecidableEq, Repr

structure Ipv6Info where
  source : BitVec 128
  destination : BitVec 128
  /-- After the extension headers. -/
  protocol : UInt8
  isFragment : Bool
  fragmentOffset : UInt16
  moreFragments : Bool
  identification : UInt32
  deriving DecidableEq, Repr

inductive Network
  | ipv4 (ip : Ipv4Info)
  | ipv6 (ip : Ipv6Info)
  deriving DecidableEq, Repr

namespace Network

def source : Network → IpAddr
  | ipv4 ip => .v4 ip.source
  | ipv6 ip => .v6 ip.source

def destination : Network → IpAddr
  | ipv4 ip => .v4 ip.destination
  | ipv6 ip => .v6 ip.destination

def protocol : Network → UInt8
  | ipv4 ip => ip.protocol
  | ipv6 ip => ip.protocol

def isFragment : Network → Bool
  | ipv4 ip => ip.moreFragments || ip.fragmentOffset != 0
  | ipv6 ip => ip.isFragment

def identification : Network → UInt32
  | ipv4 ip => ip.identification.toUInt32
  | ipv6 ip => ip.identification

def fragmentOffset : Network → UInt16
  | ipv4 ip => ip.fragmentOffset
  | ipv6 ip => ip.fragmentOffset

def moreFragments : Network → Bool
  | ipv4 ip => ip.moreFragments
  | ipv6 ip => ip.moreFragments

end Network

structure TcpInfo where
  sourcePort : UInt16
  destinationPort : UInt16
  sequenceNumber : UInt32
  acknowledgmentNumber : UInt32
  /-- The flags as their wire byte. -/
  flags : UInt8
  deriving DecidableEq, Repr

structure UdpInfo where
  sourcePort : UInt16
  destinationPort : UInt16
  deriving DecidableEq, Repr

inductive Transport
  | tcp (info : TcpInfo)
  | udp (info : UdpInfo)
  | icmp
  | other (protocol : UInt8)
  deriving DecidableEq, Repr

namespace Transport

def sourcePort : Transport → Option UInt16
  | tcp info => some info.sourcePort
  | udp info => some info.sourcePort
  | icmp | other _ => none

def destinationPort : Transport → Option UInt16
  | tcp info => some info.destinationPort
  | udp info => some info.destinationPort
  | icmp | other _ => none

end Transport

/-- A decoded frame; the two payloads are ranges of it, start first. -/
structure Decoded where
  frame : List UInt8
  network : Option Network
  transport : Option Transport
  payload : ℕ × ℕ
  networkPayload : ℕ × ℕ
  deriving DecidableEq, Repr

namespace Decoded

def range (d : Decoded) (r : ℕ × ℕ) : List UInt8 :=
  if r.1 ≤ r.2 ∧ r.2 ≤ d.frame.length then Bytes.slice d.frame r.1 r.2 else []

def payloadBytes (d : Decoded) : List UInt8 := d.range d.payload

def networkPayloadBytes (d : Decoded) : List UInt8 := d.range d.networkPayload

end Decoded

/-- The decoder: a captured frame with its length on the wire, and the transport bytes of a
reassembled datagram with its protocol. -/
structure Decoder where
  decode : List UInt8 → ℕ → Decoded
  decodeTransportBytes : List UInt8 → UInt8 → Decoded

structure RawPacket where
  data : List UInt8
  originalLen : ℕ
  timestamp : Instant
  deriving DecidableEq, Repr

def portOrNone (port : UInt16) : Option UInt16 := if port ≠ 0 then some port else none

def protocolFromNumber (protocol : UInt8) : Protocol :=
  if protocol = 6 then .tcp
  else if protocol = 17 then .udp
  else if protocol = 1 ∨ protocol = 58 then .icmp
  else .ip

def summaryTuple (packet : PacketSummary) : NetTuple where
  srcIp := packet.source.ip
  srcPort := portOrNone packet.source.port
  destIp := packet.destination.ip
  destPort := portOrNone packet.destination.port
  proto := protocolFromNumber packet.protocol

def NetTuple.reverse (tuple : NetTuple) : NetTuple where
  srcIp := tuple.destIp
  srcPort := tuple.destPort
  destIp := tuple.srcIp
  destPort := tuple.srcPort
  proto := tuple.proto

def tcpSegment (transport : Option Transport) (payload : List UInt8) : Option TcpSegment :=
  match transport with
  | some (.tcp info) => some ⟨info.sequenceNumber, info.acknowledgmentNumber, info.flags, payload⟩
  | _ => none

/-- A packet between two addresses, with the ports of its transport header where it has one. -/
def Decoded.summary (d : Decoded) (protocol : UInt8) (source destination : IpAddr)
    (timestamp : Instant) : PacketSummary where
  protocol := protocol
  source := ⟨source, (d.transport.bind Transport.sourcePort).getD 0⟩
  destination := ⟨destination, (d.transport.bind Transport.destinationPort).getD 0⟩
  timestamp := timestamp
  frameLen := d.frame.length
  payload := d.payloadBytes
  tcp := tcpSegment d.transport d.payloadBytes

/-- A reassembled datagram never was one frame: its own length counts. -/
def Reassembled.summary (r : Reassembled) (D : Decoder) (timestamp : Instant) : PacketSummary :=
  { (D.decodeTransportBytes r.data r.protocol).summary r.protocol r.source r.destination timestamp
    with frameLen := r.data.length }

/-- A fragment is counted against the flow of its addresses; its transport header is not read. -/
def Decoded.fragmentSummary (d : Decoded) (network : Network) (timestamp : Instant) :
    PacketSummary where
  protocol := network.protocol
  source := ⟨network.source, 0⟩
  destination := ⟨network.destination, 0⟩
  timestamp := timestamp
  frameLen := d.frame.length
  payload := d.payloadBytes
  tcp := none

/-- The IP payload is what is reassembled: it includes the transport header. -/
def Decoded.fragmentView (d : Decoded) (network : Network) : FragmentView where
  source := network.source
  destination := network.destination
  identification := network.identification
  protocol := network.protocol
  offset := network.fragmentOffset
  moreFragments := network.moreFragments
  payload := d.networkPayloadBytes

inductive Event
  /-- The flow table made bytes of a flow deliverable. -/
  | delivered (flowId : UInt64) (ready : StreamReady)
  /-- A flow left the table, with its last bytes. -/
  | ended (flow : EndedFlow)
  /-- The engine was called. -/
  | call (call : Call) (output : Output)

structure PacketPipeline (R : Regex) (A : AhoCorasick) where
  flows : FlowTable
  defrag : Defragmenter
  policy : PolicyResolver
  streamBytesDelivered : ℕ
  engine : Option (Engine R A)

/-- The orders in which the tables are walked while one packet is observed. -/
structure Walks where
  flows : HashOrder FlowKey
  states : HashOrder UInt64

variable {R : Regex} {A : AhoCorasick}

namespace PacketPipeline

def new (R : Regex) (A : AhoCorasick) (c : Config) : PacketPipeline R A where
  flows := FlowTable.withReassembly
    { maxFlows := c.flowMaxFlows, flowTimeout := c.flowTimeoutSecs * nanosPerSecond } c.reassembly
  defrag := Defragmenter.new c.reassembly
  policy := PolicyResolver.ofConfig c.reassembly
  streamBytesDelivered := 0
  engine := none

def arm (p : PacketPipeline R A) (engine : Engine R A) : PacketPipeline R A :=
  { p with engine := some engine }

def callEngine (p : PacketPipeline R A) (call : Call) : PacketPipeline R A × List Event :=
  match p.engine with
  | none => (p, [])
  | some engine =>
    ({ p with engine := some (engine.step call).1 }, [.call call (engine.step call).2])

def callAll (p : PacketPipeline R A) : List Call → PacketPipeline R A × List Event
  | [] => (p, [])
  | call :: rest =>
    let first := p.callEngine call
    let others := first.1.callAll rest
    (others.1, first.2 ++ others.2)

/-- The calls for what was delivered to the two directions of a flow. -/
def streamCalls (walks : Walks) (flowId : UInt64) (oriented : NetTuple) (timestamp : Instant)
    (ready : StreamReady) : List Call :=
  [(true, oriented), (false, oriented.reverse)].filterMap fun side =>
    if ready.side side.1 = [] then none
    else some (.stream walks.states flowId side.2 side.1 (ready.side side.1) timestamp)

def consumeReady (p : PacketPipeline R A) (walks : Walks) (flowId : UInt64) (oriented : NetTuple)
    (timestamp : Instant) (ready : StreamReady) : PacketPipeline R A × List Event :=
  if ready.isEmpty then (p, [])
  else
    { p with streamBytesDelivered := p.streamBytesDelivered + ready.len }.callAll
      (streamCalls walks flowId oriented timestamp ready)

/-- A datagram protocol has no stream: its payload is inspected as it stands. -/
def inspectDatagram (p : PacketPipeline R A) (walks : Walks) (observed : Observed)
    (packet : PacketSummary) : PacketPipeline R A × List Event :=
  if packet.tcp.isNone && !packet.payload.isEmpty then
    p.callEngine (.packet walks.states observed.flowId (summaryTuple packet) observed.toServer
      packet.payload packet.timestamp)
  else (p, [])

def observe (p : PacketPipeline R A) (walks : Walks) (packet : PacketSummary) :
    PacketPipeline R A × List Event :=
  let (flows, observed, ready) := p.flows.observe walks.flows packet p.policy.forDestination
  let tuple := summaryTuple packet
  let oriented := if observed.toServer then tuple else tuple.reverse
  let datagram := { p with flows := flows }.inspectDatagram walks observed packet
  let streams := datagram.1.consumeReady walks observed.flowId oriented packet.timestamp ready
  (streams.1, .delivered observed.flowId ready :: (datagram.2 ++ streams.2))

def defragment (p : PacketPipeline R A) (order : HashOrder FragmentKey) (network : Network)
    (decoded : Decoded) (timestamp : Instant) : PacketPipeline R A × Option Reassembled :=
  let pushed := p.defrag.push order (decoded.fragmentView network) timestamp
    (p.policy.forDestination network.destination)
  ({ p with defrag := pushed.1 }, pushed.2)

/-- Feed a datagram that has just been reassembled back into the pipeline. -/
def onReassembled (p : PacketPipeline R A) (D : Decoder) (walks : Walks) (reassembled : Reassembled)
    (timestamp : Instant) : PacketPipeline R A × List Event :=
  p.observe walks (reassembled.summary D timestamp)

/-- Attribute a packet to a flow, reassembling on the way. `again` is how the tables are walked for
a datagram that the packet completes. -/
def track (p : PacketPipeline R A) (D : Decoder) (walks again : Walks)
    (sets : HashOrder FragmentKey) (decoded : Decoded) (timestamp : Instant) :
    PacketPipeline R A × List Event :=
  match decoded.network with
  | none => (p, [])
  | some network =>
    if network.isFragment then
      let counted := p.observe walks (decoded.fragmentSummary network timestamp)
      let offered := counted.1.defragment sets network decoded timestamp
      match offered.2 with
      | none => (offered.1, counted.2)
      | some reassembled =>
        let fed := offered.1.onReassembled D again reassembled timestamp
        (fed.1, counted.2 ++ fed.2)
    else
      p.observe walks
        (decoded.summary network.protocol network.source network.destination timestamp)

/-- Account for the tail of every flow that has ended, and drop its detection state. -/
def takeFinalDeliveries (p : PacketPipeline R A) : PacketPipeline R A × List Event :=
  let ended := p.flows.ended
  let p := { p with
    streamBytesDelivered := p.streamBytesDelivered +
      (ended.map (fun e : EndedFlow => e.finalReady.len)).sum }
  let ends := p.callAll (ended.map (fun e : EndedFlow => .flowEnd e.flow.id))
  (ends.1, ended.map .ended ++ ends.2)

def drainEndedFlows (p : PacketPipeline R A) : PacketPipeline R A × List Event :=
  if p.flows.ended = [] then (p, [])
  else
    let taken := p.takeFinalDeliveries
    ({ taken.1 with flows := { taken.1.flows with ended := [] } }, taken.2)

def onPacket (p : PacketPipeline R A) (D : Decoder) (walks again : Walks)
    (sets : HashOrder FragmentKey) (packet : RawPacket) : PacketPipeline R A × List Event :=
  let tracked := p.track D walks again sets (D.decode packet.data packet.originalLen)
    packet.timestamp
  let drained := tracked.1.drainEndedFlows
  (drained.1, tracked.2 ++ drained.2)

def flush (p : PacketPipeline R A) (order : HashOrder FlowKey) : PacketPipeline R A × List Event :=
  { p with flows := p.flows.flush order }.drainEndedFlows

end PacketPipeline

/-- A call on the pipeline, with the orders in which its tables are walked. -/
inductive PipelineOp
  | packet (walks again : Walks) (sets : HashOrder FragmentKey) (packet : RawPacket)
  | flush (order : HashOrder FlowKey)

def PacketPipeline.step (D : Decoder) (p : PacketPipeline R A) :
    PipelineOp → PacketPipeline R A × List Event
  | .packet walks again sets packet => p.onPacket D walks again sets packet
  | .flush order => p.flush order

end CyberSentinel
