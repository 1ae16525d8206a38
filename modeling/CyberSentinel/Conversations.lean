import CyberSentinel.Decode
import CyberSentinel.VerdictLapse

/-!
# One name for a conversation

The verdict path reads the tuple of a packet from its IP header on, the detection path takes it from
the decoded frame. For a whole packet that is no fragment and carries a complete TCP or UDP header
the two agree on the name of the conversation, and so do they for the packet with its two ends
swapped: a block recorded by one is found by the other. The header library is assumed to read the
standard fields.
-/

namespace CyberSentinel

open Decode Prevent

/-! ### The verdict path -/

/-- The IP header as the verdict path reads it: the addresses, the protocol and the bytes after the
header, which a later fragment does not have. -/
structure IpFields where
  source : IpAddr
  destination : IpAddr
  protocol : UInt8
  transport : Option (List UInt8)

def v4At (bytes : List UInt8) (i : ℕ) : IpAddr :=
  .v4 (BitVec.ofNat 32 (fromBigEndian (Bytes.slice bytes i (i + 4))))

def v6At (bytes : List UInt8) (i : ℕ) : IpAddr :=
  .v6 (BitVec.ofNat 128 (fromBigEndian (Bytes.slice bytes i (i + 16))))

/-- `bytes.get(i..)`. -/
def restFrom (bytes : List UInt8) (i : ℕ) : Option (List UInt8) :=
  if i ≤ bytes.length then some (bytes.drop i) else none

def ipFields (bytes : List UInt8) : Option IpFields :=
  match bytes.head? with
  | none => none
  | some first =>
    if first >>> 4 = 4 then
      let headerLen := (first &&& 0x0f).toNat * 4
      if headerLen < 20 ∨ bytes.length < headerLen then none
      else
        -- the high byte of the fragment offset without the three flags
        let fragmentOffset := fromBigEndian [bytes.getD 6 0 &&& 0x1f, bytes.getD 7 0]
        some ⟨v4At bytes 12, v4At bytes 16, bytes.getD 9 0,
          if fragmentOffset = 0 then restFrom bytes headerLen else none⟩
    else if first >>> 4 = 6 then
      if bytes.length < 40 then none
      else some ⟨v6At bytes 8, v6At bytes 24, bytes.getD 6 0, restFrom bytes 40⟩
    else none

def portsOf (transport : Option (List UInt8)) : Option (UInt16 × UInt16) :=
  match transport with
  | some payload => if 4 ≤ payload.length then some (u16At payload 0, u16At payload 2) else none
  | none => none

def tupleFromIpPacket (bytes : List UInt8) : Option NetTuple :=
  (ipFields bytes).map fun ip =>
    let proto := protocolFromNumber ip.protocol
    let ports := if proto = .tcp ∨ proto = .udp then portsOf ip.transport else none
    ⟨ip.source, ports.map Prod.fst, ip.destination, ports.map Prod.snd, proto⟩

/-! ### Packets -/

def ipv4HeaderLen (bytes : List UInt8) : ℕ := (bytes.getD 0 0 &&& 0x0f).toNat * 4

def tcpHeaderLen (segment : List UInt8) : ℕ := (segment.getD 12 0 >>> 4).toNat * 4

def CompleteTransport (protocol : UInt8) (segment : List UInt8) : Prop :=
  protocol = 6 ∧ 20 ≤ tcpHeaderLen segment ∧ tcpHeaderLen segment ≤ segment.length ∨
    protocol = 17 ∧ 8 ≤ segment.length

/-- A whole IPv4 packet, with or without options, that is no fragment. -/
structure WholeIpv4 (bytes : List UInt8) : Prop where
  version : bytes.getD 0 0 >>> 4 = 4
  minimal : 20 ≤ ipv4HeaderLen bytes
  header_le : ipv4HeaderLen bytes ≤ bytes.length
  totalLen : (u16At bytes 2).toNat = bytes.length
  /-- No offset, and no more fragments to come. -/
  unfragmented : bytes.getD 6 0 &&& 0x3f = 0 ∧ bytes.getD 7 0 = 0
  transport : CompleteTransport (bytes.getD 9 0) (bytes.drop (ipv4HeaderLen bytes))

structure WholeIpv6 (bytes : List UInt8) : Prop where
  version : bytes.getD 0 0 >>> 4 = 6
  header_le : 40 ≤ bytes.length
  payloadLength : 40 + (u16At bytes 4).toNat = bytes.length
  transport : CompleteTransport (bytes.getD 6 0) (bytes.drop 40)

/-- An Ethernet II header: two hardware addresses and the EtherType of what follows. -/
structure EthernetHeader (link : List UInt8) (etherType : UInt16) : Prop where
  length_eq : link.length = 14
  etherType_eq : u16At link 12 = etherType

inductive OnTheWire (link bytes : List UInt8) : Prop
  | ipv4 (packet : WholeIpv4 bytes) (header : EthernetHeader link etherTypeIpv4)
  | ipv6 (packet : WholeIpv6 bytes) (header : EthernetHeader link etherTypeIpv6)

/-- Where the addresses of a packet are, how long one is, and where its transport header starts. -/
def layout (bytes : List UInt8) : ℕ × ℕ × ℕ :=
  if bytes.getD 0 0 >>> 4 = 4 then (12, 4, ipv4HeaderLen bytes) else (8, 16, 40)

/-- The packet with its source and destination swapped, addresses and ports. The checksums stay
right: they are sums. -/
def swapEnds (bytes : List UInt8) : List UInt8 :=
  let (addresses, width, transport) := layout bytes
  Bytes.exchange (Bytes.exchange bytes addresses (addresses + width) width)
    transport (transport + 2) 2

/-! ### The header library reads the standard fields -/

structure Decode.Etherparse.ReadsStandardFields (E : Etherparse) : Prop where
  ethernet2 : ∀ bytes : List UInt8, 14 ≤ bytes.length →
    E.ethernet2 bytes = some (u16At bytes 12, bytes.drop 14)
  ipv4 : ∀ bytes : List UInt8, bytes.getD 0 0 >>> 4 = 4 → 20 ≤ ipv4HeaderLen bytes →
    ipv4HeaderLen bytes ≤ bytes.length → ipv4HeaderLen bytes ≤ (u16At bytes 2).toNat →
    ∃ header, E.ipv4 bytes = some (header, bytes.drop (ipv4HeaderLen bytes)) ∧
      header.totalLen = u16At bytes 2 ∧
      header.fragmentOffset =
        UInt16.ofNat (fromBigEndian [bytes.getD 6 0 &&& 0x1f, bytes.getD 7 0]) ∧
      header.moreFragments = (bytes.getD 6 0 &&& 0x20 != 0) ∧
      header.protocol = bytes.getD 9 0 ∧
      IpAddr.v4 header.source = v4At bytes 12 ∧ IpAddr.v4 header.destination = v4At bytes 16
  ipv6 : ∀ bytes : List UInt8, bytes.getD 0 0 >>> 4 = 6 → 40 ≤ bytes.length →
    ∃ header, E.ipv6 bytes = some (header, bytes.drop 40) ∧
      header.payloadLength = u16At bytes 4 ∧ header.nextHeader = bytes.getD 6 0 ∧
      IpAddr.v6 header.source = v6At bytes 8 ∧ IpAddr.v6 header.destination = v6At bytes 24
  tcp : ∀ bytes : List UInt8, 20 ≤ tcpHeaderLen bytes → tcpHeaderLen bytes ≤ bytes.length →
    ∃ header, E.tcp bytes = some (header, bytes.drop (tcpHeaderLen bytes)) ∧
      header.sourcePort = u16At bytes 0 ∧ header.destinationPort = u16At bytes 2
  udp : ∀ bytes : List UInt8, 8 ≤ bytes.length →
    ∃ header, E.udp bytes = some (header, bytes.drop 8) ∧
      header.sourcePort = u16At bytes 0 ∧ header.destinationPort = u16At bytes 2

/-! ### The tuple of a packet -/

theorem head?_of_length_pos {bytes : List UInt8} (h : 0 < bytes.length) :
    bytes.head? = some (bytes.getD 0 0) := by
  cases bytes with
  | nil => simp at h
  | cons first rest => rfl

theorem protocolFromNumber_of_complete {protocol : UInt8} {segment : List UInt8}
    (h : CompleteTransport protocol segment) :
    protocolFromNumber protocol = .tcp ∨ protocolFromNumber protocol = .udp := by
  rcases h with ⟨rfl, -⟩ | ⟨rfl, -⟩
  · exact Or.inl (by decide)
  · exact Or.inr (by decide)

theorem four_le_of_complete {protocol : UInt8} {segment : List UInt8}
    (h : CompleteTransport protocol segment) : 4 ≤ segment.length := by
  rcases h with ⟨-, hmin, hle⟩ | ⟨-, hle⟩
  · omega
  · omega

theorem portsOf_complete {protocol : UInt8} {segment : List UInt8}
    (h : CompleteTransport protocol segment) :
    portsOf (some segment) = some (u16At segment 0, u16At segment 2) :=
  if_pos (four_le_of_complete h)

def tupleOf (source destination : IpAddr) (protocol : UInt8) (segment : List UInt8) : NetTuple :=
  ⟨source, some (u16At segment 0), destination, some (u16At segment 2), protocolFromNumber protocol⟩

theorem offset_eq_zero_of_unfragmented {high low : UInt8} (h : high &&& 0x3f = 0 ∧ low = 0) :
    fromBigEndian [high &&& 0x1f, low] = 0 := by
  have hhigh : high &&& 0x1f = 0 := by
    have hmask : high &&& 0x1f = (high &&& 0x3f) &&& 0x1f := by
      rw [UInt8.and_assoc]
      rfl
    rw [hmask, h.1]
    rfl
  rw [hhigh, h.2]
  rfl

theorem tupleFromIpPacket_ipv4 {bytes : List UInt8} (h : WholeIpv4 bytes) :
    tupleFromIpPacket bytes = some (tupleOf (v4At bytes 12) (v4At bytes 16) (bytes.getD 9 0)
      (bytes.drop (ipv4HeaderLen bytes))) := by
  have hmin := h.minimal
  have hle := h.header_le
  have hfields : ipFields bytes = some ⟨v4At bytes 12, v4At bytes 16, bytes.getD 9 0,
      some (bytes.drop (ipv4HeaderLen bytes))⟩ := by
    have hfold : (bytes.getD 0 0 &&& 0x0f).toNat * 4 = ipv4HeaderLen bytes := rfl
    simp only [ipFields, head?_of_length_pos (show 0 < bytes.length by omega), hfold]
    rw [if_pos h.version, if_neg (by omega),
      if_pos (offset_eq_zero_of_unfragmented h.unfragmented), restFrom, if_pos hle]
  simp only [tupleFromIpPacket, hfields, Option.map_some,
    if_pos (protocolFromNumber_of_complete h.transport), portsOf_complete h.transport, tupleOf]

theorem tupleFromIpPacket_ipv6 {bytes : List UInt8} (h : WholeIpv6 bytes) :
    tupleFromIpPacket bytes = some (tupleOf (v6At bytes 8) (v6At bytes 24) (bytes.getD 6 0)
      (bytes.drop 40)) := by
  have hle := h.header_le
  have hfields : ipFields bytes = some ⟨v6At bytes 8, v6At bytes 24, bytes.getD 6 0,
      some (bytes.drop 40)⟩ := by
    simp only [ipFields, head?_of_length_pos (show 0 < bytes.length by omega)]
    rw [h.version, if_neg (by decide), if_pos rfl, if_neg (by omega), restFrom, if_pos hle]
  simp only [tupleFromIpPacket, hfields, Option.map_some,
    if_pos (protocolFromNumber_of_complete h.transport), portsOf_complete h.transport, tupleOf]

/-! ### Swapping the ends -/

theorem u16At_drop (bytes : List UInt8) (h i : ℕ) :
    u16At (bytes.drop h) i = u16At bytes (h + i) := by
  rw [u16At, u16At, Bytes.slice_drop, Nat.add_assoc]

theorem getD_congr {v w : List UInt8} {k : ℕ} (h : v[k]? = w[k]?) : v.getD k 0 = w.getD k 0 := by
  rw [List.getD_eq_getElem?_getD, List.getD_eq_getElem?_getD, h]

/-- Two packets that agree outside of the addresses and the ports, each field of which is in the
place of the other. -/
structure Swapped (bytes swapped : List UInt8) (addresses width transport : ℕ) : Prop where
  length_eq : swapped.length = bytes.length
  outside : ∀ k, (k < addresses ∨ addresses + 2 * width ≤ k) →
    (k < transport ∨ transport + 4 ≤ k) → swapped[k]? = bytes[k]?
  source : Bytes.slice swapped addresses (addresses + width) =
    Bytes.slice bytes (addresses + width) (addresses + 2 * width)
  destination : Bytes.slice swapped (addresses + width) (addresses + 2 * width) =
    Bytes.slice bytes addresses (addresses + width)
  sourcePort : u16At swapped transport = u16At bytes (transport + 2)
  destinationPort : u16At swapped (transport + 2) = u16At bytes transport

theorem Swapped.of_exchange {bytes : List UInt8} {addresses width transport : ℕ}
    (hbefore : addresses + 2 * width ≤ transport) (hle : transport + 4 ≤ bytes.length) :
    Swapped bytes (Bytes.exchange (Bytes.exchange bytes addresses (addresses + width) width)
      transport (transport + 2) 2) addresses width transport := by
  have hij : addresses + width ≤ addresses + width := le_rfl
  have hv : addresses + width + width ≤ bytes.length := by omega
  have hlength := Bytes.length_exchange hij hv
  have hports : transport + 2 + 2 ≤
      (Bytes.exchange bytes addresses (addresses + width) width).length := by omega
  have hkept (k : ℕ) (hk : k < addresses ∨ addresses + 2 * width ≤ k) :
      (Bytes.exchange bytes addresses (addresses + width) width)[k]? = bytes[k]? := by
    rw [Bytes.getElem?_exchange hij hv, if_neg (by omega), if_neg (by omega)]
  have hkeptPorts (k : ℕ) (hk : k < transport ∨ transport + 4 ≤ k) :
      (Bytes.exchange (Bytes.exchange bytes addresses (addresses + width) width)
        transport (transport + 2) 2)[k]? =
        (Bytes.exchange bytes addresses (addresses + width) width)[k]? := by
    rw [Bytes.getElem?_exchange le_rfl hports, if_neg (by omega), if_neg (by omega)]
  have htwo : addresses + 2 * width = addresses + width + width := by omega
  refine ⟨?_, ?_, ?_, ?_, ?_, ?_⟩
  · rw [Bytes.length_exchange le_rfl hports, hlength]
  · intro k haddress hport
    rw [hkeptPorts k hport, hkept k haddress]
  · rw [Bytes.slice_congr (fun k _ hk => hkeptPorts k (by omega)), htwo,
      Bytes.slice_exchange_left hij hv]
  · rw [Bytes.slice_congr (fun k _ hk => hkeptPorts k (by omega)), htwo,
      Bytes.slice_exchange_right hij hv]
  · rw [u16At, u16At, Bytes.slice_exchange_left le_rfl hports,
      Bytes.slice_congr (fun k hk _ => hkept k (by omega))]
  · rw [u16At, u16At, Bytes.slice_exchange_right le_rfl hports,
      Bytes.slice_congr (fun k hk _ => hkept k (by omega))]

namespace Swapped

variable {bytes swapped : List UInt8} {addresses width transport : ℕ}

theorem complete (h : Swapped bytes swapped addresses width transport) {protocol : UInt8}
    (hbefore : addresses + 2 * width ≤ transport)
    (hcomplete : CompleteTransport protocol (bytes.drop transport)) :
    CompleteTransport protocol (swapped.drop transport) := by
  have hlen : tcpHeaderLen (swapped.drop transport) = tcpHeaderLen (bytes.drop transport) := by
    have hoffset : (swapped.drop transport).getD 12 0 = (bytes.drop transport).getD 12 0 := by
      apply getD_congr
      rw [List.getElem?_drop, List.getElem?_drop, h.outside _ (by omega) (by omega)]
    rw [tcpHeaderLen, tcpHeaderLen, hoffset]
  rw [CompleteTransport, hlen, List.length_drop, h.length_eq, ← List.length_drop]
  exact hcomplete

theorem tupleOf_eq (h : Swapped bytes swapped addresses width transport) (protocol : UInt8)
    (source destination : IpAddr) :
    tupleOf destination source protocol (swapped.drop transport) =
      (tupleOf source destination protocol (bytes.drop transport)).reverse := by
  simp only [tupleOf, NetTuple.reverse, u16At_drop, Nat.add_zero, h.sourcePort, h.destinationPort]

end Swapped

theorem swapEnds_ipv4 {bytes : List UInt8} (h : WholeIpv4 bytes) :
    Swapped bytes (swapEnds bytes) 12 4 (ipv4HeaderLen bytes) := by
  have hmin := h.minimal
  have hfour := four_le_of_complete h.transport
  rw [List.length_drop] at hfour
  rw [swapEnds, layout, if_pos h.version]
  exact Swapped.of_exchange (by omega) (by omega)

theorem swapEnds_ipv6 {bytes : List UInt8} (h : WholeIpv6 bytes) :
    Swapped bytes (swapEnds bytes) 8 16 40 := by
  have hfour := four_le_of_complete h.transport
  rw [List.length_drop] at hfour
  rw [swapEnds, layout, if_neg (by rw [h.version]; decide)]
  exact Swapped.of_exchange (by omega) (by omega)

theorem WholeIpv4.headerLen_swapEnds {bytes : List UInt8} (h : WholeIpv4 bytes) :
    ipv4HeaderLen (swapEnds bytes) = ipv4HeaderLen bytes := by
  have hmin := h.minimal
  rw [ipv4HeaderLen, ipv4HeaderLen,
    getD_congr ((swapEnds_ipv4 h).outside 0 (by omega) (by omega))]

theorem WholeIpv4.swapEnds {bytes : List UInt8} (h : WholeIpv4 bytes) :
    WholeIpv4 (swapEnds bytes) := by
  have hswap := swapEnds_ipv4 h
  have hmin := h.minimal
  have hkept (k : ℕ) (hk : k < 12) : (CyberSentinel.swapEnds bytes).getD k 0 = bytes.getD k 0 :=
    getD_congr (hswap.outside k (by omega) (by omega))
  refine ⟨?_, ?_, ?_, ?_, ?_, ?_⟩
  · rw [hkept 0 (by omega)]
    exact h.version
  · rw [h.headerLen_swapEnds]
    exact hmin
  · rw [h.headerLen_swapEnds, hswap.length_eq]
    exact h.header_le
  · rw [hswap.length_eq, u16At,
      Bytes.slice_congr (fun k _ hk => hswap.outside k (by omega) (by omega))]
    exact h.totalLen
  · rw [hkept 6 (by omega), hkept 7 (by omega)]
    exact h.unfragmented
  · rw [h.headerLen_swapEnds, hkept 9 (by omega)]
    exact hswap.complete (by omega) h.transport

theorem WholeIpv6.swapEnds {bytes : List UInt8} (h : WholeIpv6 bytes) :
    WholeIpv6 (swapEnds bytes) := by
  have hswap := swapEnds_ipv6 h
  have hkept (k : ℕ) (hk : k < 8) : (CyberSentinel.swapEnds bytes).getD k 0 = bytes.getD k 0 :=
    getD_congr (hswap.outside k (by omega) (by omega))
  refine ⟨?_, ?_, ?_, ?_⟩
  · rw [hkept 0 (by omega)]
    exact h.version
  · rw [hswap.length_eq]
    exact h.header_le
  · rw [hswap.length_eq, u16At,
      Bytes.slice_congr (fun k _ hk => hswap.outside k (by omega) (by omega))]
    exact h.payloadLength
  · rw [hkept 6 (by omega)]
    exact hswap.complete (by omega) h.transport

theorem OnTheWire.swapEnds {link bytes : List UInt8} (h : OnTheWire link bytes) :
    OnTheWire link (swapEnds bytes) := by
  cases h with
  | ipv4 packet header => exact .ipv4 packet.swapEnds header
  | ipv6 packet header => exact .ipv6 packet.swapEnds header

theorem tupleFromIpPacket_swapEnds {link bytes : List UInt8} (h : OnTheWire link bytes) :
    tupleFromIpPacket (swapEnds bytes) = (tupleFromIpPacket bytes).map NetTuple.reverse := by
  cases h with
  | ipv4 packet header =>
    have hswap := swapEnds_ipv4 packet
    have hmin := packet.minimal
    have hprotocol : (swapEnds bytes).getD 9 0 = bytes.getD 9 0 :=
      getD_congr (hswap.outside 9 (by omega) (by omega))
    have hsource : v4At (swapEnds bytes) 12 = v4At bytes 16 := by
      rw [v4At, v4At]
      exact congrArg (fun digits => IpAddr.v4 (BitVec.ofNat 32 (fromBigEndian digits)))
        hswap.source
    have hdestination : v4At (swapEnds bytes) 16 = v4At bytes 12 := by
      rw [v4At, v4At]
      exact congrArg (fun digits => IpAddr.v4 (BitVec.ofNat 32 (fromBigEndian digits)))
        hswap.destination
    rw [tupleFromIpPacket_ipv4 packet, tupleFromIpPacket_ipv4 packet.swapEnds, Option.map_some,
      packet.headerLen_swapEnds, hprotocol, hsource, hdestination, hswap.tupleOf_eq]
  | ipv6 packet header =>
    have hswap := swapEnds_ipv6 packet
    have hprotocol : (swapEnds bytes).getD 6 0 = bytes.getD 6 0 :=
      getD_congr (hswap.outside 6 (by omega) (by omega))
    have hsource : v6At (swapEnds bytes) 8 = v6At bytes 24 := by
      rw [v6At, v6At]
      exact congrArg (fun digits => IpAddr.v6 (BitVec.ofNat 128 (fromBigEndian digits)))
        hswap.source
    have hdestination : v6At (swapEnds bytes) 24 = v6At bytes 8 := by
      rw [v6At, v6At]
      exact congrArg (fun digits => IpAddr.v6 (BitVec.ofNat 128 (fromBigEndian digits)))
        hswap.destination
    rw [tupleFromIpPacket_ipv6 packet, tupleFromIpPacket_ipv6 packet.swapEnds, Option.map_some,
      hprotocol, hsource, hdestination, hswap.tupleOf_eq]

theorem fromTuple_reverse (tuple : NetTuple) :
    FlowKey.fromTuple tuple.reverse = FlowKey.fromTuple tuple :=
  (fromTuple_eq_iff _ _).2 ⟨rfl, Or.inr ⟨rfl, rfl⟩⟩

/-! ### The detection path -/

namespace Decode

variable {E : Etherparse}

@[simp] theorem DecodedFrame.note_toDecoded (d : DecodedFrame) (layer : Layer)
    (kind : AnomalyKind) : (d.note layer kind).toDecoded = d.toDecoded := rfl

@[simp] theorem DecodedFrame.noteIf_toDecoded (d : DecodedFrame) (condition : Bool) (layer : Layer)
    (kind : AnomalyKind) : (d.noteIf condition layer kind).toDecoded = d.toDecoded := by
  rw [noteIf]
  split_ifs
  · exact d.note_toDecoded layer kind
  · rfl

def HasPorts (d : DecodedFrame) (segment : List UInt8) : Prop :=
  ∃ transport, d.transport = some transport ∧ transport.sourcePort = some (u16At segment 0) ∧
    transport.destinationPort = some (u16At segment 2)

theorem decodeTcp_spec (hE : E.ReadsStandardFields) (d : DecodedFrame) {segment : List UInt8}
    (hmin : 20 ≤ tcpHeaderLen segment) (hle : tcpHeaderLen segment ≤ segment.length)
    (start stop : ℕ) :
    (decodeTcp E d segment start stop).network = d.network ∧
      HasPorts (decodeTcp E d segment start stop) segment := by
  obtain ⟨header, htcp, hsource, hdestination⟩ := hE.tcp segment hmin hle
  have hlen : ¬segment.length < minTcpHeader := by
    simp only [minTcpHeader]
    omega
  rw [tcpHeaderLen] at hmin hle
  simp only [decodeTcp, htcp]
  rw [if_neg hlen, if_neg (by omega), if_neg (by omega)]
  exact ⟨rfl, _, rfl, congrArg some hsource, congrArg some hdestination⟩

theorem decodeUdp_spec (hE : E.ReadsStandardFields) (d : DecodedFrame) {segment : List UInt8}
    (hle : 8 ≤ segment.length) (start stop : ℕ) :
    (decodeUdp E d segment start stop).network = d.network ∧
      HasPorts (decodeUdp E d segment start stop) segment := by
  obtain ⟨header, hudp, hsource, hdestination⟩ := hE.udp segment hle
  have hlen : ¬segment.length < udpHeaderLen := by
    simp only [udpHeaderLen]
    omega
  simp only [decodeUdp, hudp]
  rw [if_neg hlen]
  refine ⟨?_, _, rfl, congrArg some hsource, congrArg some hdestination⟩
  split_ifs
  · rfl
  · change (d.noteIf _ _ _).network = d.network
    rw [d.noteIf_toDecoded]

theorem decodeTransport_spec (hE : E.ReadsStandardFields) (d : DecodedFrame) {protocol : UInt8}
    {start stop : ℕ} (hstart : start ≤ stop) (hstop : stop ≤ d.frame.length)
    (hcomplete : CompleteTransport protocol (Bytes.slice d.frame start stop)) :
    (decodeTransport E d protocol start stop).network = d.network ∧
      HasPorts (decodeTransport E d protocol start stop) (Bytes.slice d.frame start stop) := by
  simp only [decodeTransport, min_eq_left hstop]
  rw [if_pos hstart]
  rcases hcomplete with ⟨rfl, hmin, hle⟩ | ⟨rfl, hle⟩
  · rw [if_pos rfl]
    exact decodeTcp_spec hE d hmin hle start stop
  · rw [if_neg (by decide), if_pos rfl]
    exact decodeUdp_spec hE d hle start stop

/-- A frame decoded as a packet between two addresses that is no fragment, with the ports of its
transport header. -/
def Names (d : DecodedFrame) (source destination : IpAddr) (protocol : UInt8)
    (segment : List UInt8) : Prop :=
  ∃ network, d.network = some network ∧ network.isFragment = false ∧ network.source = source ∧
    network.destination = destination ∧ network.protocol = protocol ∧ HasPorts d segment

/-- The rest of a frame after its link layer header and the first bytes of the packet. -/
theorem slice_frame {link bytes : List UInt8} {headerLen : ℕ} (hle : headerLen ≤ bytes.length) :
    Bytes.slice (link ++ bytes) (offsetOf (link ++ bytes) (bytes.drop headerLen))
      (link ++ bytes).length = bytes.drop headerLen := by
  have hoffset : offsetOf (link ++ bytes) (bytes.drop headerLen) = link.length + headerLen := by
    simp only [offsetOf, List.length_append, List.length_drop]
    omega
  rw [hoffset, Bytes.slice, List.take_length, ← List.drop_drop, List.drop_left]

theorem decodeNetworkPayload_spec (hE : E.ReadsStandardFields) {d : DecodedFrame}
    {link bytes : List UInt8} (hframe : d.frame = link ++ bytes) {headerLen : ℕ}
    (hle : headerLen ≤ bytes.length) {network : Network} (hwhole : network.isFragment = false)
    (hcomplete : CompleteTransport network.protocol (bytes.drop headerLen)) :
    Names (decodeNetworkPayload E d network (offsetOf (link ++ bytes) (bytes.drop headerLen))
      (link ++ bytes).length) network.source network.destination network.protocol
      (bytes.drop headerLen) := by
  have hslice : Bytes.slice d.frame (offsetOf (link ++ bytes) (bytes.drop headerLen))
      (link ++ bytes).length = bytes.drop headerLen := by
    rw [hframe]
    exact slice_frame hle
  have hstart : offsetOf (link ++ bytes) (bytes.drop headerLen) ≤ (link ++ bytes).length :=
    Nat.sub_le _ _
  rw [← hslice] at hcomplete
  have hspec := decodeTransport_spec hE { d with
    network := some network
    networkPayload := clampRange (offsetOf (link ++ bytes) (bytes.drop headerLen))
      (link ++ bytes).length d.frame.length } hstart (by rw [hframe]) hcomplete
  simp only [hslice] at hspec
  simp only [decodeNetworkPayload, hwhole, Bool.false_and, Bool.false_eq_true, if_false]
  exact ⟨network, hspec.1, hwhole, rfl, rfl, rfl, hspec.2⟩

theorem moreFragments_eq_false_of_unfragmented {high : UInt8} (h : high &&& 0x3f = 0) :
    (high &&& 0x20 != 0) = false := by
  have hmask : high &&& 0x20 = (high &&& 0x3f) &&& 0x20 := by
    rw [UInt8.and_assoc]
    rfl
  rw [hmask, h]
  rfl

theorem decodeIpv4_spec (hE : E.ReadsStandardFields) (d : DecodedFrame) {link bytes : List UInt8}
    (hframe : d.frame = link ++ bytes) (h : WholeIpv4 bytes) :
    Names (decodeIpv4 E d bytes) (v4At bytes 12) (v4At bytes 16) (bytes.getD 9 0)
      (bytes.drop (ipv4HeaderLen bytes)) := by
  have hmin := h.minimal
  have hle := h.header_le
  have htotal := h.totalLen
  obtain ⟨header, hipv4, hlen, hoffset, hmore, hprotocol, hsource, hdestination⟩ :=
    hE.ipv4 bytes h.version hmin hle (by omega)
  have hwhole : (Network.ipv4 ⟨header.source, header.destination, header.protocol,
      header.identification, header.fragmentOffset, header.moreFragments⟩).isFragment = false := by
    simp only [Network.isFragment, hmore, hoffset, Bool.false_or,
      moreFragments_eq_false_of_unfragmented h.unfragmented.1,
      offset_eq_zero_of_unfragmented h.unfragmented]
    rfl
  have hfold : (bytes.getD 0 0 &&& 0x0f).toNat * 4 = ipv4HeaderLen bytes := rfl
  have hihl : ¬(bytes.getD 0 0 &&& 0x0f).toNat < 5 := by omega
  have hstop : min (offsetOf (link ++ bytes) bytes + max bytes.length (ipv4HeaderLen bytes))
      (link ++ bytes).length = (link ++ bytes).length := by
    simp only [offsetOf, List.length_append]
    omega
  rw [← hsource, ← hdestination, ← hprotocol]
  simp only [decodeIpv4, head?_of_length_pos (show 0 < bytes.length by omega), hipv4, hfold]
  rw [if_neg (not_not.2 h.version), if_neg hihl, if_neg (by omega), hlen, htotal,
    if_neg (by omega)]
  simp only [DecodedFrame.noteIf_toDecoded, hframe, hstop]
  refine decodeNetworkPayload_spec hE ?_ hle hwhole ?_
  · simp only [DecodedFrame.noteIf_toDecoded, hframe]
  · simp only [Network.protocol, hprotocol]
    exact h.transport

theorem decodeIpv6_spec (hE : E.ReadsStandardFields) (d : DecodedFrame) {link bytes : List UInt8}
    (hframe : d.frame = link ++ bytes) (h : WholeIpv6 bytes) :
    Names (decodeIpv6 E d bytes) (v6At bytes 8) (v6At bytes 24) (bytes.getD 6 0)
      (bytes.drop 40) := by
  have hle := h.header_le
  have hpayload := h.payloadLength
  obtain ⟨header, hipv6, hlen, hnext, hsource, hdestination⟩ := hE.ipv6 bytes h.version hle
  have hextension : isIpv6Extension header.nextHeader = false := by
    rw [hnext]
    rcases h.transport with ⟨hprotocol, -⟩ | ⟨hprotocol, -⟩
    · rw [hprotocol]
      decide
    · rw [hprotocol]
      decide
  have hwalk : walkExtensions maxIpv6ExtensionHeaders
      { protocol := header.nextHeader, cursor := bytes.drop 40 } =
      { protocol := header.nextHeader, cursor := bytes.drop 40 } := by
    simp only [maxIpv6ExtensionHeaders, walkExtensions, hextension, Bool.false_eq_true, if_false]
  have hstop : min (offsetOf (link ++ bytes) bytes + ipv6HeaderLen + (u16At bytes 4).toNat)
      (link ++ bytes).length = (link ++ bytes).length := by
    simp only [offsetOf, List.length_append, ipv6HeaderLen]
    omega
  rw [← hsource, ← hdestination, ← hnext]
  simp only [decodeIpv6, head?_of_length_pos (show 0 < bytes.length by omega), hipv6, hwalk,
    Option.elim_none, hlen]
  rw [if_neg (not_not.2 h.version)]
  simp only [DecodedFrame.noteIf_toDecoded, hframe, hstop]
  refine decodeNetworkPayload_spec hE ?_ hle rfl ?_
  · simp only [DecodedFrame.noteIf_toDecoded, hframe]
  · simp only [Network.protocol, hnext]
    exact h.transport

theorem decode_eq_decodeNetwork (hE : E.ReadsStandardFields) {link : List UInt8}
    {etherType : UInt16} (hlink : EthernetHeader link etherType) (htag : isVlan etherType = false)
    (bytes : List UInt8) (originalLen : ℕ) :
    decode E (link ++ bytes) originalLen =
      decodeNetwork E (DecodedFrame.new (link ++ bytes) originalLen) etherType bytes := by
  have hlength := hlink.length_eq
  have hne : link ++ bytes ≠ [] := by
    intro hnil
    have := congrArg List.length hnil
    simp only [List.length_append, List.length_nil] at this
    omega
  have htype : u16At (link ++ bytes) 12 = etherType := by
    rw [← hlink.etherType_eq, u16At, u16At, Bytes.slice, Bytes.slice,
      List.take_append_of_le_length (by omega)]
  have hrest : (link ++ bytes).drop 14 = bytes := by
    rw [← hlength, List.drop_left]
  simp only [decode]
  rw [if_neg hne, hE.ethernet2 _ (by simp only [List.length_append]; omega), htype, hrest]
  simp only [maxVlanTags, decodeTags, htag, Bool.false_eq_true, if_false]

end Decode

theorem portOrNone_getD (port : UInt16) : (portOrNone port).getD 0 = port := by
  rw [portOrNone]
  split_ifs with h
  · rfl
  · exact (not_not.1 h).symm

/-- The tuple of the frame's summary, seen from the IP header. A port that is zero is absent in one
and zero in the other, which the key does not tell apart. -/
def SummaryNamed (d : Decoded) (key : Prevent.FlowKey) : Prop :=
  ∃ network, d.network = some network ∧ network.isFragment = false ∧
    ∀ timestamp, FlowKey.fromTuple (summaryTuple
      (d.summary network.protocol network.source network.destination timestamp)) = key

theorem summaryNamed_of_names {d : DecodedFrame} {source destination : IpAddr} {protocol : UInt8}
    {segment : List UInt8} (h : Names d source destination protocol segment) :
    SummaryNamed d.toDecoded
      (FlowKey.fromTuple (tupleOf source destination protocol segment)) := by
  obtain ⟨network, hnetwork, hwhole, rfl, rfl, rfl, transport, htransport, hsource, hdestination⟩ :=
    h
  refine ⟨network, hnetwork, hwhole, fun timestamp => ?_⟩
  refine (fromTuple_eq_iff _ _).2 ⟨rfl, Or.inl ⟨?_, ?_⟩⟩
  · simp only [NetTuple.source, summaryTuple, Decoded.summary, tupleOf, htransport,
      Option.bind_some, hsource, Option.getD_some, portOrNone_getD]
  · simp only [NetTuple.destination, summaryTuple, Decoded.summary, tupleOf, htransport,
      Option.bind_some, hdestination, Option.getD_some, portOrNone_getD]

theorem decode_summaryNamed {E : Etherparse} (hE : E.ReadsStandardFields)
    {link bytes : List UInt8} (h : OnTheWire link bytes) (originalLen : ℕ) :
    ∃ tuple, tupleFromIpPacket bytes = some tuple ∧
      SummaryNamed (decode E (link ++ bytes) originalLen).toDecoded (FlowKey.fromTuple tuple) := by
  cases h with
  | ipv4 packet header =>
    refine ⟨_, tupleFromIpPacket_ipv4 packet, summaryNamed_of_names ?_⟩
    rw [decode_eq_decodeNetwork hE header (by decide), decodeNetwork, if_pos rfl]
    exact decodeIpv4_spec hE _ rfl packet
  | ipv6 packet header =>
    refine ⟨_, tupleFromIpPacket_ipv6 packet, summaryNamed_of_names ?_⟩
    rw [decode_eq_decodeNetwork hE header (by decide), decodeNetwork, if_neg
      (by decide), if_pos rfl]
    exact decodeIpv6_spec hE _ rfl packet

/-! ### What the engine is called with -/

section Trace

open Detect

variable {R : Regex} {A : AhoCorasick}

def Detect.Call.tuple? : Call → Option NetTuple
  | .packet _ _ tuple _ _ _ => some tuple
  | .stream _ _ tuple _ _ _ => some tuple
  | .flowEnd _ => none

def AllNamed (key : Prevent.FlowKey) (trace : List Event) : Prop :=
  ∀ call output, Event.call call output ∈ trace →
    ∀ tuple ∈ call.tuple?, FlowKey.fromTuple tuple = key

theorem AllNamed.append {key : Prevent.FlowKey} {first second : List Event} (h : AllNamed key first)
    (h' : AllNamed key second) : AllNamed key (first ++ second) := by
  intro call output hmem
  rcases List.mem_append.1 hmem with hfirst | hsecond
  · exact h call output hfirst
  · exact h' call output hsecond

theorem AllNamed.nil (key : Prevent.FlowKey) : AllNamed key [] := by
  intro call output hmem
  cases hmem

theorem callEngine_allNamed (p : PacketPipeline R A) {key : Prevent.FlowKey} {call : Call}
    (h : ∀ tuple ∈ call.tuple?, FlowKey.fromTuple tuple = key) :
    AllNamed key (p.callEngine call).2 := by
  rw [PacketPipeline.callEngine]
  cases p.engine with
  | none => exact AllNamed.nil key
  | some engine =>
    intro called output hmem
    cases List.mem_singleton.1 hmem
    exact h

theorem callAll_allNamed {key : Prevent.FlowKey} (calls : List Call) (p : PacketPipeline R A)
    (h : ∀ call ∈ calls, ∀ tuple ∈ call.tuple?, FlowKey.fromTuple tuple = key) :
    AllNamed key (p.callAll calls).2 := by
  induction calls generalizing p with
  | nil => exact AllNamed.nil key
  | cons call rest ih =>
    refine (callEngine_allNamed p (h call List.mem_cons_self)).append (ih _ ?_)
    intro other hother
    exact h other (List.mem_cons_of_mem _ hother)

theorem inspectDatagram_allNamed (p : PacketPipeline R A) (walks : Walks) (observed : Observed)
    {packet : PacketSummary} {key : Prevent.FlowKey}
    (h : FlowKey.fromTuple (summaryTuple packet) = key) :
    AllNamed key (p.inspectDatagram walks observed packet).2 := by
  rw [PacketPipeline.inspectDatagram]
  split_ifs
  · apply callEngine_allNamed p
    intro tuple htuple
    cases htuple
    exact h
  · exact AllNamed.nil key

theorem consumeReady_allNamed (p : PacketPipeline R A) (walks : Walks) (flowId : UInt64)
    {oriented : NetTuple} (timestamp : Instant) (ready : StreamReady) {key : Prevent.FlowKey}
    (h : FlowKey.fromTuple oriented = key) :
    AllNamed key (p.consumeReady walks flowId oriented timestamp ready).2 := by
  rw [PacketPipeline.consumeReady]
  split_ifs
  · exact AllNamed.nil key
  · apply callAll_allNamed _ _
    intro call hcall tuple htuple
    rw [PacketPipeline.streamCalls] at hcall
    obtain ⟨side, hside, hsome⟩ := List.mem_filterMap.1 hcall
    split_ifs at hsome
    cases hsome
    cases htuple
    rcases List.mem_cons.1 hside with rfl | hside
    · exact h
    · cases List.mem_singleton.1 hside
      rw [fromTuple_reverse]
      exact h

theorem observe_allNamed (p : PacketPipeline R A) (walks : Walks) {packet : PacketSummary}
    {key : Prevent.FlowKey} (h : FlowKey.fromTuple (summaryTuple packet) = key) :
    AllNamed key (p.observe walks packet).2 := by
  have horiented (toServer : Bool) : FlowKey.fromTuple
      (if toServer then summaryTuple packet else (summaryTuple packet).reverse) = key := by
    split_ifs
    · exact h
    · rw [fromTuple_reverse, h]
  simp only [PacketPipeline.observe]
  intro call output hmem
  rcases List.mem_cons.1 hmem with hdelivered | hmem
  · cases hdelivered
  · exact AllNamed.append (inspectDatagram_allNamed _ walks _ h)
      (consumeReady_allNamed _ walks _ _ _ (horiented _)) call output hmem

theorem drainEndedFlows_allNamed (p : PacketPipeline R A) (key : Prevent.FlowKey) :
    AllNamed key p.drainEndedFlows.2 := by
  rw [PacketPipeline.drainEndedFlows]
  split_ifs
  · exact AllNamed.nil key
  · refine AllNamed.append ?_ (callAll_allNamed _ _ ?_)
    · intro call output hmem
      obtain ⟨flow, -, hflow⟩ := List.mem_map.1 hmem
      cases hflow
    · intro call hcall tuple htuple
      obtain ⟨flow, -, rfl⟩ := List.mem_map.1 hcall
      cases htuple

/-- Whatever the pipeline hands to the engine for a frame is named as the frame's summary is. -/
theorem onPacket_allNamed (p : PacketPipeline R A) (D : Decoder) (walks again : Walks)
    (sets : Tables.HashOrder FragmentKey) (packet : RawPacket) {key : Prevent.FlowKey}
    (h : SummaryNamed (D.decode packet.data packet.originalLen) key) :
    AllNamed key (p.onPacket D walks again sets packet).2 := by
  obtain ⟨network, hnetwork, hwhole, hkey⟩ := h
  refine AllNamed.append ?_ (drainEndedFlows_allNamed _ key)
  simp only [PacketPipeline.track, hnetwork, hwhole, Bool.false_eq_true, if_false]
  exact observe_allNamed p walks (hkey packet.timestamp)

end Trace

theorem enforces_of_blocked {store : Prevention} {tuple : NetTuple} {now : Instant}
    {source : Option IpAddr} (h : (store.block tuple now).2 = .blocked source) :
    store.enforces tuple = true := by
  rw [Prevention.block] at h
  rw [Prevention.enforces]
  cases harmed : store.armed with
  | false => simp [harmed] at h
  | true =>
    cases hsrc : store.isAllowListed tuple.srcIp with
    | true => simp [harmed, hsrc] at h
    | false =>
      cases hdest : store.isAllowListed tuple.destIp with
      | true => simp [harmed, hsrc, hdest] at h
      | false => rfl

theorem enforces_congr (store : Prevention) {tuple other : NetTuple}
    (h : SameConversation other tuple) : store.enforces other = store.enforces tuple := by
  rw [Prevention.enforces, Prevention.enforces]
  rcases h.2 with ⟨hsource, hdestination⟩ | ⟨hsource, hdestination⟩
  · have hsrc : other.srcIp = tuple.srcIp := congrArg Endpoint.ip hsource
    have hdest : other.destIp = tuple.destIp := congrArg Endpoint.ip hdestination
    rw [hsrc, hdest]
  · have hsrc : other.srcIp = tuple.destIp := congrArg Endpoint.ip hsource
    have hdest : other.destIp = tuple.srcIp := congrArg Endpoint.ip hdestination
    rw [hsrc, hdest, Bool.and_right_comm]

/-- A conversation condemned under one of its tuples is found under any other. -/
theorem decide_of_blocked {store : Prevention} {tuple other : NetTuple} {now : Instant}
    {source : Option IpAddr} (hblocked : (store.block tuple now).2 = .blocked source)
    (hsame : FlowKey.fromTuple other = FlowKey.fromTuple tuple) (later : Instant) :
    ((store.block tuple now).1.decide other later).2 = .drop .flowVerdict := by
  rcases block_cases store tuple now with ⟨hrefused, -⟩ | ⟨-, -, -, -, -, hflows, -, hsettings⟩
  · exact absurd hblocked (hrefused source)
  · rw [decide_eq_flowVerdict_iff]
    refine ⟨?_, ?_⟩
    · have henforces := enforces_of_blocked hblocked
      rw [← enforces_congr store ((fromTuple_eq_iff _ _).1 hsame)] at henforces
      simp only [Prevention.enforces, Prevention.armed, Prevention.isAllowListed, hsettings]
      exact henforces
    · rw [hflows, hsame, AList.mem_insert]
      exact Or.inl rfl

/-- The verdict path and the detection path name the conversation of a packet with one key, for the
packet and for the same packet the other way round: the key of the tuple read from the IP header,
that of the summary of the decoded frame, and that of every tuple the engine is given for the frame
are the same, so that a block recorded under one of them is found under another. -/
theorem one_name_for_a_conversation {E : Etherparse} (hE : E.ReadsStandardFields)
    {link bytes : List UInt8} (h : OnTheWire link bytes) :
    ∃ key, (∀ packet ∈ [bytes, swapEnds bytes],
      (tupleFromIpPacket packet).map FlowKey.fromTuple = some key ∧
      ∀ originalLen, SummaryNamed ((decoder E).decode (link ++ packet) originalLen) key ∧
        ∀ (R : Detect.Regex) (A : Detect.AhoCorasick) (p : PacketPipeline R A) walks again sets
          timestamp, AllNamed key (p.onPacket (decoder E) walks again sets
            ⟨link ++ packet, originalLen, timestamp⟩).2) ∧
      ∀ tuple other, FlowKey.fromTuple tuple = key → FlowKey.fromTuple other = key →
        ∀ (store : Prevention) now later source, (store.block tuple now).2 = .blocked source →
          ((store.block tuple now).1.decide other later).2 = .drop .flowVerdict := by
  obtain ⟨tuple, htuple, -⟩ := decode_summaryNamed hE h 0
  refine ⟨FlowKey.fromTuple tuple, ?_, ?_⟩
  · have hnamed (packet : List UInt8) (hwire : OnTheWire link packet)
        (hkey : (tupleFromIpPacket packet).map FlowKey.fromTuple = some (FlowKey.fromTuple tuple))
        (originalLen : ℕ) : SummaryNamed ((decoder E).decode (link ++ packet) originalLen)
          (FlowKey.fromTuple tuple) := by
      obtain ⟨read, hread, hsummary⟩ := decode_summaryNamed hE hwire originalLen
      rw [hread, Option.map_some, Option.some_inj] at hkey
      rw [← hkey]
      exact hsummary
    have hone (packet : List UInt8) (hwire : OnTheWire link packet)
        (hkey : (tupleFromIpPacket packet).map FlowKey.fromTuple =
          some (FlowKey.fromTuple tuple)) :
        (tupleFromIpPacket packet).map FlowKey.fromTuple = some (FlowKey.fromTuple tuple) ∧
        ∀ originalLen, SummaryNamed ((decoder E).decode (link ++ packet) originalLen)
          (FlowKey.fromTuple tuple) ∧
          ∀ (R : Detect.Regex) (A : Detect.AhoCorasick) (p : PacketPipeline R A) walks again sets
            timestamp, AllNamed (FlowKey.fromTuple tuple) (p.onPacket (decoder E) walks again sets
              ⟨link ++ packet, originalLen, timestamp⟩).2 := by
      refine ⟨hkey, fun originalLen => ⟨hnamed packet hwire hkey originalLen, ?_⟩⟩
      intro R A p walks again sets timestamp
      exact onPacket_allNamed p (decoder E) walks again sets _
        (hnamed packet hwire hkey originalLen)
    intro packet hpacket
    rcases List.mem_cons.1 hpacket with rfl | hpacket
    · apply hone packet h
      rw [htuple, Option.map_some]
    · cases List.mem_singleton.1 hpacket
      apply hone _ h.swapEnds
      rw [tupleFromIpPacket_swapEnds h, htuple, Option.map_some, Option.map_some,
        fromTuple_reverse]
  · intro first second hfirst hsecond store now later source hblocked
    exact decide_of_blocked hblocked (hsecond.trans hfirst.symm) later

/-! ### A header library -/

/-- The Internet checksum of a header whose own checksum field is at byte ten. -/
def internetChecksum (header : List UInt8) : UInt16 :=
  let words := (List.range (header.length / 2)).filterMap fun i =>
    if i = 5 then none else some (u16At header (2 * i)).toNat
  let fold (n : ℕ) := n % 2 ^ 16 + n / 2 ^ 16
  UInt16.ofNat (2 ^ 16 - 1 - fold (fold words.sum))

def tcpFlagsOf (byte : UInt8) : TcpFlags where
  fin := byte &&& 0x01 != 0
  syn := byte &&& 0x02 != 0
  rst := byte &&& 0x04 != 0
  psh := byte &&& 0x08 != 0
  ack := byte &&& 0x10 != 0
  urg := byte &&& 0x20 != 0
  ece := byte &&& 0x40 != 0
  cwr := byte &&& 0x80 != 0

def Decode.Etherparse.standard : Etherparse where
  ethernet2 bytes := if 14 ≤ bytes.length then some (u16At bytes 12, bytes.drop 14) else none
  singleVlan bytes :=
    if 4 ≤ bytes.length then some (⟨u16At bytes 0 &&& 0x0fff, u16At bytes 2⟩, bytes.drop 4)
    else none
  ipv4 bytes :=
    if bytes.getD 0 0 >>> 4 = 4 ∧ 20 ≤ ipv4HeaderLen bytes ∧ ipv4HeaderLen bytes ≤ bytes.length then
      some (⟨BitVec.ofNat 32 (fromBigEndian (Bytes.slice bytes 12 16)),
        BitVec.ofNat 32 (fromBigEndian (Bytes.slice bytes 16 20)), bytes.getD 9 0, u16At bytes 4,
        UInt16.ofNat (fromBigEndian [bytes.getD 6 0 &&& 0x1f, bytes.getD 7 0]),
        bytes.getD 6 0 &&& 0x20 != 0, u16At bytes 2, u16At bytes 10,
        internetChecksum (bytes.take (ipv4HeaderLen bytes))⟩, bytes.drop (ipv4HeaderLen bytes))
    else none
  ipv6 bytes :=
    if bytes.getD 0 0 >>> 4 = 6 ∧ 40 ≤ bytes.length then
      some (⟨BitVec.ofNat 128 (fromBigEndian (Bytes.slice bytes 8 24)),
        BitVec.ofNat 128 (fromBigEndian (Bytes.slice bytes 24 40)), bytes.getD 6 0,
        u16At bytes 4⟩, bytes.drop 40)
    else none
  tcp bytes :=
    if 20 ≤ tcpHeaderLen bytes ∧ tcpHeaderLen bytes ≤ bytes.length then
      some (⟨u16At bytes 0, u16At bytes 2, UInt32.ofNat (fromBigEndian (Bytes.slice bytes 4 8)),
        UInt32.ofNat (fromBigEndian (Bytes.slice bytes 8 12)), tcpFlagsOf (bytes.getD 13 0)⟩,
        bytes.drop (tcpHeaderLen bytes))
    else none
  udp bytes :=
    if 8 ≤ bytes.length then some (⟨u16At bytes 0, u16At bytes 2, u16At bytes 4⟩, bytes.drop 8)
    else none

theorem Decode.Etherparse.standard_reads : Etherparse.standard.ReadsStandardFields where
  ethernet2 _ h := if_pos h
  ipv4 _ hversion hmin hle _ :=
    ⟨_, if_pos ⟨hversion, hmin, hle⟩, rfl, rfl, rfl, rfl, rfl, rfl⟩
  ipv6 _ hversion hle := ⟨_, if_pos ⟨hversion, hle⟩, rfl, rfl, rfl, rfl⟩
  tcp _ hmin hle := ⟨_, if_pos ⟨hmin, hle⟩, rfl, rfl⟩
  udp _ h := ⟨_, if_pos h, rfl, rfl⟩

/-- A datagram with an IPv4 option, from port zero of one host to port 53 of another. -/
def datagramWithOption : List UInt8 :=
  [0x46, 0, 0, 32, 0, 1, 0x40, 0, 64, 17, 0, 0, 10, 0, 0, 1, 10, 0, 0, 2, 1, 1, 1, 1,
    0, 0, 0, 53, 0, 8, 0, 0]

def linkToIpv4 : List UInt8 := [2, 0, 0, 0, 0, 1, 2, 0, 0, 0, 0, 2, 0x08, 0x00]

theorem datagramWithOption_onTheWire : OnTheWire linkToIpv4 datagramWithOption :=
  .ipv4
    { version := by decide
      minimal := by decide
      header_le := by decide
      totalLen := by decide
      unfragmented := by decide
      transport := by
        refine Or.inr ⟨?_, ?_⟩
        · decide
        · decide }
    { length_eq := by decide
      etherType_eq := by decide }

theorem one_name_for_a_datagram :
    OnTheWire linkToIpv4 datagramWithOption ∧
    ∃ key, (∀ packet ∈ [datagramWithOption, swapEnds datagramWithOption],
      (tupleFromIpPacket packet).map FlowKey.fromTuple = some key ∧
      ∀ originalLen, SummaryNamed
        ((decoder Etherparse.standard).decode (linkToIpv4 ++ packet) originalLen) key ∧
        ∀ (R : Detect.Regex) (A : Detect.AhoCorasick) (p : PacketPipeline R A) walks again sets
          timestamp, AllNamed key (p.onPacket (decoder Etherparse.standard) walks again sets
            ⟨linkToIpv4 ++ packet, originalLen, timestamp⟩).2) ∧
      ∀ tuple other, FlowKey.fromTuple tuple = key → FlowKey.fromTuple other = key →
        ∀ (store : Prevention) now later source, (store.block tuple now).2 = .blocked source →
          ((store.block tuple now).1.decide other later).2 = .drop .flowVerdict :=
  ⟨datagramWithOption_onTheWire,
    one_name_for_a_conversation Etherparse.standard_reads datagramWithOption_onTheWire⟩

end CyberSentinel
