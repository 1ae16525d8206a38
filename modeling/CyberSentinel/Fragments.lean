import CyberSentinel.Conversations
import CyberSentinel.DefragExact

/-!
# IP packets and their fragments on the wire

A frame carries an IP packet behind an Ethernet header with up to two VLAN tags and may end in bytes
that are not the packet's. What the decoder makes of it depends on the packet alone: the network
layer it finds is the one the header says, the bytes it hands to the defragmenter are those the
packet carries, and of a packet that is no fragment it reads the transport header as it would read
it from these bytes by themselves.
-/

namespace CyberSentinel

open Decode

/-- VLAN tags between one EtherType and the next, and how many there are. -/
inductive VlanTags : UInt16 → List UInt8 → UInt16 → ℕ → Prop
  | nil (etherType : UInt16) : VlanTags etherType [] etherType 0
  | cons {etherType last : UInt16} {tag rest : List UInt8} {n : ℕ} (vlan : isVlan etherType = true)
      (length_eq : tag.length = 4) (tags : VlanTags (u16At tag 2) rest last n) :
      VlanTags etherType (tag ++ rest) last (n + 1)

/-- What is in front of a packet: an Ethernet header, with tags up to the decoder's limit. -/
def LinkHeader (link : List UInt8) (etherType : UInt16) : Prop :=
  ∃ ethernet tags first n, link = ethernet ++ tags ∧ EthernetHeader ethernet first ∧
    VlanTags first tags etherType n ∧ n ≤ maxVlanTags

/-- A whole IPv4 packet, with or without options: its header and the bytes after it. -/
structure Ipv4Packet (bytes : List UInt8) (ip : Ipv4Info) (payload : List UInt8) : Prop where
  version : bytes.getD 0 0 >>> 4 = 4
  minimal : 20 ≤ ipv4HeaderLen bytes
  header_le : ipv4HeaderLen bytes ≤ bytes.length
  totalLen : (u16At bytes 2).toNat = bytes.length
  identification_eq : u16At bytes 4 = ip.identification
  fragmentOffset_eq :
    UInt16.ofNat (fromBigEndian [bytes.getD 6 0 &&& 0x1f, bytes.getD 7 0]) = ip.fragmentOffset
  moreFragments_eq : (bytes.getD 6 0 &&& 0x20 != 0) = ip.moreFragments
  protocol_eq : bytes.getD 9 0 = ip.protocol
  source_eq : v4At bytes 12 = .v4 ip.source
  destination_eq : v4At bytes 16 = .v4 ip.destination
  payload_eq : bytes.drop (ipv4HeaderLen bytes) = payload

instance (bytes : List UInt8) (ip : Ipv4Info) (payload : List UInt8) :
    Decidable (Ipv4Packet bytes ip payload) :=
  decidable_of_iff (bytes.getD 0 0 >>> 4 = 4 ∧ 20 ≤ ipv4HeaderLen bytes ∧
      ipv4HeaderLen bytes ≤ bytes.length ∧ (u16At bytes 2).toNat = bytes.length ∧
      u16At bytes 4 = ip.identification ∧
      UInt16.ofNat (fromBigEndian [bytes.getD 6 0 &&& 0x1f, bytes.getD 7 0]) = ip.fragmentOffset ∧
      (bytes.getD 6 0 &&& 0x20 != 0) = ip.moreFragments ∧ bytes.getD 9 0 = ip.protocol ∧
      v4At bytes 12 = .v4 ip.source ∧ v4At bytes 16 = .v4 ip.destination ∧
      bytes.drop (ipv4HeaderLen bytes) = payload)
    ⟨fun h => ⟨h.1, h.2.1, h.2.2.1, h.2.2.2.1, h.2.2.2.2.1, h.2.2.2.2.2.1, h.2.2.2.2.2.2.1,
        h.2.2.2.2.2.2.2.1, h.2.2.2.2.2.2.2.2.1, h.2.2.2.2.2.2.2.2.2.1, h.2.2.2.2.2.2.2.2.2.2⟩,
      fun h => ⟨h.version, h.minimal, h.header_le, h.totalLen, h.identification_eq,
        h.fragmentOffset_eq, h.moreFragments_eq, h.protocol_eq, h.source_eq, h.destination_eq,
        h.payload_eq⟩⟩

/-- The length an extension header gives itself in its second byte. -/
def extensionHeaderLen (kind second : UInt8) : ℕ :=
  if kind = 51 then (second.toNat + 2) * 4 else (second.toNat + 1) * 8

/-- Extension headers one after the other, none of them a fragment header: the kind of the first,
the protocol that the last one names, and how many there are. -/
inductive ExtensionChain : UInt8 → List UInt8 → UInt8 → ℕ → Prop
  | nil (protocol : UInt8) : ExtensionChain protocol [] protocol 0
  | cons {kind last : UInt8} {header rest : List UInt8} {n : ℕ}
      (extension : isIpv6Extension kind = true) (not_fragment : kind ≠ 44)
      (length_eq : header.length = extensionHeaderLen kind (header.getD 1 0))
      (chain : ExtensionChain (header.getD 0 0) rest last n) :
      ExtensionChain kind (header ++ rest) last (n + 1)

/-- A whole IPv6 packet: its fixed header, `n` extension headers, and what the last of them names.
-/
structure Ipv6Packet (bytes : List UInt8) (source destination : BitVec 128) (headers : List UInt8)
    (n : ℕ) (named : UInt8) (payload : List UInt8) : Prop where
  version : bytes.getD 0 0 >>> 4 = 6
  header_le : 40 ≤ bytes.length
  payloadLength : 40 + (u16At bytes 4).toNat = bytes.length
  source_eq : v6At bytes 8 = .v6 source
  destination_eq : v6At bytes 24 = .v6 destination
  rest_eq : bytes.drop 40 = headers ++ payload
  chain : ExtensionChain (bytes.getD 6 0) headers named n

/-- A fragment header: what it names, the offset in units of eight bytes, whether more fragments
follow, and the identification. -/
structure FragmentHeader (header : List UInt8) (named : UInt8) (offset : UInt16) (more : Bool)
    (identification : UInt32) : Prop where
  length_eq : header.length = 8
  named_eq : header.getD 0 0 = named
  offset_eq : u16At header 2 >>> 3 = offset
  more_eq : (header.getD 3 0 &&& 1 != 0) = more
  identification_eq : UInt32.ofNat (fromBigEndian (Bytes.slice header 4 8)) = identification

/-- The frame holds a whole IP packet: what its headers say, and the bytes it carries. An IPv6
packet has fewer extension headers than the decoder reads, and the last of them, the fragment header
in a fragment, names a transport protocol. -/
inductive CarriesPacket (frame : List UInt8) : Network → List UInt8 → Prop
  | ipv4 {link bytes trailer payload : List UInt8} {ip : Ipv4Info}
      (frame_eq : frame = link ++ (bytes ++ trailer)) (link_header : LinkHeader link etherTypeIpv4)
      (packet : Ipv4Packet bytes ip payload) : CarriesPacket frame (.ipv4 ip) payload
  | ipv6 {link bytes trailer headers payload : List UInt8} {source destination : BitVec 128} {n : ℕ}
      {protocol : UInt8} (frame_eq : frame = link ++ (bytes ++ trailer))
      (link_header : LinkHeader link etherTypeIpv6)
      (packet : Ipv6Packet bytes source destination headers n protocol payload)
      (few : n < maxIpv6ExtensionHeaders) (transport : isIpv6Extension protocol = false) :
      CarriesPacket frame (.ipv6 ⟨source, destination, protocol, false, 0, false, 0⟩) payload
  | ipv6Fragment {link bytes trailer headers header payload : List UInt8}
      {source destination : BitVec 128} {n : ℕ} {protocol : UInt8} {offset : UInt16} {more : Bool}
      {identification : UInt32} (frame_eq : frame = link ++ (bytes ++ trailer))
      (link_header : LinkHeader link etherTypeIpv6)
      (packet : Ipv6Packet bytes source destination headers n 44 (header ++ payload))
      (fragment : FragmentHeader header protocol offset more identification)
      (few : n < maxIpv6ExtensionHeaders) (transport : isIpv6Extension protocol = false) :
      CarriesPacket frame (.ipv6 ⟨source, destination, protocol, true, offset, more,
        identification⟩) payload

/-- The header library also reads VLAN tags and the identification of an IPv4 packet. -/
structure Decode.Etherparse.ReadsFragmentFields (E : Etherparse) : Prop
    extends E.ReadsStandardFields where
  singleVlan : ∀ bytes : List UInt8, 4 ≤ bytes.length →
    ∃ header, E.singleVlan bytes = some (header, bytes.drop 4) ∧ header.etherType = u16At bytes 2
  identification : ∀ bytes header rest, E.ipv4 bytes = some (header, rest) →
    header.identification = u16At bytes 4

theorem getD_append_of_lt {bytes : List UInt8} (rest : List UInt8) {i : ℕ} (h : i < bytes.length) :
    (bytes ++ rest).getD i 0 = bytes.getD i 0 := by
  rw [List.getD_eq_getElem?_getD, List.getD_eq_getElem?_getD, List.getElem?_append_left h]

theorem slice_append_of_le {bytes : List UInt8} (rest : List UInt8) (start : ℕ) {stop : ℕ}
    (h : stop ≤ bytes.length) :
    Bytes.slice (bytes ++ rest) start stop = Bytes.slice bytes start stop := by
  rw [Bytes.slice, Bytes.slice, List.take_append_of_le_length h]

theorem u16At_append_of_le {bytes : List UInt8} (rest : List UInt8) {i : ℕ}
    (h : i + 2 ≤ bytes.length) : u16At (bytes ++ rest) i = u16At bytes i := by
  rw [u16At, u16At, slice_append_of_le rest i h]

theorem v4At_append_of_le {bytes : List UInt8} (rest : List UInt8) {i : ℕ}
    (h : i + 4 ≤ bytes.length) : v4At (bytes ++ rest) i = v4At bytes i := by
  rw [v4At, v4At, slice_append_of_le rest i h]

theorem v6At_append_of_le {bytes : List UInt8} (rest : List UInt8) {i : ℕ}
    (h : i + 16 ≤ bytes.length) : v6At (bytes ++ rest) i = v6At bytes i := by
  rw [v6At, v6At, slice_append_of_le rest i h]

theorem Ipv6Packet.eq_append {bytes headers payload : List UInt8} {source destination : BitVec 128}
    {n : ℕ} {named : UInt8} (h : Ipv6Packet bytes source destination headers n named payload) :
    bytes = (bytes.take 40 ++ headers) ++ payload := by
  rw [List.append_assoc, ← h.rest_eq, List.take_append_drop]

namespace Decode

variable {E : Etherparse}

/-- The segment lies in the frame, nothing of which has been read as transport yet. -/
structure Located (d : DecodedFrame) (before segment trailer : List UInt8) : Prop where
  frame_eq : d.frame = before ++ (segment ++ trailer)
  transport_eq : d.transport = none
  payload_eq : d.payload = (0, 0)

def SameTransport (d d' : Decoded) : Prop :=
  d.transport = d'.transport ∧ d.payloadBytes = d'.payloadBytes

theorem Located.range_clampRange {d : DecodedFrame} {before segment trailer : List UInt8}
    (h : Located d before segment trailer) (start : ℕ) {stop : ℕ} (hstop : stop ≤ segment.length) :
    d.range (clampRange (before.length + start) (before.length + stop) d.frame.length) =
      Bytes.slice segment start stop := by
  have hlength : d.frame.length = before.length + (segment.length + trailer.length) := by
    rw [h.frame_eq, List.length_append, List.length_append]
  by_cases hle : start ≤ stop
  · have hclamp : clampRange (before.length + start) (before.length + stop) d.frame.length =
        (before.length + start, before.length + stop) := by
      simp only [clampRange, Prod.mk.injEq]
      omega
    rw [hclamp, Decoded.range, if_pos (by constructor <;> dsimp only <;> omega)]
    refine List.ext_getElem? (fun k => ?_)
    rw [Bytes.getElem?_slice, Bytes.getElem?_slice, h.frame_eq]
    by_cases hk : start + k < stop
    · rw [if_pos (by omega), if_pos hk, List.getElem?_append_right (by omega),
        List.getElem?_append_left (by omega)]
      congr 1
      omega
    · rw [if_neg (by omega), if_neg hk]
  · have hnone (v : List UInt8) {start stop : ℕ} (hle : stop ≤ start) :
        Bytes.slice v start stop = [] := by
      rw [Bytes.slice]
      exact List.drop_eq_nil_of_le ((List.length_take_le _ _).trans hle)
    have hinverted : (clampRange (before.length + start) (before.length + stop) d.frame.length).2 ≤
        (clampRange (before.length + start) (before.length + stop) d.frame.length).1 := by
      simp only [clampRange]
      omega
    rw [Decoded.range, hnone segment (by omega), hnone _ hinverted, ite_self]

theorem Located.payloadBytes_eq {d : DecodedFrame} {before segment trailer : List UInt8}
    (h : Located d before segment trailer) : d.payloadBytes = [] := by
  rw [Decoded.payloadBytes, h.payload_eq, Decoded.range, if_pos (by constructor <;> omega)]
  rfl

section Agreement

variable {d d' : DecodedFrame} {before before' segment trailer trailer' : List UInt8}

theorem Located.sameTransport (h : Located d before segment trailer)
    (h' : Located d' before' segment trailer') : SameTransport d.toDecoded d'.toDecoded :=
  ⟨by rw [h.transport_eq, h'.transport_eq], by rw [h.payloadBytes_eq, h'.payloadBytes_eq]⟩

/-- Both frames get the same transport header, and a payload at the same place of the segment. -/
theorem Located.sameTransport_set (h : Located d before segment trailer)
    (h' : Located d' before' segment trailer') (transport : Transport) (start : ℕ) {stop : ℕ}
    (hstop : stop ≤ segment.length) :
    SameTransport
      { d.toDecoded with
        transport := some transport
        payload := clampRange (before.length + start) (before.length + stop) d.frame.length }
      { d'.toDecoded with
        transport := some transport
        payload := clampRange (before'.length + start) (before'.length + stop) d'.frame.length } :=
  ⟨rfl, (h.range_clampRange start hstop).trans (h'.range_clampRange start hstop).symm⟩

theorem decodeTcp_sameTransport (h : Located d before segment trailer)
    (h' : Located d' before' segment trailer') :
    SameTransport
      (decodeTcp E d segment before.length (before.length + segment.length)).toDecoded
      (decodeTcp E d' segment before'.length (before'.length + segment.length)).toDecoded := by
  have hsame := h.sameTransport h'
  simp only [decodeTcp]
  split_ifs
  · exact hsame
  · exact hsame
  · exact hsame
  · cases E.tcp segment with
    | none => exact hsame
    | some read => exact h.sameTransport_set h' _ _ le_rfl

theorem decodeUdp_sameTransport (h : Located d before segment trailer)
    (h' : Located d' before' segment trailer') :
    SameTransport
      (decodeUdp E d segment before.length (before.length + segment.length)).toDecoded
      (decodeUdp E d' segment before'.length (before'.length + segment.length)).toDecoded := by
  have hsame := h.sameTransport h'
  simp only [decodeUdp]
  split_ifs
  · exact hsame
  · cases E.udp segment with
    | none => exact hsame
    | some read =>
      have hends (start claimed : ℕ) : min (start + claimed) (start + segment.length) =
          start + min claimed segment.length := by omega
      have hset := h.sameTransport_set h' (.udp ⟨read.1.sourcePort, read.1.destinationPort⟩)
        udpHeaderLen (min_le_right (max read.1.length.toNat udpHeaderLen) segment.length)
      simp only [hends]
      split_ifs
      · exact hset
      · simpa only [SameTransport, Decoded.payloadBytes, DecodedFrame.noteIf_toDecoded] using hset

theorem decodeIcmp_sameTransport (h : Located d before segment trailer)
    (h' : Located d' before' segment trailer') :
    SameTransport
      (decodeIcmp d segment before.length (before.length + segment.length)).toDecoded
      (decodeIcmp d' segment before'.length (before'.length + segment.length)).toDecoded := by
  have hsame := h.sameTransport h'
  simp only [decodeIcmp]
  split_ifs
  · exact ⟨rfl, hsame.2⟩
  · exact hsame
  · exact h.sameTransport_set h' _ _ le_rfl

/-- The transport layer is read from the segment, wherever it lies. -/
theorem decodeTransport_sameTransport (h : Located d before segment trailer)
    (h' : Located d' before' segment trailer') (protocol : UInt8) :
    SameTransport
      (decodeTransport E d protocol before.length (before.length + segment.length)).toDecoded
      (decodeTransport E d' protocol before'.length
        (before'.length + segment.length)).toDecoded := by
  have hsegment {d : DecodedFrame} {before trailer : List UInt8}
      (h : Located d before segment trailer) :
      (if before.length ≤ min (before.length + segment.length) d.frame.length then
        Bytes.slice d.frame before.length (min (before.length + segment.length) d.frame.length)
        else []) = segment := by
    have hlength : d.frame.length = before.length + (segment.length + trailer.length) := by
      rw [h.frame_eq, List.length_append, List.length_append]
    rw [if_pos (by omega), min_eq_left (by omega), h.frame_eq, Bytes.slice_middle]
  simp only [decodeTransport, hsegment h, hsegment h']
  split_ifs
  · exact decodeTcp_sameTransport h h'
  · exact decodeUdp_sameTransport h h'
  · exact decodeIcmp_sameTransport h h'
  · exact h.sameTransport_set h' (.other protocol) 0 le_rfl

end Agreement

/-- The decoder has found this network layer with these bytes after it, and unless the packet is a
fragment it has read the transport layer as it is in them. -/
structure Reads (E : Etherparse) (d : Decoded) (network : Network)
    (payload : List UInt8) : Prop where
  network_eq : d.network = some network
  networkPayload_eq : d.networkPayloadBytes = payload
  transport : network.isFragment = false →
    SameTransport d (decodeTransportBytes E payload network.protocol).toDecoded

theorem located_new (bytes : List UInt8) (originalLen : ℕ) :
    Located (DecodedFrame.new bytes originalLen) [] bytes [] :=
  ⟨(List.append_nil bytes).symm, rfl, rfl⟩

def SameNetwork (d d' : DecodedFrame) : Prop :=
  d.frame = d'.frame ∧ d.network = d'.network ∧ d.networkPayload = d'.networkPayload

theorem decodeTcp_sameNetwork (d : DecodedFrame) (segment : List UInt8) (start stop : ℕ) :
    SameNetwork (decodeTcp E d segment start stop) d := by
  simp only [decodeTcp]
  split_ifs
  · exact ⟨rfl, rfl, rfl⟩
  · exact ⟨rfl, rfl, rfl⟩
  · exact ⟨rfl, rfl, rfl⟩
  · cases E.tcp segment with
    | none => exact ⟨rfl, rfl, rfl⟩
    | some read => exact ⟨rfl, rfl, rfl⟩

theorem decodeUdp_sameNetwork (d : DecodedFrame) (segment : List UInt8) (start stop : ℕ) :
    SameNetwork (decodeUdp E d segment start stop) d := by
  simp only [decodeUdp]
  split_ifs
  · exact ⟨rfl, rfl, rfl⟩
  · cases E.udp segment with
    | none => exact ⟨rfl, rfl, rfl⟩
    | some read =>
      simp only [SameNetwork]
      split_ifs
      · exact ⟨rfl, rfl, rfl⟩
      · simp only [DecodedFrame.noteIf_toDecoded, and_self]

theorem decodeTransport_sameNetwork (d : DecodedFrame) (protocol : UInt8) (start stop : ℕ) :
    SameNetwork (decodeTransport E d protocol start stop) d := by
  simp only [decodeTransport]
  generalize (if start ≤ min stop d.frame.length then
    Bytes.slice d.frame start (min stop d.frame.length) else []) = segment
  by_cases htcp : protocol = 6
  · rw [if_pos htcp]
    exact decodeTcp_sameNetwork d segment start stop
  · rw [if_neg htcp]
    by_cases hudp : protocol = 17
    · rw [if_pos hudp]
      exact decodeUdp_sameNetwork d segment start stop
    · rw [if_neg hudp]
      simp only [decodeIcmp]
      split_ifs
      · exact ⟨rfl, rfl, rfl⟩
      · exact ⟨rfl, rfl, rfl⟩
      · exact ⟨rfl, rfl, rfl⟩
      · exact ⟨rfl, rfl, rfl⟩

theorem decodeNetworkPayload_reads {d : DecodedFrame} {before payload trailer : List UInt8}
    (h : Located d before payload trailer) (network : Network) :
    Reads E (decodeNetworkPayload E d network before.length
      (before.length + payload.length)).toDecoded network payload := by
  have hbytes : d.range (clampRange before.length (before.length + payload.length) d.frame.length) =
      payload := by
    have hrange := h.range_clampRange 0 (le_refl payload.length)
    rwa [Bytes.slice, List.take_length, List.drop_zero] at hrange
  simp only [decodeNetworkPayload]
  split_ifs with hlater
  · have hfragment : network.isFragment = true := by
      simp only [Bool.and_eq_true] at hlater
      exact hlater.1
    exact ⟨rfl, hbytes, fun hwhole => absurd (hwhole.symm.trans hfragment) (by decide)⟩
  · have hlocated : Located { d with
        network := some network
        networkPayload := clampRange before.length (before.length + payload.length)
          d.frame.length } before payload trailer := ⟨h.frame_eq, h.transport_eq, h.payload_eq⟩
    obtain ⟨hframe, hnetwork, hnetworkPayload⟩ := decodeTransport_sameNetwork (E := E) { d with
        network := some network
        networkPayload := clampRange before.length (before.length + payload.length)
          d.frame.length } network.protocol before.length (before.length + payload.length)
    refine ⟨hnetwork, ?_, fun _ => ?_⟩
    · rw [Decoded.networkPayloadBytes, Decoded.range, hnetworkPayload, hframe]
      exact hbytes
    · have hsame := decodeTransport_sameTransport (E := E) hlocated
        (located_new payload payload.length) network.protocol
      rwa [List.length_nil, Nat.zero_add] at hsame

structure LocatedPacket (d : DecodedFrame) (link bytes trailer : List UInt8) : Prop where
  frame_eq : d.frame = link ++ (bytes ++ trailer)
  transport_eq : d.transport = none
  payload_eq : d.payload = (0, 0)

theorem LocatedPacket.congr {d d' : DecodedFrame} {link bytes trailer : List UInt8}
    (h : LocatedPacket d link bytes trailer) (hsame : d'.toDecoded = d.toDecoded) :
    LocatedPacket d' link bytes trailer := by
  refine ⟨?_, ?_, ?_⟩
  · rw [hsame, h.frame_eq]
  · rw [hsame, h.transport_eq]
  · rw [hsame, h.payload_eq]

/-- What follows the headers of the packet is read from where they end to where the packet does. -/
theorem LocatedPacket.reads {d : DecodedFrame} {link bytes trailer headers payload : List UInt8}
    (h : LocatedPacket d link bytes trailer) (hbytes : bytes = headers ++ payload)
    (network : Network) {start stop : ℕ} (hstart : start = link.length + headers.length)
    (hstop : stop = link.length + bytes.length) :
    Reads E (decodeNetworkPayload E d network start stop).toDecoded network payload := by
  have hlocated : Located d (link ++ headers) payload trailer := by
    refine ⟨?_, h.transport_eq, h.payload_eq⟩
    rw [h.frame_eq, hbytes, List.append_assoc, List.append_assoc]
  have hreads := decodeNetworkPayload_reads (E := E) hlocated network
  rw [hstart, hstop, hbytes, List.length_append, ← Nat.add_assoc, ← List.length_append]
  exact hreads

theorem decodeIpv4_reads (hE : E.ReadsFragmentFields) {d : DecodedFrame}
    {link bytes trailer payload : List UInt8} (hd : LocatedPacket d link bytes trailer)
    {ip : Ipv4Info} (h : Ipv4Packet bytes ip payload) :
    Reads E (decodeIpv4 E d (bytes ++ trailer)).toDecoded (.ipv4 ip) payload := by
  have hmin := h.minimal
  have hle := h.header_le
  have htotal := h.totalLen
  have hheader : ipv4HeaderLen (bytes ++ trailer) = ipv4HeaderLen bytes := by
    rw [ipv4HeaderLen, ipv4HeaderLen, getD_append_of_lt trailer (by omega)]
  have hfirst : (bytes ++ trailer).head? = some (bytes.getD 0 0) := by
    rw [head?_of_length_pos (by rw [List.length_append]; omega),
      getD_append_of_lt trailer (by omega)]
  have hlength : (bytes ++ trailer).length = bytes.length + trailer.length := List.length_append
  obtain ⟨header, hipv4, hlen, hoffset, hmore, hprotocol, hsource, hdestination⟩ :=
    hE.ipv4 (bytes ++ trailer) (by rw [getD_append_of_lt trailer (by omega)]; exact h.version)
      (by omega) (by omega) (by rw [u16At_append_of_le trailer (by omega)]; omega)
  have hidentification := hE.identification _ _ _ hipv4
  rw [u16At_append_of_le trailer (by omega)] at hlen hidentification
  rw [getD_append_of_lt trailer (by omega), getD_append_of_lt trailer (by omega)] at hoffset
  rw [getD_append_of_lt trailer (by omega)] at hmore hprotocol
  rw [v4At_append_of_le trailer (by omega)] at hsource hdestination
  have hnetwork : (⟨header.source, header.destination, header.protocol, header.identification,
      header.fragmentOffset, header.moreFragments⟩ : Ipv4Info) = ip := by
    have hsource' : header.source = ip.source := by
      simpa only [h.source_eq, IpAddr.v4.injEq] using hsource
    have hdestination' : header.destination = ip.destination := by
      simpa only [h.destination_eq, IpAddr.v4.injEq] using hdestination
    rw [hsource', hdestination', hprotocol, hidentification, hoffset, hmore, h.protocol_eq,
      h.identification_eq, h.fragmentOffset_eq, h.moreFragments_eq]
  have hframe : d.frame.length = link.length + (bytes.length + trailer.length) := by
    rw [hd.frame_eq, List.length_append, List.length_append]
  have hfold : (bytes.getD 0 0 &&& 0x0f).toNat * 4 = ipv4HeaderLen bytes := rfl
  have hihl : ¬(bytes.getD 0 0 &&& 0x0f).toNat < 5 := by omega
  simp only [decodeIpv4, hfirst, hipv4, hfold, hnetwork, hheader]
  rw [if_neg (not_not.2 h.version), if_neg hihl, if_neg (by omega), hlen, htotal,
    if_neg (by omega)]
  simp only [DecodedFrame.noteIf_toDecoded]
  have hbytes : bytes = bytes.take (ipv4HeaderLen bytes) ++ payload := by
    rw [← h.payload_eq, List.take_append_drop]
  refine LocatedPacket.reads (hd.congr ?_) hbytes _ ?_ ?_
  · simp only [DecodedFrame.noteIf_toDecoded]
  · simp only [offsetOf, List.length_drop, List.length_take]
    omega
  · simp only [offsetOf]
    omega

theorem eight_le_extensionHeaderLen (kind second : UInt8) : 8 ≤ extensionHeaderLen kind second := by
  rw [extensionHeaderLen]
  split_ifs
  · omega
  · omega

/-- The length of an extension header that is all there is read from it. -/
theorem ipv6ExtensionLen_append {kind : UInt8} {header : List UInt8} (hkind : kind ≠ 44)
    (hlength : header.length = extensionHeaderLen kind (header.getD 1 0)) (rest : List UInt8) :
    ipv6ExtensionLen kind (header ++ rest) = some header.length := by
  have height := eight_le_extensionHeaderLen kind (header.getD 1 0)
  have hlen : (if kind = 44 then 8
      else if kind = 51 then (((header ++ rest).getD 1 0).toNat + 2) * 4
      else (((header ++ rest).getD 1 0).toNat + 1) * 8) = header.length := by
    rw [if_neg hkind, getD_append_of_lt rest (by omega), hlength, extensionHeaderLen]
  simp only [ipv6ExtensionLen, hlen]
  rw [if_neg (by rw [List.length_append]; omega), if_pos (by rw [List.length_append]; omega)]

/-- The walk moves forward over the bytes it is given, and a fragment stays one. -/
theorem walkExtensions_suffix (remaining : ℕ) (w : ExtensionWalk) :
    (∃ walked, w.cursor = walked ++ (walkExtensions remaining w).cursor) ∧
      (w.isFragment = true → (walkExtensions remaining w).isFragment = true) := by
  induction remaining generalizing w with
  | zero =>
    rw [walkExtensions]
    split_ifs
    · exact ⟨⟨[], rfl⟩, id⟩
    · exact ⟨⟨[], rfl⟩, id⟩
  | succ remaining ih =>
    rw [walkExtensions]
    split_ifs
    · cases ipv6ExtensionLen w.protocol w.cursor with
      | none => exact ⟨⟨[], rfl⟩, id⟩
      | some len =>
        obtain ⟨⟨walked, hwalked⟩, hfragment⟩ := ih (w.next len)
        have hcursor : (w.next len).cursor = w.cursor.drop len := by
          simp only [ExtensionWalk.next]
          split_ifs
          · rfl
          · rfl
        refine ⟨⟨w.cursor.take len ++ walked, ?_⟩, ?_⟩
        · rw [List.append_assoc, ← hwalked, hcursor, List.take_append_drop]
        · intro hmarked
          apply hfragment
          simp only [ExtensionWalk.next]
          split_ifs
          · rfl
          · exact hmarked
    · exact ⟨⟨[], rfl⟩, id⟩

/-- The walk goes over a chain of headers to what the last of them names. -/
theorem walkExtensions_chain {first last : UInt8} {headers : List UInt8} {n : ℕ}
    (h : ExtensionChain first headers last n) (remaining : ℕ) (rest : List UInt8)
    (w : ExtensionWalk) :
    walkExtensions (n + remaining) { w with protocol := first, cursor := headers ++ rest } =
      walkExtensions remaining { w with protocol := last, cursor := rest } := by
  induction h with
  | nil protocol => rw [Nat.zero_add, List.nil_append]
  | @cons kind last header tail n hextension hkind hlength _ ih =>
    have height := eight_le_extensionHeaderLen kind (header.getD 1 0)
    rw [List.append_assoc, Nat.add_right_comm, walkExtensions, if_pos hextension,
      ipv6ExtensionLen_append hkind hlength]
    simp only [ExtensionWalk.next, if_neg hkind, List.drop_left]
    rw [getD_append_of_lt _ (by omega)]
    exact ih

theorem walkExtensions_fragment {header : List UInt8} {named : UInt8} {offset : UInt16}
    {more : Bool}
    {identification : UInt32} (h : FragmentHeader header named offset more identification)
    (remaining : ℕ) (rest : List UInt8) (w : ExtensionWalk) :
    walkExtensions (remaining + 1) { w with protocol := 44, cursor := header ++ rest } =
      walkExtensions remaining { w with
        protocol := named, cursor := rest, isFragment := true, fragmentOffset := offset,
        moreFragments := more, identification := identification } := by
  have hlength := h.length_eq
  have hlen : ipv6ExtensionLen 44 (header ++ rest) = some 8 := by
    simp only [ipv6ExtensionLen, List.length_append, hlength, if_true]
    rw [if_neg (by omega), if_pos (by omega)]
  rw [walkExtensions, if_pos (show isIpv6Extension 44 = true by decide), hlen]
  simp only [ExtensionWalk.next, if_true]
  rw [u16At_append_of_le rest (by omega), getD_append_of_lt rest (by omega),
    getD_append_of_lt rest (by omega), slice_append_of_le rest 4 (by omega), h.offset_eq, h.more_eq,
    h.named_eq, h.identification_eq, ← hlength, List.drop_left]

theorem walkExtensions_transport {w : ExtensionWalk} (h : isIpv6Extension w.protocol = false)
    (remaining : ℕ) : walkExtensions remaining w = w := by
  cases remaining with
  | zero => rw [walkExtensions, if_neg (by rw [h]; decide)]
  | succ remaining => rw [walkExtensions, if_neg (by rw [h]; decide)]

/-- The decoder walks over the headers of an IPv6 packet and goes on with what the walk has found.
-/
theorem decodeIpv6_walk (hE : E.ReadsStandardFields) {d : DecodedFrame}
    {link bytes trailer headers payload : List UInt8} (hd : LocatedPacket d link bytes trailer)
    {source destination : BitVec 128} {n : ℕ} {named : UInt8}
    (h : Ipv6Packet bytes source destination headers n named payload) {remaining : ℕ}
    (hcount : n + remaining = maxIpv6ExtensionHeaders) :
    ∃ d' : DecodedFrame, d'.toDecoded = d.toDecoded ∧
      let w := walkExtensions remaining { protocol := named, cursor := payload ++ trailer }
      decodeIpv6 E d (bytes ++ trailer) = decodeNetworkPayload E d'
        (.ipv6 ⟨source, destination, w.protocol, w.isFragment, w.fragmentOffset, w.moreFragments,
          w.identification⟩)
        (offsetOf d.frame w.cursor) (link.length + bytes.length) := by
  have hle := h.header_le
  have hpayload := h.payloadLength
  have hlength : (bytes ++ trailer).length = bytes.length + trailer.length := List.length_append
  have hfirst : (bytes ++ trailer).head? = some (bytes.getD 0 0) := by
    rw [head?_of_length_pos (by omega), getD_append_of_lt trailer (by omega)]
  obtain ⟨header, hipv6, hlen, hnext, hsource, hdestination⟩ := hE.ipv6 (bytes ++ trailer)
    (by rw [getD_append_of_lt trailer (by omega)]; exact h.version) (by omega)
  rw [u16At_append_of_le trailer (by omega)] at hlen
  rw [getD_append_of_lt trailer (by omega)] at hnext
  rw [v6At_append_of_le trailer (by omega)] at hsource hdestination
  have hsource' : header.source = source := by
    simpa only [h.source_eq, IpAddr.v6.injEq] using hsource
  have hdestination' : header.destination = destination := by
    simpa only [h.destination_eq, IpAddr.v6.injEq] using hdestination
  have hafter : (bytes ++ trailer).drop 40 = headers ++ (payload ++ trailer) := by
    rw [List.drop_append_of_le_length hle, h.rest_eq, List.append_assoc]
  have hwalk : walkExtensions maxIpv6ExtensionHeaders
      { protocol := header.nextHeader, cursor := (bytes ++ trailer).drop 40 } =
      walkExtensions remaining { protocol := named, cursor := payload ++ trailer } := by
    rw [hafter, hnext, ← hcount]
    exact walkExtensions_chain h.chain remaining _ { protocol := 0, cursor := [] }
  have hframe : d.frame.length = link.length + (bytes.length + trailer.length) := by
    rw [hd.frame_eq, List.length_append, List.length_append]
  have hstop : min (offsetOf d.frame (bytes ++ trailer) + ipv6HeaderLen + (u16At bytes 4).toNat)
      d.frame.length = link.length + bytes.length := by
    simp only [offsetOf, ipv6HeaderLen]
    omega
  simp only [decodeIpv6, hfirst, hipv6, hwalk, hlen, hsource', hdestination']
  rw [if_neg (not_not.2 h.version)]
  generalize walkExtensions remaining { protocol := named, cursor := payload ++ trailer } = w
  generalize hnoted : d.noteIf (decide (((bytes ++ trailer).drop 40).length < (u16At bytes 4).toNat)
    && !d.isSnapped) .ipv6 .lengthMismatch = noted
  have hsame : (w.anomaly.elim noted (noted.note .ipv6)).toDecoded = d.toDecoded := by
    rw [← hnoted]
    cases w.anomaly with
    | none => exact d.noteIf_toDecoded _ _ _
    | some kind => exact d.noteIf_toDecoded _ _ _
  refine ⟨w.anomaly.elim noted (noted.note .ipv6), hsame, ?_⟩
  rw [hsame, hstop]

theorem decodeIpv6_reads (hE : E.ReadsStandardFields) {d : DecodedFrame}
    {link bytes trailer headers payload : List UInt8} (hd : LocatedPacket d link bytes trailer)
    {source destination : BitVec 128} {n : ℕ} {protocol : UInt8}
    (h : Ipv6Packet bytes source destination headers n protocol payload)
    (hfew : n < maxIpv6ExtensionHeaders) (htransport : isIpv6Extension protocol = false) :
    Reads E (decodeIpv6 E d (bytes ++ trailer)).toDecoded
      (.ipv6 ⟨source, destination, protocol, false, 0, false, 0⟩) payload := by
  obtain ⟨d', hsame, hdecode⟩ := decodeIpv6_walk hE hd h
    (Nat.add_sub_cancel' hfew.le)
  rw [walkExtensions_transport htransport] at hdecode
  rw [hdecode]
  refine LocatedPacket.reads (hd.congr hsame) h.eq_append _ ?_ rfl
  have hlength := congrArg List.length h.eq_append
  simp only [offsetOf, hd.frame_eq, List.length_append] at hlength ⊢
  omega

/-- After the fragment header the walk goes on over the bytes of the fragment. -/
theorem decodeIpv6_fragment (hE : E.ReadsStandardFields) {d : DecodedFrame}
    {link bytes trailer headers header payload : List UInt8}
    (hd : LocatedPacket d link bytes trailer) {source destination : BitVec 128} {n : ℕ}
    {named : UInt8} {offset : UInt16} {more : Bool} {identification : UInt32}
    (h : Ipv6Packet bytes source destination headers n 44 (header ++ payload))
    (hfragment : FragmentHeader header named offset more identification) {remaining : ℕ}
    (hcount : n + (remaining + 1) = maxIpv6ExtensionHeaders)
    {w : ExtensionWalk} (hw : walkExtensions remaining ⟨named, payload ++ trailer, true,
    offset, more,
      identification, none⟩ = w) {walked rest : List UInt8} (hpayload : payload = walked ++ rest)
    (hcursor : w.cursor = rest ++ trailer) :
    Reads E (decodeIpv6 E d (bytes ++ trailer)).toDecoded
      (.ipv6 ⟨source, destination, w.protocol, w.isFragment, w.fragmentOffset, w.moreFragments,
        w.identification⟩) rest := by
  obtain ⟨d', hsame, hdecode⟩ := decodeIpv6_walk hE hd h hcount
  have hwalk : walkExtensions (remaining + 1)
      { protocol := 44, cursor := header ++ payload ++ trailer } = w := by
    rw [List.append_assoc, ← hw]
    exact walkExtensions_fragment hfragment remaining _ { protocol := 0, cursor := [] }
  rw [hwalk] at hdecode
  rw [hdecode]
  have hbytes : bytes = (bytes.take 40 ++ headers ++ header ++ walked) ++ rest := by
    conv_lhs => rw [h.eq_append, hpayload]
    simp only [List.append_assoc]
  refine LocatedPacket.reads (hd.congr hsame) hbytes _ ?_ rfl
  have hlength := congrArg List.length hbytes
  simp only [offsetOf, hd.frame_eq, hcursor, List.length_append] at hlength ⊢
  omega

theorem decodeTags_eq (hE : E.ReadsFragmentFields) {first last : UInt16} {tags : List UInt8} {n : ℕ}
    (h : VlanTags first tags last n) (hlast : isVlan last = false) {remaining : ℕ}
    (hle : n ≤ remaining) (d : DecodedFrame) (rest : List UInt8) :
    ∃ d' : DecodedFrame, d'.toDecoded = d.toDecoded ∧
      decodeTags E remaining d first (tags ++ rest) = decodeNetwork E d' last rest := by
  induction h generalizing remaining d with
  | nil etherType =>
    refine ⟨d, rfl, ?_⟩
    rw [List.nil_append]
    cases remaining with
    | zero => rw [decodeTags, if_neg (by rw [hlast]; decide)]
    | succ remaining => rw [decodeTags, if_neg (by rw [hlast]; decide)]
  | @cons etherType last tag tail n hvlan hlength _ ih =>
    cases remaining with
    | zero => omega
    | succ remaining =>
      obtain ⟨header, hsingle, htype⟩ := hE.singleVlan (tag ++ (tail ++ rest))
        (by rw [List.length_append]; omega)
      rw [u16At_append_of_le _ (by omega)] at htype
      rw [← hlength, List.drop_left] at hsingle
      obtain ⟨d', hsame, hdecode⟩ := ih hlast (Nat.le_of_succ_le_succ hle)
        { d with vlanIds := d.vlanIds ++ [header.vlanId] }
      refine ⟨d', hsame, ?_⟩
      rw [List.append_assoc, decodeTags, if_pos hvlan, hsingle]
      dsimp only
      rw [htype]
      exact hdecode

theorem decode_network (hE : E.ReadsFragmentFields) {link : List UInt8} {etherType : UInt16}
    (h : LinkHeader link etherType) (htag : isVlan etherType = false) (bytes trailer : List UInt8)
    (originalLen : ℕ) :
    ∃ d : DecodedFrame, LocatedPacket d link bytes trailer ∧
      decode E (link ++ (bytes ++ trailer)) originalLen =
        decodeNetwork E d etherType (bytes ++ trailer) := by
  obtain ⟨ethernet, tags, first, n, rfl, hethernet, htags, hle⟩ := h
  have hlength := hethernet.length_eq
  have hframe : ethernet ++ tags ++ (bytes ++ trailer) =
      ethernet ++ (tags ++ (bytes ++ trailer)) := List.append_assoc _ _ _
  have htype : u16At (ethernet ++ (tags ++ (bytes ++ trailer))) 12 = first := by
    rw [u16At_append_of_le _ (by omega), hethernet.etherType_eq]
  have hne : ethernet ++ (tags ++ (bytes ++ trailer)) ≠ [] := by
    intro hnil
    have := congrArg List.length hnil
    simp only [List.length_append, List.length_nil] at this
    omega
  obtain ⟨d, hsame, hdecode⟩ := decodeTags_eq hE htags htag hle
    (DecodedFrame.new (ethernet ++ (tags ++ (bytes ++ trailer))) originalLen) (bytes ++ trailer)
  refine ⟨d, ⟨?_, ?_, ?_⟩, ?_⟩
  · rw [hsame, hframe]
    rfl
  · rw [hsame]
    rfl
  · rw [hsame]
    rfl
  · simp only [hframe, decode]
    rw [if_neg hne, hE.ethernet2 _ (by rw [List.length_append]; omega), htype, ← hlength,
      List.drop_left]
    exact hdecode

/-- What the decoder reads of a frame is the packet that the frame carries. -/
theorem decode_reads (hE : E.ReadsFragmentFields) {frame payload : List UInt8} {network : Network}
    (h : CarriesPacket frame network payload) (originalLen : ℕ) :
    Reads E (decode E frame originalLen).toDecoded network payload := by
  cases h with
  | @ipv4 link bytes trailer payload ip hframe hlink hpacket =>
    obtain ⟨d, hd, hdecode⟩ := decode_network hE hlink (by decide) bytes trailer originalLen
    rw [hframe, hdecode, decodeNetwork, if_pos rfl]
    refine decodeIpv4_reads hE (hd.congr ?_) hpacket
    rfl
  | @ipv6 link bytes trailer headers payload source destination n protocol hframe hlink hpacket hfew
      htransport =>
    obtain ⟨d, hd, hdecode⟩ := decode_network hE hlink (by decide) bytes trailer originalLen
    rw [hframe, hdecode, decodeNetwork, if_neg (by decide), if_pos rfl]
    refine decodeIpv6_reads hE.toReadsStandardFields (hd.congr ?_) hpacket hfew htransport
    rfl
  | @ipv6Fragment link bytes trailer headers header payload source destination n
    protocol offset more
      identification hframe hlink hpacket hfragment hfew htransport =>
    obtain ⟨d, hd, hdecode⟩ := decode_network hE hlink (by decide) bytes trailer originalLen
    rw [hframe, hdecode, decodeNetwork, if_neg (by decide), if_pos rfl]
    refine decodeIpv6_fragment hE.toReadsStandardFields (hd.congr ?_) hpacket hfragment
      (show n + (maxIpv6ExtensionHeaders - (n + 1) + 1) = maxIpv6ExtensionHeaders by omega)
      (walkExtensions_transport htransport _) (List.nil_append payload).symm rfl
    rfl

end Decode

theorem Decode.Etherparse.standard_readsFragmentFields :
    Etherparse.standard.ReadsFragmentFields where
  toReadsStandardFields := Etherparse.standard_reads
  singleVlan _ h := ⟨_, if_pos h, rfl⟩
  identification bytes header rest h := by
    simp only [Etherparse.standard] at h
    split_ifs at h
    cases h
    rfl

end CyberSentinel
