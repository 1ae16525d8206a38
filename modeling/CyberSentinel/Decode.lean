import CyberSentinel.Pipeline

/-!
# The packet decoder

A frame is read layer by layer: Ethernet, up to two VLAN tags, IP with its options or extension
headers, and the transport header. Decoding never fails; what is wrong with a frame is recorded with
the layer it was found in. The headers themselves are read by the `etherparse` crate, which is given
here by what its `from_slice` functions return: a header with the bytes after it, or nothing.
-/

namespace CyberSentinel

def fromBigEndian (bytes : List UInt8) : ℕ := bytes.foldl (fun n byte => n * 256 + byte.toNat) 0

/-- The two bytes from `i` on as one number. -/
def u16At (bytes : List UInt8) (i : ℕ) : UInt16 :=
  UInt16.ofNat (fromBigEndian (Bytes.slice bytes i (i + 2)))

namespace Decode

inductive Layer
  | ethernet
  | vlan
  | ipv4
  | ipv6
  | tcp
  | udp
  | icmp
  deriving DecidableEq, Repr

inductive AnomalyKind
  | truncatedHeader
  | lengthMismatch
  | impossibleLength
  | unknownIpVersion
  | badIpv4Checksum
  | tooManyLayers
  | emptyFrame
  deriving DecidableEq, Repr

structure Anomaly where
  layer : Layer
  kind : AnomalyKind
  deriving DecidableEq, Repr

structure AnomalySet where
  found : List Anomaly := []
  overflowed : Bool := false
  deriving DecidableEq, Repr

def AnomalySet.cap : ℕ := 8

def AnomalySet.push (s : AnomalySet) (anomaly : Anomaly) : AnomalySet :=
  if anomaly ∈ s.found then s
  else if cap ≤ s.found.length then { s with overflowed := true }
  else { s with found := s.found ++ [anomaly] }

structure VlanHeader where
  vlanId : UInt16
  etherType : UInt16
  deriving DecidableEq, Repr

structure Ipv4Header where
  source : BitVec 32
  destination : BitVec 32
  protocol : UInt8
  identification : UInt16
  fragmentOffset : UInt16
  moreFragments : Bool
  totalLen : UInt16
  headerChecksum : UInt16
  /-- The checksum the header should have. -/
  calcHeaderChecksum : UInt16
  deriving DecidableEq, Repr

structure Ipv6Header where
  source : BitVec 128
  destination : BitVec 128
  nextHeader : UInt8
  payloadLength : UInt16
  deriving DecidableEq, Repr

structure TcpFlags where
  fin : Bool := false
  syn : Bool := false
  rst : Bool := false
  psh : Bool := false
  ack : Bool := false
  urg : Bool := false
  ece : Bool := false
  cwr : Bool := false
  deriving DecidableEq, Repr

def TcpFlags.bits (f : TcpFlags) : UInt8 :=
  f.fin.toUInt8 ||| f.syn.toUInt8 <<< 1 ||| f.rst.toUInt8 <<< 2 ||| f.psh.toUInt8 <<< 3 |||
    f.ack.toUInt8 <<< 4 ||| f.urg.toUInt8 <<< 5 ||| f.ece.toUInt8 <<< 6 ||| f.cwr.toUInt8 <<< 7

structure TcpHeader where
  sourcePort : UInt16
  destinationPort : UInt16
  sequenceNumber : UInt32
  acknowledgmentNumber : UInt32
  flags : TcpFlags
  deriving DecidableEq, Repr

structure UdpHeader where
  sourcePort : UInt16
  destinationPort : UInt16
  length : UInt16
  deriving DecidableEq, Repr

/-- The `from_slice` functions of the crate. An Ethernet II header is given by its EtherType. -/
structure Etherparse where
  ethernet2 : List UInt8 → Option (UInt16 × List UInt8)
  singleVlan : List UInt8 → Option (VlanHeader × List UInt8)
  ipv4 : List UInt8 → Option (Ipv4Header × List UInt8)
  ipv6 : List UInt8 → Option (Ipv6Header × List UInt8)
  tcp : List UInt8 → Option (TcpHeader × List UInt8)
  udp : List UInt8 → Option (UdpHeader × List UInt8)

def maxVlanTags : ℕ := 2

def maxIpv6ExtensionHeaders : ℕ := 8

def icmpHeaderLen : ℕ := 8

def minTcpHeader : ℕ := 20

def udpHeaderLen : ℕ := 8

def ipv6HeaderLen : ℕ := 40

structure DecodedFrame extends Decoded where
  /-- Length on the wire before clipping. -/
  originalLen : ℕ
  etherType : Option UInt16
  /-- Outermost first. -/
  vlanIds : List UInt16
  anomalies : AnomalySet
  deriving DecidableEq, Repr

namespace DecodedFrame

def new (frame : List UInt8) (originalLen : ℕ) : DecodedFrame where
  frame := frame
  network := none
  transport := none
  payload := (0, 0)
  networkPayload := (0, 0)
  originalLen := originalLen
  etherType := none
  vlanIds := []
  anomalies := {}

def isSnapped (d : DecodedFrame) : Bool := d.frame.length < d.originalLen

def note (d : DecodedFrame) (layer : Layer) (kind : AnomalyKind) : DecodedFrame :=
  { d with anomalies := d.anomalies.push ⟨layer, kind⟩ }

def noteIf (d : DecodedFrame) (condition : Bool) (layer : Layer) (kind : AnomalyKind) :
    DecodedFrame :=
  if condition then d.note layer kind else d

end DecodedFrame

def clampRange (start stop frameLen : ℕ) : ℕ × ℕ :=
  (min start frameLen, max (min stop frameLen) (min start frameLen))

def offsetOf (whole sub : List UInt8) : ℕ := whole.length - sub.length

def decodeTcp (E : Etherparse) (d : DecodedFrame) (segment : List UInt8) (start stop : ℕ) :
    DecodedFrame :=
  if segment.length < minTcpHeader then d.note .tcp .truncatedHeader
  else
    let dataOffset := (segment.getD 12 0 >>> 4).toNat
    if dataOffset < 5 then d.note .tcp .impossibleLength
    else if segment.length < dataOffset * 4 then d.note .tcp .truncatedHeader
    else
      match E.tcp segment with
      | none => d.note .tcp .truncatedHeader
      | some (header, _) =>
        { d with
          transport := some (.tcp ⟨header.sourcePort, header.destinationPort,
            header.sequenceNumber, header.acknowledgmentNumber, header.flags.bits⟩)
          payload := clampRange (start + dataOffset * 4) stop d.frame.length }

def decodeUdp (E : Etherparse) (d : DecodedFrame) (segment : List UInt8) (start stop : ℕ) :
    DecodedFrame :=
  if segment.length < udpHeaderLen then d.note .udp .truncatedHeader
  else
    match E.udp segment with
    | none => d.note .udp .truncatedHeader
    | some (header, _) =>
      let claimed := header.length.toNat
      let d :=
        if claimed < udpHeaderLen then d.note .udp .impossibleLength
        else d.noteIf (segment.length < claimed && !d.isSnapped) .udp .lengthMismatch
      -- the smaller of what UDP claims and what the IP layer allows
      { d with
        transport := some (.udp ⟨header.sourcePort, header.destinationPort⟩)
        payload := clampRange (start + udpHeaderLen) (min (start + max claimed udpHeaderLen) stop)
          d.frame.length }

/-- A truncated message is still attributed when its first two bytes are there. -/
def decodeIcmp (d : DecodedFrame) (segment : List UInt8) (start stop : ℕ) : DecodedFrame :=
  if segment.length < icmpHeaderLen then
    let d := d.note .icmp .truncatedHeader
    if 2 ≤ segment.length then { d with transport := some .icmp } else d
  else
    { d with
      transport := some .icmp
      payload := clampRange (start + icmpHeaderLen) stop d.frame.length }

/-- The transport header at `start`, in an IP packet that ends at `stop`. -/
def decodeTransport (E : Etherparse) (d : DecodedFrame) (protocol : UInt8) (start stop : ℕ) :
    DecodedFrame :=
  let segment :=
    if start ≤ min stop d.frame.length then Bytes.slice d.frame start (min stop d.frame.length)
    else []
  if protocol = 6 then decodeTcp E d segment start stop
  else if protocol = 17 then decodeUdp E d segment start stop
  else if protocol = 1 ∨ protocol = 58 then decodeIcmp d segment start stop
  else
    { d with
      transport := some (.other protocol)
      payload := clampRange start stop d.frame.length }

/-- What follows the network layer: a later fragment has no transport header to read. -/
def decodeNetworkPayload (E : Etherparse) (d : DecodedFrame) (network : Network) (start stop : ℕ) :
    DecodedFrame :=
  let d := { d with
    network := some network
    networkPayload := clampRange start stop d.frame.length }
  if network.isFragment && network.fragmentOffset != 0 then
    { d with payload := clampRange start stop d.frame.length }
  else decodeTransport E d network.protocol start stop

def decodeIpv4 (E : Etherparse) (d : DecodedFrame) (slice : List UInt8) : DecodedFrame :=
  match slice.head? with
  | none => d.note .ipv4 .truncatedHeader
  | some first =>
    if first >>> 4 ≠ 4 then d.note .ipv4 .unknownIpVersion
    else
      let ihl := (first &&& 0x0f).toNat
      if ihl < 5 then d.note .ipv4 .impossibleLength
      else if slice.length < ihl * 4 then d.note .ipv4 .truncatedHeader
      else
        match E.ipv4 slice with
        | none => d.note .ipv4 .truncatedHeader
        | some (header, after) =>
          let d := d.noteIf (header.headerChecksum != header.calcHeaderChecksum) .ipv4
            .badIpv4Checksum
          let totalLen := header.totalLen.toNat
          let d :=
            if totalLen < ihl * 4 then d.note .ipv4 .impossibleLength
            else d.noteIf (slice.length < totalLen && !d.isSnapped) .ipv4 .lengthMismatch
          let start := offsetOf d.frame slice
          decodeNetworkPayload E d
            (.ipv4 ⟨header.source, header.destination, header.protocol, header.identification,
              header.fragmentOffset, header.moreFragments⟩)
            (offsetOf d.frame after) (min (start + max totalLen (ihl * 4)) d.frame.length)

def isIpv6Extension (protocol : UInt8) : Bool :=
  protocol ∈ ([0, 43, 44, 60, 51, 135] : List UInt8)

/-- Length of the extension header at the front, if it is all there. The fragment header has a fixed
length; the authentication header counts in units of four bytes, all others in units of eight. -/
def ipv6ExtensionLen (protocol : UInt8) (slice : List UInt8) : Option ℕ :=
  if slice.length < 2 then none
  else
    let len :=
      if protocol = 44 then 8
      else if protocol = 51 then ((slice.getD 1 0).toNat + 2) * 4
      else ((slice.getD 1 0).toNat + 1) * 8
    if len ≤ slice.length then some len else none

structure ExtensionWalk where
  protocol : UInt8
  cursor : List UInt8
  isFragment : Bool := false
  fragmentOffset : UInt16 := 0
  moreFragments : Bool := false
  identification : UInt32 := 0
  anomaly : Option AnomalyKind := none

def ExtensionWalk.next (w : ExtensionWalk) (len : ℕ) : ExtensionWalk :=
  let w :=
    if w.protocol = 44 then
      { w with
        isFragment := true
        fragmentOffset := u16At w.cursor 2 >>> 3
        moreFragments := w.cursor.getD 3 0 &&& 1 != 0
        identification := UInt32.ofNat (fromBigEndian (Bytes.slice w.cursor 4 8)) }
    else w
  { w with protocol := w.cursor.getD 0 0, cursor := w.cursor.drop len }

/-- Walk to the transport protocol, over at most `remaining` headers. -/
def walkExtensions : ℕ → ExtensionWalk → ExtensionWalk
  | 0, w => if isIpv6Extension w.protocol then { w with anomaly := some .tooManyLayers } else w
  | remaining + 1, w =>
    if isIpv6Extension w.protocol then
      match ipv6ExtensionLen w.protocol w.cursor with
      | none => { w with anomaly := some .truncatedHeader }
      | some len => walkExtensions remaining (w.next len)
    else w

def decodeIpv6 (E : Etherparse) (d : DecodedFrame) (slice : List UInt8) : DecodedFrame :=
  match slice.head? with
  | none => d.note .ipv6 .truncatedHeader
  | some first =>
    if first >>> 4 ≠ 6 then d.note .ipv6 .unknownIpVersion
    else
      match E.ipv6 slice with
      | none => d.note .ipv6 .truncatedHeader
      | some (header, after) =>
        let payloadLength := header.payloadLength.toNat
        let d := d.noteIf (after.length < payloadLength && !d.isSnapped) .ipv6 .lengthMismatch
        let w := walkExtensions maxIpv6ExtensionHeaders
          { protocol := header.nextHeader, cursor := after }
        let d := w.anomaly.elim d (d.note .ipv6)
        let start := offsetOf d.frame slice
        decodeNetworkPayload E d
          (.ipv6 ⟨header.source, header.destination, w.protocol, w.isFragment, w.fragmentOffset,
            w.moreFragments, w.identification⟩)
          (offsetOf d.frame w.cursor) (min (start + ipv6HeaderLen + payloadLength) d.frame.length)

def etherTypeIpv4 : UInt16 := 0x0800

def etherTypeIpv6 : UInt16 := 0x86dd

def isVlan (etherType : UInt16) : Bool :=
  etherType == 0x8100 || etherType == 0x88a8 || etherType == 0x9100

/-- The network layer a frame has after its tags. Other EtherTypes are not the decoder's. -/
def decodeNetwork (E : Etherparse) (d : DecodedFrame) (etherType : UInt16) (rest : List UInt8) :
    DecodedFrame :=
  let d := { d with etherType := some etherType }
  if etherType = etherTypeIpv4 then decodeIpv4 E d rest
  else if etherType = etherTypeIpv6 then decodeIpv6 E d rest
  else d

/-- Read VLAN tags, at most `remaining` of them, and then the network layer. -/
def decodeTags (E : Etherparse) : ℕ → DecodedFrame → UInt16 → List UInt8 → DecodedFrame
  | 0, d, etherType, rest =>
    if isVlan etherType then d.note .vlan .tooManyLayers else decodeNetwork E d etherType rest
  | remaining + 1, d, etherType, rest =>
    if isVlan etherType then
      match E.singleVlan rest with
      | none => d.note .vlan .truncatedHeader
      | some (vlan, after) =>
        decodeTags E remaining { d with vlanIds := d.vlanIds ++ [vlan.vlanId] } vlan.etherType after
    else decodeNetwork E d etherType rest

/-- Decode one frame. `originalLen` is its length on the wire. -/
def decode (E : Etherparse) (frame : List UInt8) (originalLen : ℕ) : DecodedFrame :=
  let d := DecodedFrame.new frame originalLen
  if frame = [] then d.note .ethernet .emptyFrame
  else
    match E.ethernet2 frame with
    | none => d.note .ethernet .truncatedHeader
    | some (etherType, rest) => decodeTags E maxVlanTags d etherType rest

def decodeTransportBytes (E : Etherparse) (bytes : List UInt8) (protocol : UInt8) : DecodedFrame :=
  decodeTransport E (DecodedFrame.new bytes bytes.length) protocol 0 bytes.length

def decoder (E : Etherparse) : Decoder where
  decode frame originalLen := (decode E frame originalLen).toDecoded
  decodeTransportBytes bytes protocol := (decodeTransportBytes E bytes protocol).toDecoded

end Decode
end CyberSentinel
