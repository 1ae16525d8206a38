import CyberSentinel.Rules

/-!
# Resolved headers

Address and port sets with their exclusions, and the header test a packet's tuple has to pass. How a
header's expressions resolve to sets is a function from the parsed header, given by the variables.
-/

namespace CyberSentinel.Detect

open Rules

inductive VarError
  | undefined (name : String)
  | tooDeep (name : String)
  | malformed (text : String)
  | unsupportedNegation (text : String)
  deriving DecidableEq, Repr

structure AddressSet where
  any : Bool := false
  included : List IpNetwork := []
  excluded : List IpNetwork := []
  deriving DecidableEq

def AddressSet.contains (s : AddressSet) (address : IpAddr) : Bool :=
  if s.excluded.any (fun network => network.contains address) then false
  else s.any || s.included.any (fun network => network.contains address)

def AddressSet.everything : AddressSet := { any := true }

structure PortSet where
  any : Bool := false
  /-- Inclusive ranges. -/
  included : List (UInt16 × UInt16) := []
  excluded : List (UInt16 × UInt16) := []
  deriving DecidableEq, Repr

def PortSet.contains (s : PortSet) (port : UInt16) : Bool :=
  if s.excluded.any (fun range => range.1 ≤ port && port ≤ range.2) then false
  else s.any || s.included.any (fun range => range.1 ≤ port && port ≤ range.2)

def PortSet.everything : PortSet := { any := true }

structure CompiledHeader where
  protocol : RuleProtocol
  source : AddressSet
  sourcePorts : PortSet
  destination : AddressSet
  destinationPorts : PortSet
  bidirectional : Bool
  deriving DecidableEq

namespace CompiledHeader

def protocolMatches (h : CompiledHeader) (wire : Protocol) : Bool :=
  match h.protocol with
  | .ip => true
  | .tcp => wire == .tcp
  | .udp => wire == .udp
  | .icmp => wire == .icmp
  | .http | .tls => wire == .tcp
  | .dns => wire == .udp || wire == .tcp

def oneWay (h : CompiledHeader) (source : IpAddr) (sourcePort : Option UInt16)
    (destination : IpAddr) (destinationPort : Option UInt16) : Bool :=
  h.source.contains source && h.destination.contains destination &&
    sourcePort.all h.sourcePorts.contains && destinationPort.all h.destinationPorts.contains

end CompiledHeader

/-- Whether the header selects the tuple, or its reverse when it is bidirectional. -/
def CompiledHeader.matches (h : CompiledHeader) (tuple : NetTuple) : Bool :=
  h.protocolMatches tuple.proto &&
    (h.oneWay tuple.srcIp tuple.srcPort tuple.destIp tuple.destPort ||
      h.bidirectional && h.oneWay tuple.destIp tuple.destPort tuple.srcIp tuple.srcPort)

/-- `CompiledHeader::resolve` under a variable table. -/
abbrev HeaderResolver := RuleHeader → Except VarError CompiledHeader

/-- The resolver of headers that name no variables, lists or literals: every address and port field
is `any`. -/
def resolveAny : HeaderResolver := fun header =>
  .ok { protocol := header.protocol, source := .everything, sourcePorts := .everything,
        destination := .everything, destinationPorts := .everything,
        bidirectional := header.direction == .bidirectional }

end CyberSentinel.Detect
