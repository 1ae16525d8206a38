import CyberSentinel.Net
import CyberSentinel.Search

/-!
# Rules

The rule model that the parser produces and the engine compiles: the header, the match options in
written order, and what is read off a rule. Offsets and lengths that a rule writes as 32-bit numbers
are naturals and integers; the values a `byte_test` compares are 64-bit words.
-/

namespace CyberSentinel.Rules

inductive Buffer
  | payload
  | httpUri
  | httpHeader
  | httpUserAgent
  | httpMethod
  | httpHost
  deriving DecidableEq, Repr

namespace Buffer

def rank : Buffer → ℕ
  | payload => 0
  | httpUri => 1
  | httpHeader => 2
  | httpUserAgent => 3
  | httpMethod => 4
  | httpHost => 5

theorem rank_injective : Function.Injective rank := by
  intro a b h
  cases a <;> cases b <;> first | rfl | simp [rank] at h

instance : LinearOrder Buffer := LinearOrder.lift' rank rank_injective

def isHttp (b : Buffer) : Bool := b != payload

end Buffer

structure ContentMatch where
  pattern : List UInt8
  buffer : Buffer := .payload
  negated : Bool := false
  nocase : Bool := false
  offset : Option ℕ := none
  depth : Option ℕ := none
  distance : Option ℤ := none
  within : Option ℕ := none
  fastPattern : Bool := false
  deriving DecidableEq, Repr

namespace ContentMatch

def isRelative (c : ContentMatch) : Bool := c.distance.isSome || c.within.isSome

/-- A negated match cannot be a pre-filter: its rule fires where the pattern is absent. -/
def usableAsFastPattern (c : ContentMatch) : Bool := !c.negated && !c.pattern.isEmpty

end ContentMatch

structure PcreMatch where
  source : String
  buffer : Buffer := .payload
  negated : Bool := false
  caseInsensitive : Bool := false
  dotMatchesNewline : Bool := false
  multiLine : Bool := false
  relative : Bool := false
  deriving DecidableEq, Repr

structure FlowMatch where
  established : Option Bool := none
  toServer : Option Bool := none
  deriving DecidableEq, Repr

inductive FlowBitsOp
  | set (name : String)
  | unset (name : String)
  | toggle (name : String)
  | isSet (name : String)
  | isNotSet (name : String)
  | noAlert
  deriving DecidableEq, Repr

inductive NumericOp
  | equal
  | notEqual
  | less
  | lessOrEqual
  | greater
  | greaterOrEqual
  | bitAnd
  | bitXor
  deriving DecidableEq, Repr

def NumericOp.apply (op : NumericOp) (left right : UInt64) : Bool :=
  match op with
  | equal => left == right
  | notEqual => left != right
  | less => left < right
  | lessOrEqual => left ≤ right
  | greater => left > right
  | greaterOrEqual => left ≥ right
  | bitAnd => (left &&& right) != 0
  | bitXor => (left ^^^ right) != 0

inductive Endian
  | big
  | little
  deriving DecidableEq, Repr

structure ByteTest where
  bytes : UInt8
  op : NumericOp
  value : UInt64
  offset : ℤ
  relative : Bool
  endian : Endian
  negated : Bool
  deriving DecidableEq, Repr

structure ByteJump where
  bytes : UInt8
  offset : ℤ
  relative : Bool
  multiplier : UInt32
  endian : Endian
  postOffset : ℤ
  deriving DecidableEq, Repr

structure DsizeMatch where
  op : NumericOp
  value : UInt32
  upper : Option UInt32 := none
  deriving DecidableEq, Repr

/-- Whether a buffer of `length` bytes satisfies the test. -/
def DsizeMatch.matches (d : DsizeMatch) (length : ℕ) : Bool :=
  let length := UInt64.ofNat length
  match d.upper with
  | some upper => length > d.value.toUInt64 && length < upper.toUInt64
  | none => d.op.apply length d.value.toUInt64

inductive ThresholdKind
  | threshold
  | limit
  | both
  deriving DecidableEq, Repr

inductive Track
  | bySource
  | byDestination
  | byRule
  deriving DecidableEq, Repr

structure Threshold where
  kind : ThresholdKind
  track : Track
  count : UInt32
  seconds : UInt32
  deriving DecidableEq, Repr

inductive NormalizationCondition
  | percentEncoded
  | doubleEncoded
  | invalidEscape
  | nullByte
  | traversal
  | aboveRoot
  | selfReference
  | emptySegment
  | backslash
  | decodeLimitReached
  deriving DecidableEq, Repr

inductive HostField
  | filePath
  | fileChange
  | authOutcome
  | authUser
  | authService
  | authSource
  | processName
  | processChange
  | processCommandLine
  deriving DecidableEq, Repr

inductive HostEventKind
  | fim
  | auth
  | process
  deriving DecidableEq, Repr

def HostField.eventKind : HostField → HostEventKind
  | filePath | fileChange => .fim
  | authOutcome | authUser | authService | authSource => .auth
  | processName | processChange | processCommandLine => .process

inductive HostMatchKind
  | exact
  | startsWith
  | contains
  deriving DecidableEq, Repr

inductive HostMatcher
  | anyOf (values : List String) (kind : HostMatchKind) (nocase : Bool)
  | regex (source : String)
  deriving DecidableEq, Repr

structure HostFieldMatch where
  field : HostField
  matcher : HostMatcher
  negated : Bool
  deriving DecidableEq, Repr

inductive RuleOption
  | content (c : ContentMatch)
  | pcre (p : PcreMatch)
  | flow (f : FlowMatch)
  | flowBits (op : FlowBitsOp)
  | byteTest (t : ByteTest)
  | byteJump (j : ByteJump)
  | dsize (d : DsizeMatch)
  | normalized (c : NormalizationCondition)
  | host (h : HostFieldMatch)
  deriving DecidableEq, Repr

namespace RuleOption

def buffer : RuleOption → Option Buffer
  | content c => some c.buffer
  | pcre p => some p.buffer
  | _ => none

def hostEventKind : RuleOption → Option HostEventKind
  | host h => some h.field.eventKind
  | _ => none

end RuleOption

inductive Action
  | alert
  | pass
  | drop
  deriving DecidableEq, Repr

def Action.blocks (a : Action) : Bool := a == drop

inductive RuleProtocol
  | tcp
  | udp
  | icmp
  | ip
  | http
  | dns
  | tls
  deriving DecidableEq, Repr

def RuleProtocol.isAppLayer : RuleProtocol → Bool
  | http | dns | tls => true
  | tcp | udp | icmp | ip => false

inductive Direction
  | toDestination
  | bidirectional
  deriving DecidableEq, Repr

inductive AddressValue
  | any
  | var (name : String)
  | list (text : String)
  | literal (text : String)
  deriving DecidableEq, Repr

structure AddressSpec where
  negated : Bool := false
  value : AddressValue := .any
  deriving DecidableEq, Repr

inductive PortValue
  | any
  | var (name : String)
  | list (text : String)
  | single (port : UInt16)
  | range (low high : Option UInt16)
  deriving DecidableEq, Repr

structure PortSpec where
  negated : Bool := false
  value : PortValue := .any
  deriving DecidableEq, Repr

structure RuleHeader where
  action : Action
  protocol : RuleProtocol
  source : AddressSpec := {}
  sourcePort : PortSpec := {}
  direction : Direction := .toDestination
  destination : AddressSpec := {}
  destinationPort : PortSpec := {}
  deriving DecidableEq, Repr

structure MetadataEntry where
  key : String
  value : String
  deriving DecidableEq, Repr

structure RuleOrigin where
  file : String
  line : ℕ
  deriving DecidableEq, Repr

structure Rule where
  header : RuleHeader
  sid : UInt32
  rev : UInt32 := 1
  priority : Option UInt8 := none
  msg : String
  classtype : Option String := none
  metadata : List MetadataEntry := []
  /-- In written order: relative options are measured from the options before them. -/
  options : List RuleOption
  threshold : Option Threshold := none
  noAlert : Bool := false
  /-- Keywords that are recognised and cannot be evaluated. -/
  unsupportedOptions : List String := []
  origin : Option RuleOrigin := none
  deriving DecidableEq, Repr

namespace Rule

def isEvaluable (r : Rule) : Bool := r.unsupportedOptions.isEmpty

def severity (r : Rule) : UInt8 := r.priority.getD 3

def buffers (r : Rule) : List Buffer := Search.sortDedup (r.options.filterMap RuleOption.buffer)

def isHostRuleByOptions (r : Rule) : Bool := r.options.any (fun o => o.hostEventKind.isSome)

def needsHttp (r : Rule) : Bool := r.header.protocol.isAppLayer || r.buffers.any Buffer.isHttp

/-- `file:line` if the origin is known. -/
def location (r : Rule) : String :=
  r.origin.elim "<inline>" (fun o => o.file ++ ":" ++ toString o.line)

end Rule
end CyberSentinel.Rules
