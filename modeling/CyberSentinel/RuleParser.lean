import CyberSentinel.Addresses
import CyberSentinel.OptionValues

/-!
# The rule parser

From the text of a rule to the rule: the seven fields of the header, and the options one after the
other, each read by its keyword. The first error ends it.
-/

namespace CyberSentinel.Rules

open Texts Numerals
open Evtx (trim parseU32)

def lowercase (text : Text) : Text := text.map Char.toLower

def parseAction (text : Text) : Except ParseError Action :=
  if lowercase text = "alert".toList then .ok .alert
  else if lowercase text = "pass".toList then .ok .pass
  else if lowercase text = "drop".toList then .ok .drop
  else if (["reject", "rejectsrc", "rejectdst", "rejectboth"].map String.toList).contains
    (lowercase text) then
    .error (.preventionAction text)
  else .error (.unknownAction text)

def protocolNames : List (Text × RuleProtocol) :=
  [("ip".toList, .ip), ("tcp".toList, .tcp), ("udp".toList, .udp), ("icmp".toList, .icmp),
    ("http".toList, .http), ("dns".toList, .dns), ("tls".toList, .tls)]

def parseProtocol (text : Text) : Except ParseError RuleProtocol :=
  match protocolNames.lookup (lowercase text) with
  | some protocol => .ok protocol
  | none => .error (.unknownProtocol text)

def parseDirection (text : Text) : Except ParseError Direction :=
  if text = "->".toList then .ok .toDestination
  else if text = "<>".toList then .ok .bidirectional
  else .error (.invalidDirection text)

/-- Split a leading `!` off a header field. -/
def splitNegation (text : Text) : Bool × Text :=
  match text with
  | '!' :: rest => (true, rest.dropWhile isWhitespace)
  | _ => (false, text)

def isVarChar (c : Char) : Bool := c.isAlphanum || c == '_'

def validateVarName (name : Text) : Except Reason Unit :=
  if name = [] then .error .noVarName
  else if name.all isVarChar then .ok ()
  else .error (.varName name)

def validateAddressLiteral (text : Text) : Except Reason Unit :=
  let (addr, prefixLen) := match splitOnce '/' text with
    | some (addr, prefixLen) => (addr, some prefixLen)
    | none => (text, none)
  match IpAddr.parse addr with
  | none => .error (.notAnAddress addr)
  | some address =>
    match prefixLen with
    | none => .ok ()
    | some prefixLen =>
      match parseNumber (2 ^ 8) prefixLen with
      | none => .error (.notAPrefixLength prefixLen)
      | some bits =>
        let max := match address with
          | .v4 _ => 32
          | .v6 _ => 128
        if max < bits then .error (.prefixTooLong bits max) else .ok ()

def addressValue (body : Text) : Except Reason AddressValue :=
  if body = [] then .error .empty
  else if lowercase body = "any".toList then .ok .any
  else
    match body with
    | '$' :: name => (validateVarName name).map fun _ => .var (String.ofList name)
    | '[' :: _ =>
      if body.getLast? ≠ some ']' then .error .openList
      else if byteLength body = 2 then .error .emptyList
      else .ok (.list (String.ofList body))
    | _ => (validateAddressLiteral body).map fun _ => .literal (String.ofList body)

def parseAddress (text : Text) : Except ParseError AddressSpec :=
  let (negated, body) := splitNegation text
  ((addressValue body).map fun value => { negated, value }).mapError (.invalidAddress text)

def parseOptionalPort (text : Text) : Except Reason (Option UInt16) :=
  if trim text = [] then .ok none
  else
    match Evtx.parseU16 (trim text) with
    | some port => .ok (some port)
    | none => .error (.notAPort (some (trim text)))

def portRange (low high : Option UInt16) : Except Reason PortValue :=
  match low, high with
  | some l, some h => if h < l then .error .reversedRange else .ok (.range low high)
  | _, _ => .ok (.range low high)

def portValue (body : Text) : Except Reason PortValue :=
  if body = [] then .error .empty
  else if lowercase body = "any".toList then .ok .any
  else
    match body with
    | '$' :: name => (validateVarName name).map fun _ => .var (String.ofList name)
    | '[' :: _ =>
      if body.getLast? ≠ some ']' then .error .openList
      else if byteLength body = 2 then .error .emptyList
      else .ok (.list (String.ofList body))
    | _ =>
      match splitOnce ':' body with
      | some (low, high) =>
        parseOptionalPort low >>= fun low => parseOptionalPort high >>= fun high =>
          portRange low high
      | none =>
        match Evtx.parseU16 body with
        | some port => .ok (.single port)
        | none => .error (.notAPort none)

def parsePort (text : Text) : Except ParseError PortSpec :=
  let (negated, body) := splitNegation text
  ((portValue body).map fun value => { negated, value }).mapError (.invalidPort text)

def parseHeader (text : Text) : Except ParseError RuleHeader :=
  match splitWhitespace text with
  | [action, protocol, source, sourcePort, direction, destination, destinationPort] => do
    let action ← parseAction action
    let protocol ← parseProtocol protocol
    let source ← parseAddress source
    let sourcePort ← parsePort sourcePort
    let direction ← parseDirection direction
    let destination ← parseAddress destination
    let destinationPort ← parsePort destinationPort
    return { action, protocol, source, sourcePort, direction, destination, destinationPort }
  | fields => .error (.headerFieldCount fields.length)

inductive Modifier
  | nocase
  | fastPattern
  | startsWith
  | offset
  | depth
  | distance
  | within
  deriving DecidableEq, Repr

inductive Keyword
  | sid
  | rev
  | gid
  | priority
  | msg
  | classtype
  | metadata
  | reference
  | buffer (b : Buffer)
  | content
  | modifier (m : Modifier)
  | pcre
  | flow
  | flowBits
  | byteTest
  | byteJump
  | dsize
  | normalized
  | threshold
  | host (field : HostField)
  /-- `<field>.pcre` -/
  | hostPcre (field : HostField)
  | unimplemented
  deriving DecidableEq, Repr

def bufferKeywords : List (Text × Buffer) :=
  [("http.uri".toList, .httpUri), ("http.header".toList, .httpHeader),
    ("http.user_agent".toList, .httpUserAgent), ("http.method".toList, .httpMethod),
    ("http.host".toList, .httpHost)]

def hostFields : List (Text × HostField) :=
  [("file.path".toList, .filePath), ("file.change".toList, .fileChange),
    ("auth.outcome".toList, .authOutcome), ("auth.user".toList, .authUser),
    ("auth.service".toList, .authService), ("auth.source".toList, .authSource),
    ("process.name".toList, .processName), ("process.change".toList, .processChange),
    ("process.cmdline".toList, .processCommandLine)]

def keywords : List (Text × Keyword) :=
  ([("sid".toList, .sid), ("rev".toList, .rev), ("gid".toList, .gid),
    ("priority".toList, .priority),
    ("msg".toList, .msg), ("classtype".toList, .classtype), ("metadata".toList, .metadata),
    ("reference".toList, .reference)] : List (Text × Keyword)) ++
  bufferKeywords.map (Prod.map id .buffer) ++
  ([("content".toList, .content), ("nocase".toList, .modifier .nocase),
    ("fast_pattern".toList, .modifier .fastPattern), ("startswith".toList, .modifier .startsWith),
    ("offset".toList, .modifier .offset), ("depth".toList, .modifier .depth),
    ("distance".toList, .modifier .distance), ("within".toList, .modifier .within),
    ("pcre".toList, .pcre), ("flow".toList, .flow), ("flowbits".toList, .flowBits),
    ("byte_test".toList, .byteTest), ("byte_jump".toList, .byteJump), ("dsize".toList, .dsize),
    ("normalized".toList, .normalized), ("threshold".toList, .threshold)] : List
    (Text × Keyword)) ++
  hostFields.map (Prod.map id .host) ++
  hostFields.map (Prod.map (· ++ ".pcre".toList) .hostPcre) ++
  -- recognised, and a rule with one of them is not evaluated
  ([("endswith".toList, .unimplemented), ("detection_filter".toList, .unimplemented),
    ("target".toList, .unimplemented)] : List (Text × Keyword))

def Keyword.read (name : Text) : Option Keyword := keywords.lookup name

def HostField.defaultMatchKind : HostField → HostMatchKind
  | .filePath => .startsWith
  | .processCommandLine => .contains
  | _ => .exact

def requireValue (name : Text) : Option Text → Except ParseError Text
  | some value => .ok value
  | none => .error (.missingOptionValue name)

def parseU32Option (name : Text) (value : Option Text) : Except ParseError UInt32 :=
  requireValue name value >>= fun value =>
    match parseU32 (trim value) with
    | some number => .ok number
    | none => .error (.invalidOptionValue name (.notANumber (trim value)))

def rejectDuplicate {α : Type} (slot : Option α) (name : Text) : Except ParseError Unit :=
  if slot.isSome then .error (.duplicateOption name) else .ok ()

def modifierNumber (what : String) (name : Text) (value : Option Text) : Except ParseError ℤ :=
  requireValue name value >>= fun value =>
    match parseSigned (2 ^ 63) (trim value) with
    | some number => .ok number
    | none => .error (.invalidOptionValue name (.mustBeANumber what))

/-- A number as an unsigned one of 32 bits. One that does not fit becomes zero. -/
def toU32 (number : ℤ) : ℕ := if 0 ≤ number ∧ number < 2 ^ 32 then number.toNat else 0

/-- A number as a signed one of 32 bits. One that does not fit becomes zero. -/
def toI32 (number : ℤ) : ℤ := if -2 ^ 31 ≤ number ∧ number < 2 ^ 31 then number else 0

def Modifier.apply (m : Modifier) (name : Text) (value : Option Text) (content : ContentMatch) :
    Except ParseError ContentMatch :=
  match m with
  | .nocase => .ok { content with nocase := true }
  | .fastPattern => .ok { content with fastPattern := true }
  -- at the very start: no further than the pattern's own length
  | .startsWith =>
    .ok { content with offset := some 0, depth := some (min content.pattern.length (2 ^ 32 - 1)) }
  | .offset =>
    (modifierNumber "offset" name value).map fun n => { content with offset := some (toU32 n) }
  | .depth =>
    (modifierNumber "depth" name value).map fun n => { content with depth := some (toU32 n) }
  | .distance =>
    (modifierNumber "distance" name value).map fun n => { content with distance := some (toI32 n) }
  | .within =>
    (modifierNumber "within" name value).map fun n => { content with within := some (toU32 n) }

/-- A modifier belongs to the option before it, which has to be a content. -/
def applyContentModifier (options : List RuleOption) (m : Modifier) (name : Text)
    (value : Option Text) :
    Except ParseError (List RuleOption) :=
  match options.getLast? with
  | some (.content content) =>
    (m.apply name value content).map fun content => options.dropLast ++ [.content content]
  | _ => .error (.invalidOptionValue name .noContent)

structure Draft where
  sid : Option UInt32 := none
  rev : Option UInt32 := none
  gid : Option UInt32 := none
  priority : Option UInt8 := none
  msg : Option String := none
  classtype : Option String := none
  metadata : List MetadataEntry := []
  references : List String := []
  options : List RuleOption := []
  threshold : Option Threshold := none
  noAlert : Bool := false
  unsupported : List String := []
  /-- What the matches from here on look at. -/
  buffer : Buffer := .payload
  deriving DecidableEq, Repr

def Draft.push (draft : Draft) (option : RuleOption) : Draft :=
  { draft with options := draft.options ++ [option] }

def readOption (draft : Draft) (option : RawOption) : Except ParseError Draft :=
  let ⟨name, value, negated⟩ := option
  let invalid {α : Type} (result : Except Reason α) := result.mapError (.invalidOptionValue name)
  match Keyword.read name with
  | some .sid => do
    rejectDuplicate draft.sid name
    return { draft with sid := some (← parseU32Option name value) }
  | some .rev => do
    rejectDuplicate draft.rev name
    return { draft with rev := some (← parseU32Option name value) }
  | some .gid => do
    rejectDuplicate draft.gid name
    return { draft with gid := some (← parseU32Option name value) }
  | some .priority => do
    rejectDuplicate draft.priority name
    let level ← parseU32Option name value
    if level < 1 ∨ 255 < level then .error (.invalidOptionValue name .priority)
    return { draft with priority := some level.toUInt8 }
  | some .msg => do
    rejectDuplicate draft.msg name
    let text ← requireValue name value
    if trim text = [] then .error (.invalidOptionValue name .emptyMsg)
    return { draft with msg := some (String.ofList text) }
  | some .classtype => do
    rejectDuplicate draft.classtype name
    return { draft with classtype := some (String.ofList (← requireValue name value)) }
  | some .metadata => do
    return { draft with metadata := draft.metadata ++ parseMetadata (← requireValue name value) }
  | some .reference => do
    return { draft with references := draft.references ++ [String.ofList
      (← requireValue name value)] }
  | some (.buffer b) =>
    if value.isSome then .error (.invalidOptionValue name .stickyValue)
      else .ok { draft with buffer := b }
  | some .content => do
    let pattern ← invalid (parseContentPattern (← requireValue name value))
    if pattern = [] then .error (.invalidOptionValue name .emptyContent)
    return draft.push (.content { pattern, buffer := draft.buffer, negated })
  | some (.modifier m) => do
    return { draft with options := ← applyContentModifier draft.options m name value }
  | some .pcre => do
    let pcre ← invalid (parsePcre (← requireValue name value))
    return draft.push (.pcre { pcre with buffer := draft.buffer, negated })
  | some .flow => do
    return draft.push (.flow (← invalid (parseFlow (← requireValue name value))))
  | some .flowBits => do
    let op ← invalid (parseFlowBits (← requireValue name value))
    -- `noalert` marks the rule, it is no condition
    if op = .noAlert then return { draft with noAlert := true }
      else return draft.push (.flowBits op)
  | some .byteTest => do
    return draft.push (.byteTest (← invalid (parseByteTest (← requireValue name value))))
  | some .byteJump => do
    let jump := parseByteJump (← requireValue name value)
    return draft.push (.byteJump (← invalid (jump.mapError .byteJump)))
  | some .dsize => do
    return draft.push (.dsize (← invalid (parseDsize (← requireValue name value))))
  | some .normalized => do
    let text ← requireValue name value
    match NormalizationCondition.parse text with
    | some condition => return draft.push (.normalized condition)
    | none => .error (.invalidOptionValue name (.condition text))
  | some .threshold => do
    rejectDuplicate draft.threshold name
    let threshold := parseThreshold (← requireValue name value)
    return { draft with threshold := some (← invalid (threshold.mapError .threshold)) }
  | some (.host field) => do
    let values ← invalid (parseHostValues (← requireValue name value))
    let matcher := .anyOf values field.defaultMatchKind false
    return draft.push (.host { field, matcher, negated })
  | some (.hostPcre field) => do
    let expression ← requireValue name value
    if trim expression = [] then .error (.invalidOptionValue name .emptyExpression)
    return draft.push (.host { field, matcher := .regex (String.ofList expression), negated })
  | some .unimplemented =>
    let name := String.ofList name
    .ok { draft with unsupported := if name ∈ draft.unsupported then draft.unsupported
                                    else draft.unsupported ++ [name] }
  | none => .error (.unknownOption name)

structure ParsedRule extends Rule where
  gid : Option UInt32
  references : List String
  raw : Text
  deriving DecidableEq, Repr

def Draft.finish (draft : Draft) (header : RuleHeader) (raw : Text) :
    Except ParseError ParsedRule :=
  match draft.sid with
  | none => .error .missingSid
  | some sid =>
    match draft.msg with
    | none => .error .missingMsg
    | some msg => .ok
      { header, sid, msg, raw
        rev := draft.rev.getD 1
        gid := draft.gid
        priority := draft.priority
        classtype := draft.classtype
        metadata := draft.metadata
        references := draft.references
        options := draft.options
        threshold := draft.threshold
        noAlert := draft.noAlert
        unsupportedOptions := draft.unsupported }

def buildRule (header : RuleHeader) (options : List RawOption) (raw : Text) :
    Except ParseError ParsedRule :=
  options.foldlM readOption {} >>= fun draft => draft.finish header raw

/-- The text in front of the first parenthesis, and what stands from there to the last closing one.
-/
def splitBlock (raw : Text) : Except ParseError (Text × Text) :=
  match splitOnce '(' raw with
  | none => .error .missingOptionBlock
  | some (header, rest) =>
    match rsplitOnce ')' rest with
    | none => .error .unterminatedOptionBlock
    | some (body, _) => .ok (header, body)

def parseRule (text : Text) : Except ParseError ParsedRule :=
  let raw := trim text
  if raw = [] then .error .empty
  else do
    let (headerText, body) ← splitBlock raw
    let header ← parseHeader headerText
    let options ← parseOptions body
    buildRule header options raw

end CyberSentinel.Rules
