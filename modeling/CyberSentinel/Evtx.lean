import CyberSentinel.HostEvents
import CyberSentinel.Substrings
import CyberSentinel.Texts
import Mathlib.Data.List.DropRight

/-!
# Windows logon events

A rendered Security event is searched for the event id and for the `Data` element of each field. A
field that is there more than once is refused. How a text is quoted in a note is a parameter, as for
log messages.
-/

namespace CyberSentinel.Evtx

open Numerals Substrings Texts

def eventIdLogonSuccess : UInt32 := 4624

def eventIdLogonFailure : UInt32 := 4625

def eventIdExplicitCredentials : UInt32 := 4648

def maxFieldChars : ℕ := 256

def maxEventBytes : ℕ := 64 * 1024

inductive LogonType
  | interactive
  | network
  | batch
  | service
  | unlock
  | networkCleartext
  | newCredentials
  | remoteInteractive
  | cachedInteractive
  | other (code : UInt32)
  deriving DecidableEq, Repr

namespace LogonType

def fromCode (code : UInt32) : LogonType :=
  if code = 2 then interactive
  else if code = 3 then network
  else if code = 4 then batch
  else if code = 5 then service
  else if code = 7 then unlock
  else if code = 8 then networkCleartext
  else if code = 9 then newCredentials
  else if code = 10 then remoteInteractive
  else if code = 11 then cachedInteractive
  else other code

def asStr : LogonType → String
  | interactive => "interactive"
  | network => "network"
  | batch => "batch"
  | service => "service"
  | unlock => "unlock"
  | networkCleartext => "network-cleartext"
  | newCredentials => "new-credentials"
  | remoteInteractive => "remote-interactive"
  | cachedInteractive => "cached-interactive"
  | other _ => "other"

end LogonType

structure ParsedLogon where
  event : AuthEvent
  logonType : Option LogonType
  eventId : UInt32
  deriving DecidableEq, Repr

/-- Take at most `limit` characters, replacing control characters. -/
def sanitise (text : Text) (limit : ℕ) : Text × Bool :=
  sanitiseFrom (fun _ => 1) limit [] false text

/-- Decode the five entities. The ampersand comes last. -/
def decodeEntities (text : Text) : Text :=
  let text := replace text "&lt;".toList ['<']
  let text := replace text "&gt;".toList ['>']
  let text := replace text "&quot;".toList ['"']
  let text := replace text "&apos;".toList ['\'']
  replace text "&amp;".toList ['&']

def openingTag (name : Text) : Text := '<' :: ("Data Name=\"".toList ++ name ++ "\">".toList)

def closingTag : Text := '<' :: "/Data>".toList

/-- Every value of a field, in document order. An unterminated one ends the search. -/
def dataFields (xml name : Text) : List Text :=
  match _ : find (openingTag name) xml with
  | none => []
  | some start =>
    let after := xml.drop (start + (openingTag name).length)
    match find closingTag after with
    | some stop => after.take stop :: dataFields (after.drop stop) name
    | none => []
termination_by xml.length
decreasing_by
  have hlength := length_le_of_find ‹find (openingTag name) xml = some _›
  have hpos : 0 < (openingTag name).length := Nat.succ_pos _
  simp only [List.length_drop]
  omega

def trim (text : Text) : Text := (text.dropWhile isWhitespace).rdropWhile isWhitespace

def parseU32 (text : Text) : Option UInt32 := (parseNumber (2 ^ 32) text).map UInt32.ofNat

def parseU16 (text : Text) : Option UInt16 := (parseNumber (2 ^ 16) text).map UInt16.ofNat

def idTag : Text := '<' :: "EventID".toList

def idEndTag : Text := '<' :: "/EventID>".toList

/-- The event id in the `System` section. -/
def eventId (xml : Text) : Option UInt32 := do
  let start ← find idTag xml
  let after := xml.drop start
  let opening := (← find ['>'] after) + 1
  let close ← find idEndTag after
  if close ≤ opening then none
  else parseU32 (trim ((after.take close).drop opening))

def cleanValue (raw : Text) : Text × Bool := sanitise (decodeEntities raw) maxFieldChars

/-- One field and the notes on it. A field that appears more than once is not used at all. -/
def field (xml : Text) (name : String) : Option Text × List String :=
  let occurrences := dataFields xml name.toList
  if 1 < occurrences.length then
    (none, ["field " ++ name ++ " appears " ++ toString occurrences.length ++
      " times; refusing it rather than choosing one"])
  else
    match occurrences.head? with
    | none => (none, [])
    | some raw =>
      let decoded := decodeEntities raw
      let (clean, changed) := cleanValue raw
      (if clean.isEmpty then none else some clean,
        (if decoded.contains '<' || decoded.contains '>' then
          ["field " ++ name ++ " contains markup after decoding"] else []) ++
        (if changed then
          ["field " ++ name ++ " was truncated or held control characters"] else []))

def meaningful (value : Option Text) : Option Text :=
  value.filter (fun text => text != ['-'] && !text.isEmpty)

def outcomeOf (id : UInt32) : Option AuthOutcome :=
  if id = eventIdLogonSuccess ∨ id = eventIdExplicitCredentials then some .success
  else if id = eventIdLogonFailure then some .failure
  else none

def addressNotes (quoted : String → String) (rawAddress : Option Text) : List String :=
  match rawAddress with
  | none => []
  | some text =>
    if (IpAddr.parse text).isNone && !(text == "LOCAL".toList || text == "127.0.0.1".toList ||
        text == "::1".toList) then
      ["IpAddress " ++ quoted (String.ofList (text.take 48)) ++ " is not an address"]
    else []

def summary (outcome : AuthOutcome) (id : UInt32) (logonType : Option LogonType)
    (user domain workstation status : Option Text) : String :=
  (match outcome with
    | .success => "successful"
    | .failure => "failed") ++ " logon (event " ++ toString id.toNat ++ ")" ++
  (match logonType with
    | some kind => ", type " ++ kind.asStr
    | none => "") ++
  (match user with
    | some account =>
      ", account " ++ (match domain with
        | some domain => String.ofList domain ++ "\\" ++ String.ofList account
        | none => String.ofList account)
    | none => "") ++
  (match workstation with
    | some host => ", from workstation " ++ String.ofList host
    | none => "") ++
  (match status with
    | some status => ", status " ++ String.ofList status
    | none => "")

/-- Parse a rendered Security event. Only logon decisions are records. -/
def parseLogonEvent (quoted : String → String) (rendered : String) : Option ParsedLogon :=
  let xml := rendered.toList
  if maxEventBytes < byteLength xml then none
  else do
    let id ← eventId xml
    let outcome ← outcomeOf id
    let user := meaningful (field xml "TargetUserName").1
    let domain := meaningful (field xml "TargetDomainName").1
    let workstation := meaningful (field xml "WorkstationName").1
    let logonType := ((meaningful (field xml "LogonType").1).bind parseU32).map LogonType.fromCode
    let rawAddress := meaningful (field xml "IpAddress").1
    let sourceAddress := rawAddress.bind IpAddr.parse
    let sourcePort := ((meaningful (field xml "IpPort").1).bind parseU16).filter (· != 0)
    let status :=
      if id = eventIdLogonFailure then meaningful (field xml "Status").1 else none
    let service := (meaningful (field xml "LogonProcessName").1).or (some "Security".toList)
    return {
      event := {
        outcome := outcome
        user := user.map String.ofList
        service := service.map String.ofList
        sourceAddress := sourceAddress
        sourcePort := sourcePort
        message := summary outcome id logonType user domain workstation status
        logSource := "windows-security"
        suspicious :=
          (field xml "TargetUserName").2 ++ (field xml "TargetDomainName").2 ++
            (field xml "WorkstationName").2 ++ (field xml "LogonType").2 ++
            (field xml "IpAddress").2 ++ addressNotes quoted rawAddress ++
            (field xml "IpPort").2 ++
            (if id = eventIdLogonFailure then (field xml "Status").2 else []) ++
            (field xml "LogonProcessName").2 }
      logonType := logonType
      eventId := id }

end CyberSentinel.Evtx
