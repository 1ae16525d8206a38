import CyberSentinel.HostEvents
import CyberSentinel.Texts

/-!
# Authentication log records

A message is cleaned and cut to its limit, falls into words, and the account and the source are
taken from the words at the places where the formats have them. How a text is quoted in a note on a
suspicious record is a parameter: it is the debug format of the standard library, and nothing here
reads it.
-/

namespace CyberSentinel.Logs

open Texts Numerals

def maxField : ℕ := 256

def maxMessage : ℕ := 2048

/-- Turn a text into something safe to put in an event, at most `limit` bytes and the rest of the
character that reaches it. -/
def sanitise (text : Text) (limit : ℕ) : Text × Bool :=
  sanitiseFrom Char.utf8Size limit [] false text

/-- Take at most `limit` characters. -/
def clip (text : Text) (limit : ℕ) : String := String.ofList (text.take limit)

def plausibleUsername (token : Text) : Bool :=
  !token.isEmpty && byteLength token ≤ 64 &&
    token.all (fun c => c.isAlphanum || "._-$@\\/".toList.contains c)

structure ParsedAuth where
  event : AuthEvent
  deriving DecidableEq, Repr

section Notes

variable (quoted : String → String)

/-- The account name, taken as one token: `user=NAME`, else `for [invalid] [user] NAME`, else
`user NAME`. -/
def extractUser (tokens : List Text) : Option String × List String :=
  let stripped := tokens.findSome? (fun token =>
    if "user=".toList.isPrefixOf token then some (token.drop 5) else none)
  let afterFor := (tokens.idxOf? "for".toList).bind (fun position =>
    ((tokens.drop (position + 1)).dropWhile (fun token =>
      token == "invalid".toList || token == "user".toList)).head?)
  let afterUser := (tokens.idxOf? "user".toList).bind (fun position => tokens[position + 1]?)
  match (stripped.or afterFor).or afterUser with
  | none => (none, [])
  | some candidate =>
    if plausibleUsername candidate then (some (String.ofList candidate), [])
    else
      -- recorded anyway, but marked
      (some (String.ofList (sanitise candidate 64).1),
        ["user token " ++ quoted (clip candidate 32) ++ " is not a plausible account name"])

def parsePort (token : Text) : Option UInt16 := (parseNumber 65536 token).map UInt16.ofNat

/-- The source address and port. Both must parse as what they claim to be. -/
def extractSource (tokens : List Text) : Option IpAddr × Option UInt16 × List String :=
  match tokens.idxOf? "from".toList with
  | none => (none, none, [])
  | some position =>
    match tokens[position + 1]? with
    | none => (none, none, [])
    | some candidate =>
      match IpAddr.parse candidate with
      | none =>
        (none, none, ["source token " ++ quoted (clip candidate 48) ++ " is not an address"])
      | some address =>
        let port := (tokens[position + 2]?.filter (· == "port".toList)).bind (fun _ =>
          (tokens[position + 3]?).bind parsePort)
        (some address, port, [])

/-- The outcome a message reports, when it is about an authentication decision at all. -/
def outcomeOf (lower : Text) : Option AuthOutcome :=
  if "failed password".toList <+: lower ∨ "failed publickey".toList <+: lower ∨
      "authentication failure".toList <:+: lower ∨ "invalid user".toList <+: lower ∨
      "failed none".toList <+: lower then some .failure
  else if "accepted password".toList <+: lower ∨ "accepted publickey".toList <+: lower ∨
      "session opened for user".toList <+: lower then some .success
  else none

def parseAuthMessage (message : String) (service : Option String) (logSource : String) :
    Option ParsedAuth :=
  let (clean, messageChanged) := sanitise message.toList maxMessage
  match outcomeOf (clean.map Char.toLower) with
  | none => none
  | some outcome =>
    let tokens := splitWhitespace clean
    let (user, userNotes) := extractUser quoted tokens
    let (sourceAddress, sourcePort, sourceNotes) := extractSource quoted tokens
    some {
      event := {
        outcome := outcome
        user := user
        service := service.map (fun s => String.ofList (sanitise s.toList maxField).1)
        sourceAddress := sourceAddress
        sourcePort := sourcePort
        message := String.ofList clean
        logSource := logSource
        suspicious :=
          (if messageChanged then ["message contained control characters or was truncated"]
            else []) ++ userNotes ++ sourceNotes } }

end Notes
end CyberSentinel.Logs
