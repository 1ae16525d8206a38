import CyberSentinel.Addresses

/-!
# Host events

What a host sensor reports: a watched file that changed, an authentication attempt, a process. The
words are those that rules and events use. An address is written as the standard library writes it.
-/

namespace CyberSentinel

inductive FileChange
  | created
  | modified
  | attributesChanged
  | deleted
  | renamed
  deriving DecidableEq, Repr

def FileChange.asStr : FileChange → String
  | created => "created"
  | modified => "modified"
  | attributesChanged => "attributes_changed"
  | deleted => "deleted"
  | renamed => "renamed"

inductive FimDetection
  | realTime
  | baselineRescan
  deriving DecidableEq, Repr

structure FimEvent where
  path : String
  change : FileChange
  detectedBy : FimDetection
  size : Option ℕ := none
  sha256 : Option String := none
  previousSha256 : Option String := none
  mode : Option UInt32 := none
  uid : Option UInt32 := none
  gid : Option UInt32 := none
  deriving DecidableEq, Repr

inductive AuthOutcome
  | success
  | failure
  deriving DecidableEq, Repr

def AuthOutcome.asStr : AuthOutcome → String
  | success => "success"
  | failure => "failure"

structure AuthEvent where
  outcome : AuthOutcome
  user : Option String := none
  service : Option String := none
  sourceAddress : Option IpAddr := none
  sourcePort : Option UInt16 := none
  /-- The log line, sanitised for transport. -/
  message : String
  logSource : String
  /-- What looked wrong about the record. -/
  suspicious : List String := []
  deriving DecidableEq, Repr

inductive ProcessChange
  | started
  | exited
  | listening
  deriving DecidableEq, Repr

def ProcessChange.asStr : ProcessChange → String
  | started => "started"
  | exited => "exited"
  | listening => "listening"

structure ProcessEvent where
  change : ProcessChange
  name : String
  commandLine : Option String := none
  deriving DecidableEq, Repr

end CyberSentinel
