import CyberSentinel.Runs
import CyberSentinel.Tables

/-!
# Local correlation

Observations of the two halves of the sensor are kept per host, within a time window and within
bounds. One that completes a pairing of the two halves raises an incident, unless its host has
raised one within the cooldown. Times are in nanoseconds.
-/

namespace CyberSentinel.Correlation

open Tables

inductive EventKind
  | alert
  | anomaly
  | flow
  | fim
  | auth
  | process
  | incident
  | stats
  deriving DecidableEq, Repr

inductive Domain
  | network
  | host
  deriving DecidableEq, Repr

namespace Domain

/-- An incident must not feed itself back in, and stats are not evidence of anything. -/
def of : EventKind → Option Domain
  | .alert | .anomaly | .flow => some network
  | .fim | .auth | .process => some host
  | .incident | .stats => none

def opposite : Domain → Domain
  | network => host
  | host => network

end Domain

structure Observation where
  host : String
  timestamp : ℤ
  domain : Domain
  eventType : EventKind
  sid : Option UInt32
  /-- The lowest number is the worst. -/
  severity : UInt8
  summary : String
  deriving DecidableEq, Repr

structure IncidentContributor where
  eventType : EventKind
  sid : Option UInt32
  summary : String
  timestamp : ℤ
  deriving DecidableEq, Repr

structure IncidentEvent where
  reason : String
  severity : UInt8
  firstSeen : ℤ
  lastSeen : ℤ
  contributors : List IncidentContributor
  deriving DecidableEq, Repr

structure CorrelationSettings where
  window : ℕ := 120 * 10 ^ 9
  maxHosts : ℕ := 1024
  maxPerHost : ℕ := 256
  cooldown : ℕ := 300 * 10 ^ 9
  deriving DecidableEq, Repr

structure CorrelationStats where
  enabled : Bool := false
  observations : ℕ := 0
  incidents : ℕ := 0
  dropped : ℕ := 0
  deriving DecidableEq, Repr

structure Correlator where
  settings : CorrelationSettings
  /-- Recent observations per host. -/
  windows : Table String (List Observation)
  /-- When each host last produced an incident. -/
  lastIncident : Table String ℤ
  stats : CorrelationStats

/-- The difference counts in either direction: sources can interleave imperfectly. -/
def within (earlier now : ℤ) (window : ℕ) : Bool := (now - earlier).natAbs ≤ window

def describe (contributors : List Observation) : String :=
  let hostSide := contributors.countP (fun o => o.domain = .host)
  let networkSide := contributors.length - hostSide
  toString networkSide ++ " network and " ++ toString hostSide ++
    " host observations on the same host within the correlation window"

def Observation.contributor (o : Observation) : IncidentContributor :=
  ⟨o.eventType, o.sid, o.summary, o.timestamp⟩

def inOrder (window : List Observation) : List Observation :=
  window.insertionSort (fun a b => a.timestamp ≤ b.timestamp)

/-- The incident a window gives: it spans the window and has its worst severity. -/
def incidentOf (window : List Observation) : Option IncidentEvent :=
  let contributors := inOrder window
  match contributors.head?, contributors.getLast? with
  | some first, some last =>
    some
      { reason := describe contributors
        severity := ((contributors.map Observation.severity).min?).getD 3
        firstSeen := first.timestamp
        lastSeen := last.timestamp
        contributors := contributors.map Observation.contributor }
  | _, _ => none

namespace Correlator

def new (settings : CorrelationSettings) : Correlator where
  settings := settings
  windows := ∅
  lastIncident := ∅
  stats := { enabled := true }

def trim (now : ℤ) (length : ℕ) (window : List Observation) : Option (List Observation) :=
  let kept := window.filter (fun o => within o.timestamp now length)
  if kept = [] then none else some kept

/-- Drop what has fallen out of the window, and the incidents whose cooldown is over. -/
def expire (c : Correlator) (now : ℤ) : Correlator :=
  { c with
    windows := revise (fun _ window => trim now c.settings.window window) c.windows
    lastIncident := retain (fun _ previous =>
      within previous now c.settings.cooldown) c.lastIncident }

/-- Look for a pairing of the two halves that includes the newest observation. -/
def tryCorrelate (c : Correlator) (trigger : Observation) : Correlator × Option IncidentEvent :=
  if (c.lastIncident.lookup trigger.host).any
      (fun previous => within previous trigger.timestamp c.settings.cooldown) then (c, none)
  else
    match c.windows.lookup trigger.host with
    | none => (c, none)
    | some window =>
      if !window.any (fun o => o.domain = trigger.domain.opposite) then (c, none)
      else
        match incidentOf window with
        | none => (c, none)
        | some incident =>
          ({ c with
              stats := { c.stats with incidents := c.stats.incidents + 1 }
              lastIncident := c.lastIncident.insert trigger.host trigger.timestamp },
            some incident)

def hasRoom (c : Correlator) (host : String) : Bool :=
  (c.windows.lookup host).isSome || size c.windows < c.settings.maxHosts

/-- Retain the observation; a full window gives up its oldest one. -/
def push (c : Correlator) (o : Observation) : Correlator :=
  let window := (c.windows.lookup o.host).getD []
  let full : Bool := c.settings.maxPerHost ≤ window.length
  { c with
    windows := c.windows.insert o.host ((if full then window.tail else window) ++ [o])
    stats := { c.stats with dropped := c.stats.dropped + if full then 1 else 0 } }

/-- Offer an observation, and get back an incident if it completed a pairing. -/
def observe (c : Correlator) (o : Observation) : Correlator × Option IncidentEvent :=
  let c := { c with stats := { c.stats with observations := c.stats.observations + 1 } }
  let c := c.expire o.timestamp
  if !c.hasRoom o.host then
    ({ c with stats := { c.stats with dropped := c.stats.dropped + 1 } }, none)
  else (c.push o).tryCorrelate o

end Correlator

end CyberSentinel.Correlation
