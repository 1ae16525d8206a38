import CyberSentinel.FlowTable

/-!
# The verdict store

Which conversations and sources are to be dropped, decided from state that already exists. A
conversation is named by its protocol and its two endpoints in order, so that both directions have
one name; a port that is absent counts as port zero. Instants are nanoseconds of a monotonic clock.
-/

namespace CyberSentinel
namespace Prevent

open Tables

inductive Mode
  | detect
  | prevent
  deriving DecidableEq, Repr

inductive FailMode
  | failOpen
  | failClosed
  deriving DecidableEq, Repr

inductive DropReason
  | flowVerdict
  | blockedSource
  deriving DecidableEq, Repr

inductive Decision
  | accept
  | drop (reason : DropReason)
  deriving DecidableEq, Repr

def Decision.isDrop : Decision → Bool
  | .accept => false
  | .drop _ => true

inductive BlockOutcome
  | blocked (source : Option IpAddr)
  | notArmed
  | allowListed (address : IpAddr)
  | full
  deriving DecidableEq, Repr

structure PreventionSettings where
  mode : Mode := .detect
  failMode : FailMode := .failOpen
  allowList : List IpNetwork := []
  /-- In nanoseconds. -/
  sourceBlock : ℕ := 600 * nanosPerSecond
  maxBlockedFlows : ℕ := 65536
  maxBlockedSources : ℕ := 16384
  deriving DecidableEq

def PreventionSettings.isAllowListed (c : PreventionSettings) (address : IpAddr) : Bool :=
  c.allowList.any (fun network => network.contains address)

structure FlowKey where
  protocol : Protocol
  lower : Endpoint
  upper : Endpoint
  deriving DecidableEq, Repr

end Prevent

def NetTuple.source (t : NetTuple) : Endpoint := ⟨t.srcIp, t.srcPort.getD 0⟩

/-- The destination of a tuple, with port zero where there is none. -/
def NetTuple.destination (t : NetTuple) : Endpoint := ⟨t.destIp, t.destPort.getD 0⟩

namespace Prevent

open Tables

def FlowKey.fromTuple (tuple : NetTuple) : FlowKey :=
  if tuple.source ≤ tuple.destination then ⟨tuple.proto, tuple.source, tuple.destination⟩
  else ⟨tuple.proto, tuple.destination, tuple.source⟩

structure PreventStats where
  packetsJudged : ℕ := 0
  packetsDropped : ℕ := 0
  allowListedPasses : ℕ := 0
  flowsBlocked : ℕ := 0
  sourcesBlocked : ℕ := 0
  allowListedBlocksRefused : ℕ := 0
  blocksDroppedAtCapacity : ℕ := 0
  flowVerdictsExpired : ℕ := 0
  sourceBlocksExpired : ℕ := 0
  deriving DecidableEq, Repr

structure Prevention where
  settings : PreventionSettings
  /-- Condemned conversations, with when they were condemned. -/
  flows : Table FlowKey Instant
  /-- Blocked sources, with when the block lapses. -/
  sources : Table IpAddr Instant
  stats : PreventStats

namespace Prevention

def new (settings : PreventionSettings) : Prevention where
  settings := settings
  flows := ∅
  sources := ∅
  stats := {}

def armed (p : Prevention) : Bool := p.settings.mode = .prevent

/-- Arm or disarm. Recorded verdicts are kept. -/
def setMode (p : Prevention) (mode : Mode) : Prevention :=
  { p with settings := { p.settings with mode } }

def isAllowListed (p : Prevention) (address : IpAddr) : Bool := p.settings.isAllowListed address

/-- Look up the source of a packet whose conversation is not condemned. A block that has lapsed is
forgotten here. -/
def decideSource (p : Prevention) (tuple : NetTuple) (now : Instant) : Prevention × Decision :=
  match p.sources.lookup tuple.srcIp with
  | none => (p, .accept)
  | some expiry =>
    if now < expiry then
      ({ p with stats := { p.stats with packetsDropped := p.stats.packetsDropped + 1 } },
        .drop .blockedSource)
    else
      ({ p with
          sources := p.sources.erase tuple.srcIp
          stats := { p.stats with sourceBlocksExpired := p.stats.sourceBlocksExpired + 1 } },
        .accept)

def decide (p : Prevention) (tuple : NetTuple) (now : Instant) : Prevention × Decision :=
  let p := { p with stats := { p.stats with packetsJudged := p.stats.packetsJudged + 1 } }
  if !p.armed then (p, .accept)
  else if p.isAllowListed tuple.srcIp || p.isAllowListed tuple.destIp then
    ({ p with stats := { p.stats with allowListedPasses := p.stats.allowListedPasses + 1 } },
      .accept)
  else if FlowKey.fromTuple tuple ∈ p.flows then
    ({ p with stats := { p.stats with packetsDropped := p.stats.packetsDropped + 1 } },
      .drop .flowVerdict)
  else p.decideSource tuple now

def block (p : Prevention) (tuple : NetTuple) (now : Instant) : Prevention × BlockOutcome :=
  if !p.armed then (p, .notArmed)
  else
    match [tuple.srcIp, tuple.destIp].find? p.isAllowListed with
    | some address =>
      ({ p with
          stats := { p.stats with
            allowListedBlocksRefused := p.stats.allowListedBlocksRefused + 1 } },
        .allowListed address)
    | none =>
      if p.settings.maxBlockedFlows ≤ size p.flows ∨ p.settings.maxBlockedSources ≤ size p.sources
      then
        ({ p with
            stats := { p.stats with
              blocksDroppedAtCapacity := p.stats.blocksDroppedAtCapacity + 1 } },
          .full)
      else
        ({ p with
            flows := p.flows.insert (FlowKey.fromTuple tuple) now
            sources := p.sources.insert tuple.srcIp (now + p.settings.sourceBlock)
            stats := { p.stats with
              flowsBlocked := p.stats.flowsBlocked + 1
              sourcesBlocked := p.stats.sourcesBlocked +
                if tuple.srcIp ∈ p.sources then 0 else 1 } },
          .blocked (some tuple.srcIp))

def expire (p : Prevention) (now : Instant) : Prevention :=
  let flows := retain (fun _ blockedAt => elapsed now blockedAt < p.settings.sourceBlock) p.flows
  let sources := retain (fun _ expiry => now < expiry) p.sources
  { p with
    flows
    sources
    stats := { p.stats with
      flowVerdictsExpired := p.stats.flowVerdictsExpired + (size p.flows - size flows)
      sourceBlocksExpired := p.stats.sourceBlocksExpired + (size p.sources - size sources) } }

end Prevention

inductive Op
  | block (tuple : NetTuple) (now : Instant)
  | decide (tuple : NetTuple) (now : Instant)
  | expire (now : Instant)
  | setMode (mode : Mode)

/-- The instant a call is made at; changing the mode has none. -/
def Op.instant : Op → Option Instant
  | .block _ now => some now
  | .decide _ now => some now
  | .expire now => some now
  | .setMode _ => none

inductive Answer
  | block (outcome : BlockOutcome)
  | decide (decision : Decision)
  | none

def Prevention.step (p : Prevention) : Op → Prevention × Answer
  | .block tuple now =>
    let (p, outcome) := p.block tuple now
    (p, .block outcome)
  | .decide tuple now =>
    let (p, decision) := p.decide tuple now
    (p, .decide decision)
  | .expire now => (p.expire now, .none)
  | .setMode mode => (p.setMode mode, .none)

end Prevent
end CyberSentinel
