import CyberSentinel.FlowTable

/-!
# IP defragmentation

Fragments of a datagram are gathered in a range buffer until the final one has come and nothing is
missing before it. The number of part-assembled datagrams and the bytes they hold are bounded: idle
sets are swept, and a full table gives up its oldest ones. Overlaps go by the destination's policy.
-/

namespace CyberSentinel

open Tables

def maxDatagramLen : ℕ := 65535

def maxHolesPerDatagram : ℕ := 128

/-- One fragment; the offset is in units of eight bytes, as on the wire. -/
structure FragmentView where
  source : IpAddr
  destination : IpAddr
  identification : UInt32
  protocol : UInt8
  offset : UInt16
  moreFragments : Bool
  payload : List UInt8
  deriving DecidableEq, Repr

structure FragmentKey where
  source : IpAddr
  destination : IpAddr
  identification : UInt32
  protocol : UInt8
  deriving DecidableEq, Repr

def FragmentView.key (f : FragmentView) : FragmentKey :=
  ⟨f.source, f.destination, f.identification, f.protocol⟩

/-- A completed datagram: what came after the IP header. -/
structure Reassembled where
  source : IpAddr
  destination : IpAddr
  protocol : UInt8
  data : List UInt8
  fragments : ℕ
  conflictingBytes : ℕ
  deriving DecidableEq, Repr

structure DefragCounters where
  fragments : ℕ := 0
  completed : ℕ := 0
  started : ℕ := 0
  timedOut : ℕ := 0
  evicted : ℕ := 0
  overlaps : ℕ := 0
  conflictingOverlaps : ℕ := 0
  oversized : ℕ := 0
  refusedBytes : ℕ := 0
  misaligned : ℕ := 0
  deriving DecidableEq, Repr

structure FragmentSet where
  buffer : RangeBuffer
  firstSeen : Instant
  lastSeen : Instant
  /-- Known once the final fragment has come. -/
  totalLen : Option ℕ
  fragments : ℕ
  conflictingBytes : ℕ
  source : IpAddr
  destination : IpAddr
  protocol : UInt8
  deriving DecidableEq, Repr

structure Defragmenter where
  sets : Table FragmentKey FragmentSet
  maxSets : ℕ
  maxBytesTotal : ℕ
  /-- In nanoseconds. -/
  timeout : ℕ
  counters : DefragCounters
  lastSweep : Option Instant

def FragmentView.emptySet (f : FragmentView) (now : Instant) : FragmentSet where
  buffer := RangeBuffer.new 0 maxDatagramLen maxHolesPerDatagram
  firstSeen := now
  lastSeen := now
  totalLen := none
  fragments := 0
  conflictingBytes := 0
  source := f.source
  destination := f.destination
  protocol := f.protocol

namespace Defragmenter

def sweepInterval : ℕ := 5 * nanosPerSecond

def new (c : ReassemblyConfig) : Defragmenter where
  sets := ∅
  maxSets := max c.maxFragmentSets 1
  maxBytesTotal := max c.maxFragmentBytesTotal 1
  timeout := max c.fragmentTimeoutSecs 1 * nanosPerSecond
  counters := {}
  lastSweep := none

def bufferedBytes (d : Defragmenter) : ℕ := total (fun set => set.buffer.bufferedBytes) d.sets

def activeSets (d : Defragmenter) : ℕ := size d.sets

def sweep (d : Defragmenter) (now : Instant) : Defragmenter :=
  let kept := retain (fun _ set => elapsed now set.lastSeen < d.timeout) d.sets
  { d with
    lastSweep := some now
    sets := kept
    counters := { d.counters with timedOut := d.counters.timedOut + (size d.sets - size kept) } }

def maybeSweep (d : Defragmenter) (now : Instant) : Defragmenter :=
  let due := d.lastSweep.all (fun last => last ≤ now && sweepInterval ≤ elapsed now last)
  if due then d.sweep now else d

def withinLimits (d : Defragmenter) : Bool :=
  d.activeSets < d.maxSets && d.bufferedBytes < d.maxBytesTotal

def evictSet (d : Defragmenter) (key : FragmentKey) : Defragmenter :=
  match d.sets.lookup key with
  | none => d
  | some _ =>
    { d with
      sets := d.sets.erase key
      counters := { d.counters with evicted := d.counters.evicted + 1 } }

def makeRoom (d : Defragmenter) (order : HashOrder FragmentKey) (now : Instant) : Defragmenter :=
  if d.withinLimits then d
  else
    let d := d.sweep now
    if d.withinLimits then d
    else
      let batch := max (d.maxSets / 10) 1
      let byAge := ((iter order d.sets).map (fun entry =>
        (entry.2.firstSeen, entry.1))).insertionSort
        (fun a b => a.1 ≤ b.1)
      ((byAge.take batch).map Prod.snd).foldl evictSet d

def entry (d : Defragmenter) (order : HashOrder FragmentKey) (fragment : FragmentView)
    (now : Instant) : Defragmenter × FragmentSet :=
  match d.sets.lookup fragment.key with
  | some set => (d, set)
  | none =>
    let d := d.makeRoom order now
    ({ d with counters := { d.counters with started := d.counters.started + 1 } },
      fragment.emptySet now)

/-- Take a fragment into its set. The first claim about the length is kept. -/
def gatherInto (set : FragmentSet) (fragment : FragmentView) (now : Instant)
    (policy : OverlapPolicy) : FragmentSet × WriteOutcome :=
  let offset := fragment.offset.toNat * 8
  let (buffer, outcome) := set.buffer.write offset fragment.payload policy
  ({ set with
      buffer
      fragments := set.fragments + 1
      lastSeen := max set.lastSeen now
      conflictingBytes := set.conflictingBytes + outcome.conflicting
      totalLen := if fragment.moreFragments then set.totalLen
        else some (set.totalLen.getD (offset + fragment.payload.length)) },
    outcome)

def countWrite (c : DefragCounters) (outcome : WriteOutcome) : DefragCounters :=
  { c with
    overlaps := c.overlaps + outcome.overlapped
    conflictingOverlaps := c.conflictingOverlaps + outcome.conflicting
    refusedBytes := c.refusedBytes + outcome.refused }

/-- The datagram of a set, once its length is known and nothing before it is missing. -/
def complete (set : FragmentSet) : Option Reassembled :=
  (set.totalLen.filter (fun total => total ≤ set.buffer.contiguousEnd)).map fun total =>
    { source := set.source, destination := set.destination, protocol := set.protocol
      data := (set.buffer.drainContiguousUpto total).2
      fragments := set.fragments, conflictingBytes := set.conflictingBytes }

/-- Offer a fragment; the datagram is returned with its last missing piece. -/
def push (d : Defragmenter) (order : HashOrder FragmentKey) (fragment : FragmentView)
    (now : Instant) (policy : OverlapPolicy) : Defragmenter × Option Reassembled :=
  let d := { d with counters := { d.counters with fragments := d.counters.fragments + 1 } }
  let d := d.maybeSweep now
  if maxDatagramLen < fragment.offset.toNat * 8 + fragment.payload.length then
    ({ d with counters := { d.counters with oversized := d.counters.oversized + 1 } }, none)
  else
    let misaligned := fragment.moreFragments && !fragment.payload.isEmpty &&
      fragment.payload.length % 8 != 0
    let d := { d with
      counters := { d.counters with
        misaligned := d.counters.misaligned + if misaligned then 1 else 0 } }
    let (d, set) := d.entry order fragment now
    let (set, outcome) := gatherInto set fragment now policy
    let d := { d with
      sets := d.sets.insert fragment.key set
      counters := countWrite d.counters outcome }
    match complete set with
    | none => (d, none)
    | some datagram =>
      ({ d with
          sets := d.sets.erase fragment.key
          counters := { d.counters with completed := d.counters.completed + 1 } },
        some datagram)

end Defragmenter
end CyberSentinel
