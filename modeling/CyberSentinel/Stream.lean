import CyberSentinel.Config

/-!
# TCP streams

One direction of a conversation is a range buffer over absolute offsets, anchored to the 32-bit
sequence space at the buffer's base. Offsets and their sums are exact integers: they stay far below
`2 ^ 63`, where the casts between `u64` and `i64` would start to matter. The end of the window is
the one sum that a configured limit can carry past `2 ^ 64`, and it wraps there as in a release
build. Deliveries are returned rather than appended to a buffer of the caller.
-/

namespace CyberSentinel

namespace Flags

def fin : UInt8 := 0b00000001
def syn : UInt8 := 0b00000010
def rst : UInt8 := 0b00000100
def ack : UInt8 := 0b00010000

end Flags

def maxHolesPerStream : ℕ := 256

/-- How far past the covered bytes a reset may be and still be believed. -/
def rstSequenceSlack : ℕ := 65535

structure TcpSegment where
  sequence : UInt32
  acknowledgment : UInt32
  flags : UInt8
  payload : List UInt8
  deriving DecidableEq, Repr

def TcpSegment.has (segment : TcpSegment) (flag : UInt8) : Bool := segment.flags &&& flag != 0

structure StreamReady where
  toServer : List UInt8 := []
  toClient : List UInt8 := []
  deriving DecidableEq, Repr

namespace StreamReady

def isEmpty (ready : StreamReady) : Bool := ready.toServer.isEmpty && ready.toClient.isEmpty

def len (ready : StreamReady) : ℕ := ready.toServer.length + ready.toClient.length

def side (ready : StreamReady) (toServer : Bool) : List UInt8 :=
  if toServer then ready.toServer else ready.toClient

end StreamReady

structure StreamCounters where
  segments : ℕ := 0
  bytesAccepted : ℕ := 0
  bytesDelivered : ℕ := 0
  overlaps : ℕ := 0
  conflictingOverlaps : ℕ := 0
  refusedBytes : ℕ := 0
  outOfWindow : ℕ := 0
  beforeWindow : ℕ := 0
  afterFin : ℕ := 0
  synData : ℕ := 0
  flushedUnacked : ℕ := 0
  droppedIncomplete : ℕ := 0
  deriving DecidableEq, Repr

def StreamCounters.merge (a b : StreamCounters) : StreamCounters where
  segments := a.segments + b.segments
  bytesAccepted := a.bytesAccepted + b.bytesAccepted
  bytesDelivered := a.bytesDelivered + b.bytesDelivered
  overlaps := a.overlaps + b.overlaps
  conflictingOverlaps := a.conflictingOverlaps + b.conflictingOverlaps
  refusedBytes := a.refusedBytes + b.refusedBytes
  outOfWindow := a.outOfWindow + b.outOfWindow
  beforeWindow := a.beforeWindow + b.beforeWindow
  afterFin := a.afterFin + b.afterFin
  synData := a.synData + b.synData
  flushedUnacked := a.flushedUnacked + b.flushedUnacked
  droppedIncomplete := a.droppedIncomplete + b.droppedIncomplete

structure Stream where
  /-- The wire sequence number of `buffer.base`. -/
  baseSequence : UInt32
  established : Bool
  buffer : RangeBuffer
  acknowledgedUpto : ℕ
  finAt : Option ℕ
  byteLimit : ℕ
  flushBytes : ℕ
  counters : StreamCounters
  deriving DecidableEq, Repr

namespace Stream

def new (byteLimit flushBytes : ℕ) : Stream where
  baseSequence := 0
  established := false
  buffer := RangeBuffer.new 0 byteLimit maxHolesPerStream
  acknowledgedUpto := 0
  finAt := none
  byteLimit := byteLimit
  flushBytes := flushBytes
  counters := {}

/-- The absolute offset of a wire sequence number: the wrapping difference to the anchor, read as a
signed 32-bit number. -/
def absolute (s : Stream) (sequence : UInt32) : ℤ :=
  s.buffer.base + (sequence - s.baseSequence).toInt32.toInt

def establish (s : Stream) (segment : TcpSegment) : Stream :=
  if s.established then s
  else if segment.has Flags.syn then
    { s with baseSequence := segment.sequence + 1, established := true }
  else if !segment.payload.isEmpty then
    { s with baseSequence := segment.sequence, established := true }
  else s

/-- Where the window ends, in a `u64`. -/
def windowEnd (s : Stream) : ℕ := (s.buffer.base + s.byteLimit) % 2 ^ 64

theorem windowEnd_le (s : Stream) : s.windowEnd ≤ s.buffer.base + s.byteLimit := Nat.mod_le _ _

theorem windowEnd_of_lt {s : Stream} (h : s.buffer.base + s.byteLimit < 2 ^ 64) :
    s.windowEnd = s.buffer.base + s.byteLimit :=
  Nat.mod_eq_of_lt h

theorem windowEnd_of_wraps {s : Stream} (h : 2 ^ 64 ≤ s.buffer.base + s.byteLimit)
    (hbase : s.buffer.base < 2 ^ 64) (hlimit : s.byteLimit < 2 ^ 64) :
    s.windowEnd + 2 ^ 64 = s.buffer.base + s.byteLimit := by
  rw [windowEnd, Nat.mod_eq_sub_mod h, Nat.mod_eq_of_lt (by omega)]
  omega

def store (s : Stream) (sequence : UInt32) (payload : List UInt8) (policy : OverlapPolicy) :
    Stream :=
  let offset := s.absolute sequence
  if offset + payload.length ≤ s.buffer.base then
    { s with
      counters := { s.counters with
        beforeWindow := s.counters.beforeWindow + payload.length } }
  else if offset < 0 ∨ s.windowEnd ≤ offset.toNat then
    { s with
      counters := { s.counters with outOfWindow := s.counters.outOfWindow + payload.length } }
  else if s.finAt.any (fun finAt => finAt ≤ offset.toNat) then
    { s with counters := { s.counters with afterFin := s.counters.afterFin + payload.length } }
  else
    let (buffer, outcome) := s.buffer.write offset.toNat payload policy
    { s with
      buffer
      counters := { s.counters with
        bytesAccepted := s.counters.bytesAccepted + outcome.accepted
        overlaps := s.counters.overlaps + outcome.overlapped
        conflictingOverlaps := s.counters.conflictingOverlaps + outcome.conflicting
        refusedBytes := s.counters.refusedBytes + outcome.refused
        beforeWindow := s.counters.beforeWindow + outcome.beforeWindow } }

section Store

variable (s : Stream) (sequence : UInt32) (payload : List UInt8) (policy : OverlapPolicy)

@[simp] theorem store_established :
    (s.store sequence payload policy).established = s.established := by
  unfold store
  dsimp only
  split_ifs <;> rfl

@[simp] theorem store_baseSequence :
    (s.store sequence payload policy).baseSequence = s.baseSequence := by
  unfold store
  dsimp only
  split_ifs <;> rfl

@[simp] theorem store_finAt : (s.store sequence payload policy).finAt = s.finAt := by
  unfold store
  dsimp only
  split_ifs <;> rfl

@[simp] theorem store_byteLimit : (s.store sequence payload policy).byteLimit = s.byteLimit := by
  unfold store
  dsimp only
  split_ifs <;> rfl

/-- A payload reaches the buffer when it ends past the base and starts inside the window, before any
FIN. -/
theorem store_buffer :
    (s.store sequence payload policy).buffer =
      if s.buffer.base < s.absolute sequence + payload.length ∧ 0 ≤ s.absolute sequence ∧
        (s.absolute sequence).toNat < s.windowEnd ∧
        ∀ finAt ∈ s.finAt, (s.absolute sequence).toNat < finAt
      then (s.buffer.write (s.absolute sequence).toNat payload policy).1 else s.buffer := by
  unfold store
  dsimp only
  by_cases hgo : s.buffer.base < s.absolute sequence + payload.length ∧ 0 ≤ s.absolute sequence ∧
      (s.absolute sequence).toNat < s.windowEnd ∧
      ∀ finAt ∈ s.finAt, (s.absolute sequence).toNat < finAt
  · obtain ⟨hend, hpos, hwindow, hfin⟩ := hgo
    have hopen : ¬ s.finAt.any (fun finAt => finAt ≤ (s.absolute sequence).toNat) = true := by
      rw [Option.any_eq_true]
      rintro ⟨finAt, hmem, hle⟩
      exact absurd (hfin finAt hmem) (not_lt.2 (of_decide_eq_true hle))
    rw [if_neg (by omega), if_neg (by omega), if_neg hopen,
      if_pos ⟨hend, hpos, hwindow, hfin⟩]
  · rw [if_neg hgo]
    split_ifs with hbehind hout hfin
    · rfl
    · rfl
    · rfl
    · refine absurd ⟨by omega, by omega, by omega, ?_⟩ hgo
      intro finAt hmem
      by_contra hle
      exact hfin ((Option.any_eq_true _ _).2 ⟨finAt, hmem, decide_eq_true (not_lt.1 hle)⟩)

end Store

/-- The sequence number of the first payload byte: a SYN takes one number for itself. -/
def dataSequence (segment : TcpSegment) : UInt32 :=
  if segment.has Flags.syn then segment.sequence + 1 else segment.sequence

def countSegment (s : Stream) (segment : TcpSegment) : Stream :=
  if segment.payload.isEmpty then s
  else
    { s with
      counters := { s.counters with
        segments := s.counters.segments + 1
        synData := s.counters.synData +
          if segment.has Flags.syn then segment.payload.length else 0 } }

/-- Fix the end of the stream. The earliest FIN is kept. -/
def noteFin (s : Stream) (segment : TcpSegment) : Stream :=
  if segment.has Flags.fin then
    let finAt := (max (s.absolute (dataSequence segment)) 0).toNat + segment.payload.length
    { s with finAt := some (s.finAt.elim finAt (fun existing => min existing finAt)) }
  else s

def push (s : Stream) (segment : TcpSegment) (policy : OverlapPolicy) : Stream :=
  let s := s.establish segment
  if !s.established then s
  else
    let s := s.countSegment segment
    let s := if segment.payload.isEmpty then s
      else s.store (dataSequence segment) segment.payload policy
    s.noteFin segment

/-- The peer has acknowledged everything below `acknowledgment`. -/
def acknowledge (s : Stream) (acknowledgment : UInt32) : Stream :=
  if !s.established then s
  else
    let offset := s.absolute acknowledgment
    if 0 < offset then { s with acknowledgedUpto := max s.acknowledgedUpto offset.toNat } else s

/-- How far a delivery may go: everything contiguous when forced or when enough has gathered, and
otherwise what the peer has acknowledged. -/
def deliverLimit (s : Stream) (force : Bool) : ℕ :=
  let contiguous := s.buffer.contiguousEnd
  if force then contiguous
  else if s.flushBytes ≤ contiguous - s.buffer.base then contiguous
  else min s.acknowledgedUpto contiguous

/-- Take the settled bytes out of the buffer and move the anchor with its base. -/
def deliver (s : Stream) (force : Bool) : Stream × List UInt8 :=
  let available := s.buffer.contiguousEnd - s.buffer.base
  let flushed := if !force && s.flushBytes ≤ available then available else 0
  let (buffer, moved) := s.buffer.drainContiguousUpto (s.deliverLimit force)
  ({ s with
      buffer
      baseSequence := s.baseSequence + UInt32.ofNat moved.length
      counters := { s.counters with
        flushedUnacked := s.counters.flushedUnacked + flushed
        bytesDelivered := s.counters.bytesDelivered + moved.length } },
    moved)

def rstIsInWindow (s : Stream) (sequence : UInt32) : Bool :=
  if !s.established then false
  else
    let offset := s.absolute sequence
    0 ≤ offset && offset.toNat ≤ s.buffer.coveredEnd + rstSequenceSlack

def discard (s : Stream) : Stream :=
  { s with
    buffer := s.buffer.reset s.buffer.base
    counters := { s.counters with
      droppedIncomplete := s.counters.droppedIncomplete + s.buffer.bufferedBytes } }

def bufferedBytes (s : Stream) : ℕ := s.buffer.bufferedBytes

end Stream

structure StreamPair where
  toServer : Stream
  toClient : Stream
  deriving DecidableEq, Repr

namespace StreamPair

def new (config : ReassemblyConfig) : StreamPair :=
  let byteLimit := max config.maxStreamBytesPerFlow 1
  let flush := min (max config.deliveryFlushBytes 1) byteLimit
  { toServer := Stream.new byteLimit flush, toClient := Stream.new byteLimit flush }

def side (p : StreamPair) (toServer : Bool) : Stream := if toServer then p.toServer else p.toClient

/-- Hand the segment to the direction it travels in and its acknowledgment to the other. -/
def offer (p : StreamPair) (toServer : Bool) (segment : TcpSegment)
    (policyToServer policyToClient : OverlapPolicy) : StreamPair :=
  if toServer then
    { toServer := p.toServer.push segment policyToServer
      toClient := if segment.has Flags.ack then p.toClient.acknowledge segment.acknowledgment
        else p.toClient }
  else
    { toServer := if segment.has Flags.ack then p.toServer.acknowledge segment.acknowledgment
        else p.toServer
      toClient := p.toClient.push segment policyToClient }

def deliver (p : StreamPair) (force : Bool) : StreamPair × StreamReady :=
  let (server, toServer) := p.toServer.deliver force
  let (client, toClient) := p.toClient.deliver force
  (⟨server, client⟩, ⟨toServer, toClient⟩)

def push (p : StreamPair) (toServer : Bool) (segment : TcpSegment)
    (policyToServer policyToClient : OverlapPolicy) : StreamPair × StreamReady :=
  (p.offer toServer segment policyToServer policyToClient).deliver false

def rstShouldClose (p : StreamPair) (toServer : Bool) (sequence : UInt32) : Bool :=
  (p.side toServer).rstIsInWindow sequence

/-- Deliver everything still contiguous and drop the rest, for a flow that is ending. -/
def flush (p : StreamPair) : StreamPair × StreamReady :=
  let (pair, ready) := p.deliver true
  (⟨pair.toServer.discard, pair.toClient.discard⟩, ready)

def bufferedBytes (p : StreamPair) : ℕ := p.toServer.bufferedBytes + p.toClient.bufferedBytes

def counters (p : StreamPair) : StreamCounters := p.toServer.counters.merge p.toClient.counters

end StreamPair
end CyberSentinel
