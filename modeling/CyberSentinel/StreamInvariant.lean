import CyberSentinel.RangeBufferCounts
import CyberSentinel.StreamOrder

/-!
# What every reachable stream satisfies

`Sound` is the invariant of one direction: its buffer is well formed and sized by the direction's
own limit, the flush threshold lies within that limit, and nothing has been stored before the
sequence space is anchored. `Settled` says that a delivery has nothing left to do. A pair is two
directions that do not look at each other, so both hold of either direction after any calls on the
pair.
-/

namespace CyberSentinel

open Spans

namespace Stream

theorem absolute_ge (s : Stream) (sequence : UInt32) :
    (s.buffer.base : ℤ) - 2 ^ 31 ≤ s.absolute sequence := by
  have := (sequence - s.baseSequence).toInt32.le_toInt
  rw [absolute]
  omega

theorem absolute_lt (s : Stream) (sequence : UInt32) :
    s.absolute sequence < s.buffer.base + 2 ^ 31 := by
  have := (sequence - s.baseSequence).toInt32.toInt_lt
  rw [absolute]
  omega

theorem absolute_injective (s : Stream) : Function.Injective s.absolute := by
  intro x y hxy
  have hint : (x - s.baseSequence).toInt32.toInt = (y - s.baseSequence).toInt32.toInt := by
    rw [absolute, absolute] at hxy
    omega
  have hword := congrArg Int32.toUInt32 (Int32.toInt_inj.1 hint)
  rw [UInt32.toUInt32_toInt32, UInt32.toUInt32_toInt32] at hword
  grind

theorem absolute_ahead (s : Stream) {k : ℕ} (hk : k < 2 ^ 31) :
    s.absolute (s.baseSequence + UInt32.ofNat k) = s.buffer.base + k := by
  have hsub : s.baseSequence + UInt32.ofNat k - s.baseSequence =
      UInt32.ofNat k - UInt32.ofNat 0 := by
    grind
  rw [absolute, hsub, toInt32_ofNat_sub k 0 (by omega) (by omega)]
  omega

/-- A sequence number `k` before the anchor is `k` before the base. -/
theorem absolute_behind (s : Stream) {sequence : UInt32} {k : ℕ} (hk : k ≤ 2 ^ 31)
    (hseq : sequence + UInt32.ofNat k = s.baseSequence) :
    s.absolute sequence = s.buffer.base - k := by
  have hsub : sequence - s.baseSequence = UInt32.ofNat 0 - UInt32.ofNat k := by
    grind
  rw [absolute, hsub, toInt32_ofNat_sub 0 k (by omega) (by omega)]
  omega

section Fields

variable (s : Stream) (segment : TcpSegment)

@[simp] theorem establish_buffer : (s.establish segment).buffer = s.buffer := by
  unfold establish
  split_ifs <;> rfl

@[simp] theorem establish_finAt : (s.establish segment).finAt = s.finAt := by
  unfold establish
  split_ifs <;> rfl

@[simp] theorem establish_byteLimit : (s.establish segment).byteLimit = s.byteLimit := by
  unfold establish
  split_ifs <;> rfl

@[simp] theorem establish_windowEnd : (s.establish segment).windowEnd = s.windowEnd := by
  rw [windowEnd, windowEnd, establish_buffer, establish_byteLimit]

@[simp] theorem establish_flushBytes : (s.establish segment).flushBytes = s.flushBytes := by
  unfold establish
  split_ifs <;> rfl

@[simp] theorem establish_counters : (s.establish segment).counters = s.counters := by
  unfold establish
  split_ifs <;> rfl

theorem establish_of_established {s : Stream} (h : s.established = true) (segment : TcpSegment) :
    s.establish segment = s := by
  rw [establish, if_pos h]

theorem establish_of_payload (hne : segment.payload ≠ []) :
    (s.establish segment).established = true := by
  unfold establish
  split_ifs with hest hsyn hpayload
  · exact hest
  · rfl
  · rfl
  · exact absurd (by simpa using hpayload) hne

/-- A direction that is not anchored by the segment stays as it is. -/
theorem establish_eq_of_not_established (h : (s.establish segment).established = false) :
    s.establish segment = s ∧ segment.payload = [] := by
  refine ⟨?_, by_contra fun hne => by simp [establish_of_payload s segment hne] at h⟩
  unfold establish at h ⊢
  split_ifs at h ⊢ <;> rfl

theorem countSegment_eq : s.countSegment segment =
    { s with counters := (s.countSegment segment).counters } := by
  unfold countSegment
  split_ifs <;> rfl

theorem noteFin_eq : s.noteFin segment = { s with finAt := (s.noteFin segment).finAt } := by
  unfold noteFin
  split_ifs <;> rfl

@[simp] theorem countSegment_buffer : (s.countSegment segment).buffer = s.buffer := by
  rw [countSegment_eq]

@[simp] theorem noteFin_buffer : (s.noteFin segment).buffer = s.buffer := by
  rw [noteFin_eq]

@[simp] theorem noteFin_counters : (s.noteFin segment).counters = s.counters := by
  rw [noteFin_eq]

@[simp] theorem countSegment_absolute (sequence : UInt32) :
    (s.countSegment segment).absolute sequence = s.absolute sequence := by
  rw [countSegment_eq]
  rfl

@[simp] theorem countSegment_byteLimit : (s.countSegment segment).byteLimit = s.byteLimit := by
  rw [countSegment_eq]

@[simp] theorem countSegment_windowEnd : (s.countSegment segment).windowEnd = s.windowEnd := by
  rw [windowEnd, windowEnd, countSegment_buffer, countSegment_byteLimit]

@[simp] theorem countSegment_finAt : (s.countSegment segment).finAt = s.finAt := by
  rw [countSegment_eq]

theorem store_eq (sequence : UInt32) (payload : List UInt8) (policy : OverlapPolicy) :
    s.store sequence payload policy =
      { s with
        buffer := (s.store sequence payload policy).buffer
        counters := (s.store sequence payload policy).counters } := by
  unfold store
  dsimp only
  split_ifs <;> rfl

def stored (s : Stream) (r : RangeBuffer × WriteOutcome) : Stream :=
  { s with
    buffer := r.1
    counters := { s.counters with
      bytesAccepted := s.counters.bytesAccepted + r.2.accepted
      overlaps := s.counters.overlaps + r.2.overlapped
      conflictingOverlaps := s.counters.conflictingOverlaps + r.2.conflicting
      refusedBytes := s.counters.refusedBytes + r.2.refused
      beforeWindow := s.counters.beforeWindow + r.2.beforeWindow } }

/-- A payload that ends past the base and starts inside the window, before any FIN, is written. -/
theorem store_of_reaches {s : Stream} {sequence : UInt32} {offset : ℕ}
    (habs : s.absolute sequence = offset) (payload : List UInt8)
    (hend : s.buffer.base < offset + payload.length)
    (hwindow : offset < s.windowEnd) (hfin : ∀ finAt ∈ s.finAt, offset < finAt)
    (policy : OverlapPolicy) :
    s.store sequence payload policy = s.stored (s.buffer.write offset payload policy) := by
  have hopen : ¬ s.finAt.any (fun finAt => finAt ≤ offset) = true := by
    rw [Option.any_eq_true]
    rintro ⟨finAt, hmem, hle⟩
    exact absurd (hfin finAt hmem) (not_lt.2 (of_decide_eq_true hle))
  simp only [store, habs, Int.toNat_natCast]
  rw [if_neg (by omega), if_neg (by omega), if_neg hopen]
  rfl

/-- What an anchored direction makes of a segment, without the bookkeeping of the push. -/
def take (s : Stream) (segment : TcpSegment) (policy : OverlapPolicy) : Stream :=
  if segment.payload.isEmpty then s
  else (s.countSegment segment).store (dataSequence segment) segment.payload policy

theorem push_of_established {s : Stream} (h : s.established = true) (policy : OverlapPolicy) :
    s.push segment policy = (s.take segment policy).noteFin segment := by
  have hcount : segment.payload.isEmpty = true → s.countSegment segment = s := by
    intro hempty
    rw [countSegment, if_pos hempty]
  simp only [push, establish_of_established h, h, Bool.not_true, Bool.false_eq_true, if_false, take]
  by_cases hempty : segment.payload.isEmpty = true
  · rw [if_pos hempty, if_pos hempty, hcount hempty]
  · rw [if_neg hempty, if_neg hempty]

/-- A push anchors the direction if it can, and does nothing more if it cannot. -/
theorem push_eq (policy : OverlapPolicy) :
    s.push segment policy = if (s.establish segment).established then
      ((s.establish segment).take segment policy).noteFin segment else s := by
  by_cases hest : (s.establish segment).established = true
  · rw [if_pos hest, ← push_of_established segment hest]
    simp only [push, establish_of_established hest]
  · have hno := Bool.eq_false_iff.2 hest
    rw [if_neg hest]
    simp only [push, hno, Bool.not_false, if_true]
    exact (establish_eq_of_not_established s segment hno).1

end Fields

theorem acknowledge_buffer (s : Stream) (acknowledgment : UInt32) :
    (s.acknowledge acknowledgment).buffer = s.buffer := by
  simp only [acknowledge]
  split_ifs <;> rfl

structure Sound (s : Stream) : Prop where
  wf : s.buffer.Wf
  byteLimit_eq : s.buffer.byteLimit = s.byteLimit
  rangeLimit_eq : s.buffer.rangeLimit = maxHolesPerStream
  flush_pos : 1 ≤ s.flushBytes
  flush_le : s.flushBytes ≤ s.byteLimit
  idle : s.established = false → s.buffer.base = 0 ∧ s.buffer.covered = []

/-- A delivery has nothing left to do: what the peer has acknowledged of the contiguous bytes is
gone, and fewer than the flush threshold are waiting. -/
structure Settled (s : Stream) : Prop where
  acknowledged : min s.acknowledgedUpto s.buffer.contiguousEnd ≤ s.buffer.base
  waiting : s.buffer.contiguousEnd - s.buffer.base < s.flushBytes

theorem sound_new (byteLimit flushBytes : ℕ) (hpos : 1 ≤ flushBytes)
    (hle : flushBytes ≤ byteLimit) :
    (new byteLimit flushBytes).Sound where
  wf := RangeBuffer.wf_new 0 byteLimit maxHolesPerStream (Nat.zero_le _)
  byteLimit_eq := max_eq_left (hpos.trans hle)
  rangeLimit_eq := rfl
  flush_pos := hpos
  flush_le := hle
  idle := fun _ => ⟨rfl, rfl⟩

theorem settled_new (byteLimit flushBytes : ℕ) (hpos : 1 ≤ flushBytes) :
    (new byteLimit flushBytes).Settled :=
  ⟨by simp [new, RangeBuffer.new], hpos⟩

namespace Sound

variable {s : Stream}

theorem establish (h : s.Sound) (segment : TcpSegment) : (s.establish segment).Sound where
  wf := by simpa using h.wf
  byteLimit_eq := by simpa using h.byteLimit_eq
  rangeLimit_eq := by simpa using h.rangeLimit_eq
  flush_pos := by simpa using h.flush_pos
  flush_le := by simpa using h.flush_le
  idle := by
    intro hno
    have hsame := (establish_eq_of_not_established s segment hno).1
    rw [hsame] at hno
    rw [hsame]
    exact h.idle hno

/-- Neither the counters, the anchor, the FIN nor the acknowledgments matter. -/
theorem congr (h : s.Sound) {s' : Stream} (hbuffer : s'.buffer = s.buffer)
    (hest : s'.established = s.established) (hlimit : s'.byteLimit = s.byteLimit)
    (hflush : s'.flushBytes = s.flushBytes) : s'.Sound where
  wf := hbuffer ▸ h.wf
  byteLimit_eq := by rw [hbuffer, hlimit, h.byteLimit_eq]
  rangeLimit_eq := by rw [hbuffer, h.rangeLimit_eq]
  flush_pos := hflush ▸ h.flush_pos
  flush_le := by rw [hflush, hlimit]; exact h.flush_le
  idle := by rw [hest, hbuffer]; exact h.idle

/-- An anchored direction may get another buffer of the same limits. -/
theorem withBuffer (h : s.Sound) {s' : Stream} (hwf : s'.buffer.Wf)
    (hbytes : s'.buffer.byteLimit = s.buffer.byteLimit)
    (hranges : s'.buffer.rangeLimit = s.buffer.rangeLimit) (hest : s'.established = true)
    (hlimit : s'.byteLimit = s.byteLimit) (hflush : s'.flushBytes = s.flushBytes) : s'.Sound where
  wf := hwf
  byteLimit_eq := by rw [hbytes, hlimit, h.byteLimit_eq]
  rangeLimit_eq := by rw [hranges, h.rangeLimit_eq]
  flush_pos := hflush ▸ h.flush_pos
  flush_le := by rw [hflush, hlimit]; exact h.flush_le
  idle := by rw [hest]; simp

theorem store (h : s.Sound) (hest : s.established = true) (sequence : UInt32)
    (payload : List UInt8) (policy : OverlapPolicy) :
    (s.store sequence payload policy).Sound ∧
      (s.store sequence payload policy).buffer.base = s.buffer.base := by
  have hwrite := RangeBuffer.write_wf h.wf (s.absolute sequence).toNat payload policy
  have hbuffer := s.store_buffer sequence payload policy
  have hfields := s.store_eq sequence payload policy
  split_ifs at hbuffer with hgo
  · obtain ⟨hwf, hbase, hbytes, hranges⟩ := hwrite
    rw [← hbuffer] at hwf hbase hbytes hranges
    exact ⟨h.withBuffer hwf hbytes hranges (by rw [hfields, hest]) (by rw [hfields])
      (by rw [hfields]), hbase⟩
  · exact ⟨h.congr hbuffer (by rw [hfields]) (by rw [hfields]) (by rw [hfields]), by rw [hbuffer]⟩

theorem take (h : s.Sound) (hest : s.established = true) (segment : TcpSegment)
    (policy : OverlapPolicy) :
    (s.take segment policy).Sound ∧ (s.take segment policy).established = true ∧
      (s.take segment policy).buffer.base = s.buffer.base := by
  unfold Stream.take
  split_ifs
  · exact ⟨h, hest, rfl⟩
  · have hcount : (s.countSegment segment).Sound := by
      rw [countSegment_eq]
      exact h.congr rfl rfl rfl rfl
    have hest' : (s.countSegment segment).established = true := by
      rw [countSegment_eq]
      exact hest
    obtain ⟨hsound, hbase⟩ := hcount.store hest' (dataSequence segment) segment.payload policy
    exact ⟨hsound, by rw [store_established, hest'], by rw [hbase, countSegment_buffer]⟩

theorem push (h : s.Sound) (segment : TcpSegment) (policy : OverlapPolicy) :
    (s.push segment policy).Sound ∧ (s.push segment policy).buffer.base = s.buffer.base := by
  rw [push_eq]
  split_ifs with hest
  · obtain ⟨hsound, _, hbase⟩ := (h.establish segment).take hest segment policy
    rw [noteFin_eq]
    exact ⟨hsound.congr rfl rfl rfl rfl, by simpa using hbase⟩
  · exact ⟨h, rfl⟩

theorem acknowledge (h : s.Sound) (acknowledgment : UInt32) :
    (s.acknowledge acknowledgment).Sound := by
  simp only [Stream.acknowledge]
  split_ifs
  · exact h
  · exact h.congr rfl rfl rfl rfl
  · exact h

theorem receive (h : s.Sound) (toServer : Bool) (q : Push) :
    (s.receive toServer q).Sound ∧ (s.receive toServer q).buffer.base = s.buffer.base := by
  unfold Stream.receive
  split_ifs
  · exact h.push q.segment (q.policy toServer)
  · exact ⟨h.acknowledge _, by rw [acknowledge_buffer]⟩
  · exact ⟨h, rfl⟩

end Sound

theorem push_limits (s : Stream) (segment : TcpSegment) (policy : OverlapPolicy) :
    (s.push segment policy).byteLimit = s.byteLimit ∧
      (s.push segment policy).flushBytes = s.flushBytes := by
  rw [push_eq]
  split_ifs with hest
  · rw [noteFin_eq, take]
    split_ifs
    · exact ⟨establish_byteLimit s segment, establish_flushBytes s segment⟩
    · rw [store_eq, countSegment_eq]
      exact ⟨establish_byteLimit s segment, establish_flushBytes s segment⟩
  · exact ⟨rfl, rfl⟩

theorem receive_limits (s : Stream) (toServer : Bool) (q : Push) :
    (s.receive toServer q).byteLimit = s.byteLimit ∧
      (s.receive toServer q).flushBytes = s.flushBytes := by
  unfold receive
  split_ifs
  · exact s.push_limits q.segment (q.policy toServer)
  · simp only [acknowledge]
    split_ifs <;> exact ⟨rfl, rfl⟩
  · exact ⟨rfl, rfl⟩

/-- Receiving counts what is stored, never what is delivered or dropped. -/
theorem receive_counters (s : Stream) (toServer : Bool) (q : Push) :
    (s.receive toServer q).counters.bytesDelivered = s.counters.bytesDelivered ∧
      (s.receive toServer q).counters.flushedUnacked = s.counters.flushedUnacked ∧
      (s.receive toServer q).counters.droppedIncomplete = s.counters.droppedIncomplete := by
  have hcount (s : Stream) (segment : TcpSegment) :
      (s.countSegment segment).counters.bytesDelivered = s.counters.bytesDelivered ∧
        (s.countSegment segment).counters.flushedUnacked = s.counters.flushedUnacked ∧
        (s.countSegment segment).counters.droppedIncomplete = s.counters.droppedIncomplete := by
    unfold countSegment
    split_ifs <;> exact ⟨rfl, rfl, rfl⟩
  have hstore (s : Stream) (sequence : UInt32) (payload : List UInt8) (policy : OverlapPolicy) :
      (s.store sequence payload policy).counters.bytesDelivered = s.counters.bytesDelivered ∧
        (s.store sequence payload policy).counters.flushedUnacked = s.counters.flushedUnacked ∧
        (s.store sequence payload policy).counters.droppedIncomplete =
          s.counters.droppedIncomplete := by
    unfold store
    dsimp only
    split_ifs <;> exact ⟨rfl, rfl, rfl⟩
  unfold receive
  split_ifs
  · rw [push_eq]
    split_ifs with hest
    · rw [noteFin_counters, take]
      split_ifs
      · rw [establish_counters]
        exact ⟨rfl, rfl, rfl⟩
      · obtain ⟨h1, h2, h3⟩ := hstore ((s.establish q.segment).countSegment q.segment)
          (dataSequence q.segment) q.segment.payload (q.policy toServer)
        obtain ⟨h1', h2', h3'⟩ := hcount (s.establish q.segment) q.segment
        rw [h1, h2, h3, h1', h2', h3', establish_counters]
        exact ⟨rfl, rfl, rfl⟩
    · exact ⟨rfl, rfl, rfl⟩
  · simp only [acknowledge]
    split_ifs <;> exact ⟨rfl, rfl, rfl⟩
  · exact ⟨rfl, rfl, rfl⟩

theorem deliver_spec {s : Stream} (h : s.Sound) (force : Bool) :
    ∃ stop, stop = max s.buffer.base (min s.buffer.contiguousEnd (s.deliverLimit force)) ∧
      s.buffer.base ≤ stop ∧ stop ≤ s.buffer.contiguousEnd ∧
      (s.deliver force).1.buffer = s.buffer.consume (stop - s.buffer.base) ∧
      (s.deliver force).1.buffer.base = stop ∧
      (s.deliver force).1.buffer.contiguousEnd = s.buffer.contiguousEnd ∧
      (s.deliver force).2 = s.buffer.data.take (stop - s.buffer.base) ∧
      (s.deliver force).2.length = stop - s.buffer.base := by
  obtain ⟨stop, hstop, hdrain⟩ := RangeBuffer.drain_cases s.buffer (s.deliverLimit force) h.wf
  have hbase := h.wf.base_le_contiguousEnd
  have hlo : s.buffer.base ≤ stop := by omega
  have hhi : stop ≤ s.buffer.contiguousEnd := by omega
  have hbuffer : (s.deliver force).1.buffer = s.buffer.consume (stop - s.buffer.base) :=
    congrArg Prod.fst hdrain
  have hout : (s.deliver force).2 = s.buffer.data.take (stop - s.buffer.base) :=
    congrArg Prod.snd hdrain
  refine ⟨stop, hstop, hlo, hhi, hbuffer, ?_, ?_, hout, ?_⟩
  · rw [hbuffer, RangeBuffer.consume, Nat.add_sub_of_le hlo]
  · rw [hbuffer, RangeBuffer.consume_contiguousEnd h.wf hlo hhi]
  · have hdata := h.wf.data_length
    have hcov := h.wf.contiguousEnd_le_coveredEnd
    rw [hout, List.length_take]
    omega

theorem Sound.deliver {s : Stream} (h : s.Sound) (force : Bool) : (s.deliver force).1.Sound := by
  obtain ⟨stop, hstop, hlo, hhi, hbuffer, hbase, _⟩ := deliver_spec h force
  have hwf := RangeBuffer.consume_wf h.wf hlo hhi
  rw [← hbuffer] at hwf
  constructor
  · exact hwf
  · rw [hbuffer]
    exact h.byteLimit_eq
  · rw [hbuffer]
    exact h.rangeLimit_eq
  · exact h.flush_pos
  · exact h.flush_le
  · intro hno
    obtain ⟨hzero, hnone⟩ := h.idle hno
    have hend : s.buffer.contiguousEnd = 0 := by
      rw [RangeBuffer.contiguousEnd, hnone, hzero]
      rfl
    rw [hbase, hbuffer]
    simp only [RangeBuffer.consume, hnone]
    exact ⟨by omega, rfl⟩

theorem Sound.discard {s : Stream} (h : s.Sound) : s.discard.Sound where
  wf := RangeBuffer.wf_reset h.wf s.buffer.base h.wf.base_le
  byteLimit_eq := h.byteLimit_eq
  rangeLimit_eq := h.rangeLimit_eq
  flush_pos := h.flush_pos
  flush_le := h.flush_le
  idle := fun hno => ⟨(h.idle hno).1, rfl⟩

theorem Sound.settled_deliver {s : Stream} (h : s.Sound) : (s.deliver false).1.Settled := by
  obtain ⟨stop, hstop, hlo, hhi, _, hbase, hend, _⟩ := deliver_spec h false
  have hflush := h.flush_pos
  have hack : (s.deliver false).1.acknowledgedUpto = s.acknowledgedUpto := rfl
  have hthreshold : (s.deliver false).1.flushBytes = s.flushBytes := rfl
  simp only [deliverLimit, Bool.false_eq_true, if_false] at hstop
  constructor
  · rw [hack, hbase, hend]
    split_ifs at hstop <;> omega
  · rw [hbase, hend, hthreshold]
    split_ifs at hstop <;> omega

theorem Settled.deliver_eq {s : Stream} (h : s.Settled) : s.deliver false = (s, []) := by
  have hwait := h.waiting
  have hack := h.acknowledged
  have hnot : ¬ s.flushBytes ≤ s.buffer.contiguousEnd - s.buffer.base := by omega
  have hnone : s.buffer.drainContiguousUpto (s.deliverLimit false) = (s.buffer, []) := by
    rw [RangeBuffer.drainContiguousUpto, if_pos]
    simp only [deliverLimit, Bool.false_eq_true, if_false, if_neg hnot]
    omega
  simp [Stream.deliver, hnone, hnot]

end Stream

inductive PairOp
  | push (q : Push)
  | flush

def StreamPair.act (p : StreamPair) : PairOp → StreamPair × StreamReady
  | .push q => p.step q
  | .flush => p.flush

def Stream.act (toServer : Bool) (s : Stream) : PairOp → Stream × List UInt8
  | .push q => (s.receive toServer q).deliver false
  | .flush => ((s.deliver true).1.discard, (s.deliver true).2)

theorem act_side (p : StreamPair) (op : PairOp) (toServer : Bool) :
    (p.act op).1.side toServer = ((p.side toServer).act toServer op).1 ∧
      (p.act op).2.side toServer = ((p.side toServer).act toServer op).2 := by
  cases op with
  | push q => exact step_side p q toServer
  | flush =>
    refine ⟨?_, flush_side p toServer⟩
    cases toServer <;> rfl

theorem run_side (p : StreamPair) (ops : List PairOp) (toServer : Bool) :
    (Runs.run StreamPair.act p ops).1.side toServer =
        (Runs.run (Stream.act toServer) (p.side toServer) ops).1 ∧
      (Runs.run StreamPair.act p ops).2.map (fun ready => ready.side toServer) =
        (Runs.run (Stream.act toServer) (p.side toServer) ops).2 := by
  induction ops generalizing p with
  | nil => exact ⟨rfl, rfl⟩
  | cons op rest ih =>
    obtain ⟨hstate, hready⟩ := act_side p op toServer
    obtain ⟨hrest, hreadies⟩ := ih (p.act op).1
    rw [hstate] at hrest hreadies
    simp only [Runs.run_cons, List.map_cons, hready]
    exact ⟨hrest, by rw [hreadies]⟩

def StreamPair.after (config : ReassemblyConfig) (ops : List PairOp) : StreamPair :=
  (Runs.run StreamPair.act (StreamPair.new config) ops).1

theorem StreamPair.after_append (config : ReassemblyConfig) (ops more : List PairOp) :
    StreamPair.after config (ops ++ more) =
      (Runs.run StreamPair.act (StreamPair.after config ops) more).1 := by
  rw [StreamPair.after, StreamPair.after, Runs.run_append]

def StreamPair.limitOf (config : ReassemblyConfig) : ℕ := max config.maxStreamBytesPerFlow 1

def StreamPair.flushOf (config : ReassemblyConfig) : ℕ :=
  min (max config.deliveryFlushBytes 1) (StreamPair.limitOf config)

theorem StreamPair.limitOf_lt (config : ReassemblyConfig) : StreamPair.limitOf config < 2 ^ 64 :=
  max_lt config.maxStreamBytesPerFlow_lt (by decide)

theorem side_new_eq (config : ReassemblyConfig) (toServer : Bool) :
    (StreamPair.new config).side toServer =
      Stream.new (StreamPair.limitOf config) (StreamPair.flushOf config) := by
  cases toServer <;> rfl

/-- An invariant of one direction holds of it after any calls on the pair. -/
theorem after_invariant (toServer : Bool) (P : Stream → Prop)
    (hstep : ∀ s op, P s → P (s.act toServer op).1) (config : ReassemblyConfig)
    (hnew : P (Stream.new (StreamPair.limitOf config) (StreamPair.flushOf config)))
    (ops : List PairOp) : P ((StreamPair.after config ops).side toServer) := by
  rw [StreamPair.after, (run_side _ ops toServer).1, side_new_eq]
  exact Runs.invariant (Stream.act toServer) P hstep hnew ops

theorem Stream.Sound.act {s : Stream} (h : s.Sound) (toServer : Bool) (op : PairOp) :
    (s.act toServer op).1.Sound ∧ (s.act toServer op).1.Settled := by
  cases op with
  | push q =>
    have hreceive := (h.receive toServer q).1
    exact ⟨hreceive.deliver false, hreceive.settled_deliver⟩
  | flush =>
    have hdeliver := (h.deliver true).discard
    have hend : (s.deliver true).1.discard.buffer.contiguousEnd =
        (s.deliver true).1.discard.buffer.base := rfl
    exact ⟨hdeliver, hend ▸ min_le_right _ _, by
      rw [Stream.act, hend, Nat.sub_self]
      exact hdeliver.flush_pos⟩

theorem after_sound (config : ReassemblyConfig) (ops : List PairOp) (toServer : Bool) :
    ((StreamPair.after config ops).side toServer).Sound ∧
      ((StreamPair.after config ops).side toServer).Settled := by
  have hpos : 1 ≤ StreamPair.flushOf config := by
    rw [StreamPair.flushOf, StreamPair.limitOf]
    omega
  apply after_invariant toServer (fun s => s.Sound ∧ s.Settled)
  · exact fun s op h => h.1.act toServer op
  · exact ⟨Stream.sound_new _ _ hpos (min_le_right _ _), Stream.settled_new _ _ hpos⟩

theorem Stream.act_limits (toServer : Bool) (s : Stream) (op : PairOp) :
    (s.act toServer op).1.byteLimit = s.byteLimit ∧
      (s.act toServer op).1.flushBytes = s.flushBytes := by
  cases op with
  | push q => exact s.receive_limits toServer q
  | flush => exact ⟨rfl, rfl⟩

theorem after_limits (config : ReassemblyConfig) (ops : List PairOp) (toServer : Bool) :
    ((StreamPair.after config ops).side toServer).byteLimit = StreamPair.limitOf config ∧
      ((StreamPair.after config ops).side toServer).flushBytes = StreamPair.flushOf config := by
  apply after_invariant toServer (fun s => s.byteLimit = StreamPair.limitOf config ∧
    s.flushBytes = StreamPair.flushOf config)
  · intro s op h
    obtain ⟨hlimit, hflush⟩ := s.act_limits toServer op
    exact ⟨hlimit.trans h.1, hflush.trans h.2⟩
  · exact ⟨rfl, rfl⟩

end CyberSentinel
