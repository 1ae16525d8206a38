import CyberSentinel.StreamInvariant

/-!
# Every byte of a stream is counted once

A payload byte offered to a direction is stored, lands on a stored byte, is refused, or lies outside
the window, behind it or past the FIN; a stored byte is later delivered or dropped. Each layer
counts its own part, the window checks in the stream and the rest in the buffer. The counters of a
direction add up to what it was offered, and what it accepted is delivered, held or dropped.
-/

namespace CyberSentinel

open Spans

def PairOp.offered (toServer : Bool) : PairOp → ℕ
  | .push q => if q.toServer = toServer then q.segment.payload.length else 0
  | .flush => 0

def offeredBytes (toServer : Bool) (ops : List PairOp) : ℕ :=
  (ops.map (PairOp.offered toServer)).sum

/-- The calls on one pair. Offsets are converted between `u64` and `i64`, which is exact as long as
neither direction is offered `2 ^ 63` bytes. -/
structure Traffic where
  ops : List PairOp
  fits : ∀ toServer, offeredBytes toServer ops < 2 ^ 63

namespace StreamCounters

def received (c : StreamCounters) : ℕ :=
  c.bytesAccepted + c.overlaps + c.refusedBytes + c.outOfWindow + c.beforeWindow + c.afterFin

def released (c : StreamCounters) : ℕ := c.bytesDelivered + c.droppedIncomplete

end StreamCounters

namespace Stream

/-- Every byte of a payload gets one counter, and those accepted are the ones held in addition. -/
theorem Sound.store_counts {s : Stream} (h : s.Sound) (sequence : UInt32) (payload : List UInt8)
    (policy : OverlapPolicy) (hfits : s.buffer.base + 2 ^ 31 + payload.length ≤ u64Max) :
    (s.store sequence payload policy).counters.received = s.counters.received + payload.length ∧
      (s.store sequence payload policy).counters.bytesAccepted + s.bufferedBytes =
        s.counters.bytesAccepted + (s.store sequence payload policy).bufferedBytes ∧
      (s.store sequence payload policy).counters.bytesDelivered = s.counters.bytesDelivered ∧
      (s.store sequence payload policy).counters.released = s.counters.released ∧
      (s.counters.conflictingOverlaps ≤ s.counters.overlaps →
        (s.store sequence payload policy).counters.conflictingOverlaps ≤
          (s.store sequence payload policy).counters.overlaps) := by
  have hlt := s.absolute_lt sequence
  obtain ⟨haccounted, htotal⟩ :=
    RangeBuffer.write_counts h.wf (s.absolute sequence).toNat payload policy
  have hbuffered := haccounted.buffered h.wf (RangeBuffer.write_wf h.wf _ payload policy).1
  have hconflicting := haccounted.conflicting
  unfold Stream.store
  dsimp only
  split_ifs with hbehind hout hfin
  · exact ⟨by simp only [StreamCounters.received]; omega, rfl, rfl, rfl, id⟩
  · exact ⟨by simp only [StreamCounters.received]; omega, rfl, rfl, rfl, id⟩
  · exact ⟨by simp only [StreamCounters.received]; omega, rfl, rfl, rfl, id⟩
  · have htotal := htotal (by omega)
    refine ⟨?_, ?_, rfl, rfl, ?_⟩
    · simp only [StreamCounters.received]
      omega
    · simp only [bufferedBytes]
      omega
    · exact fun hle => Nat.add_le_add hle hconflicting

/-- The counters of a direction that has been offered so many bytes. -/
structure Accounts (s : Stream) (offered : ℕ) : Prop where
  sound : s.Sound
  base_eq : s.buffer.base = s.counters.bytesDelivered
  stored : s.counters.bytesAccepted = s.counters.released + s.bufferedBytes
  received : s.counters.received = offered
  conflicting : s.counters.conflictingOverlaps ≤ s.counters.overlaps

theorem accounts_new (byteLimit flushBytes : ℕ) (hpos : 1 ≤ flushBytes)
    (hle : flushBytes ≤ byteLimit) : (new byteLimit flushBytes).Accounts 0 :=
  ⟨sound_new byteLimit flushBytes hpos hle, rfl, rfl, rfl, le_rfl⟩

namespace Accounts

variable {s : Stream} {offered : ℕ}

theorem base_le (h : s.Accounts offered) : s.buffer.base ≤ offered := by
  have hbase := h.base_eq
  have hstored := h.stored
  have hreceived := h.received
  simp only [StreamCounters.received, StreamCounters.released] at hstored hreceived
  omega

theorem congr (h : s.Accounts offered) {s' : Stream} (hsound : s'.Sound)
    (hbuffer : s'.buffer = s.buffer) (hcounters : s'.counters = s.counters) :
    s'.Accounts offered where
  sound := hsound
  base_eq := by rw [hbuffer, hcounters, h.base_eq]
  stored := by rw [bufferedBytes, hbuffer, hcounters]; exact h.stored
  received := by rw [hcounters, h.received]
  conflicting := by rw [hcounters]; exact h.conflicting

theorem countSegment (h : s.Accounts offered) (segment : TcpSegment) :
    (s.countSegment segment).Accounts offered := by
  unfold Stream.countSegment
  by_cases hempty : segment.payload.isEmpty = true
  · rw [if_pos hempty]
    exact h
  · rw [if_neg hempty]
    exact ⟨h.sound.congr rfl rfl rfl rfl, h.base_eq, h.stored, h.received, h.conflicting⟩

theorem store (h : s.Accounts offered) (hest : s.established = true) (sequence : UInt32)
    (payload : List UInt8) (policy : OverlapPolicy) (hfits : offered + payload.length < 2 ^ 63) :
    (s.store sequence payload policy).Accounts (offered + payload.length) := by
  have hle := h.base_le
  obtain ⟨hsound, hbase⟩ := h.sound.store hest sequence payload policy
  obtain ⟨hreceived, hheld, hdelivered, hreleased, hconflicting⟩ :=
    h.sound.store_counts sequence payload policy (by simp only [u64Max]; omega)
  have hstored := h.stored
  constructor
  · exact hsound
  · rw [hbase, hdelivered, h.base_eq]
  · rw [hreleased]
    omega
  · rw [hreceived, h.received]
  · exact hconflicting h.conflicting

theorem push (h : s.Accounts offered) (segment : TcpSegment) (policy : OverlapPolicy)
    (hfits : offered + segment.payload.length < 2 ^ 63) :
    (s.push segment policy).Accounts (offered + segment.payload.length) := by
  have hestablish : (s.establish segment).Accounts offered :=
    h.congr (h.sound.establish segment) (by simp) (by simp)
  have hsound := (h.sound.push segment policy).1
  rw [push_eq] at hsound ⊢
  split_ifs at hsound ⊢ with hest
  · have htaken : ((s.establish segment).take segment policy).Accounts
        (offered + segment.payload.length) := by
      unfold Stream.take
      split_ifs with hempty
      · rw [List.isEmpty_iff.1 hempty, List.length_nil, Nat.add_zero]
        exact hestablish
      · apply (hestablish.countSegment segment).store _ _ _ _ hfits
        rw [countSegment_eq]
        exact hest
    exact htaken.congr hsound (by simp) (by simp)
  · -- a direction that is still not anchored has seen no payload
    rw [(establish_eq_of_not_established s segment (Bool.eq_false_iff.2 hest)).2, List.length_nil,
      Nat.add_zero]
    exact h

theorem acknowledge (h : s.Accounts offered) (acknowledgment : UInt32) :
    (s.acknowledge acknowledgment).Accounts offered := by
  have hsound := h.sound.acknowledge acknowledgment
  have hbuffer := acknowledge_buffer s acknowledgment
  apply h.congr hsound hbuffer
  simp only [Stream.acknowledge]
  split_ifs <;> rfl

theorem receive (h : s.Accounts offered) (toServer : Bool) (q : Push)
    (hfits : offered + (PairOp.push q).offered toServer < 2 ^ 63) :
    (s.receive toServer q).Accounts (offered + (PairOp.push q).offered toServer) := by
  unfold Stream.receive
  simp only [PairOp.offered] at hfits ⊢
  split_ifs at hfits ⊢
  · exact h.push q.segment (q.policy toServer) hfits
  · exact h.acknowledge _
  · exact h

theorem deliver (h : s.Accounts offered) (force : Bool) : (s.deliver force).1.Accounts offered := by
  obtain ⟨hheld, hbase⟩ := RangeBuffer.drain_counts h.sound.wf (s.deliverLimit force)
  have hstored := h.stored
  have hbase' := h.base_eq
  simp only [StreamCounters.released, bufferedBytes] at hstored
  constructor
  · exact h.sound.deliver force
  · simp only [Stream.deliver]
    omega
  · simp only [Stream.deliver, StreamCounters.released, bufferedBytes]
    omega
  · exact h.received
  · exact h.conflicting

theorem discard (h : s.Accounts offered) : s.discard.Accounts offered := by
  have hstored := h.stored
  have hempty : s.discard.bufferedBytes = 0 := rfl
  constructor
  · exact h.sound.discard
  · exact h.base_eq
  · rw [hempty]
    simp only [Stream.discard, StreamCounters.released, bufferedBytes] at hstored ⊢
    omega
  · exact h.received
  · exact h.conflicting

theorem act (h : s.Accounts offered) (toServer : Bool) (op : PairOp)
    (hfits : offered + op.offered toServer < 2 ^ 63) :
    (s.act toServer op).1.Accounts (offered + op.offered toServer) := by
  cases op with
  | push q => exact (h.receive toServer q hfits).deliver false
  | flush => exact (h.deliver true).discard

theorem run (h : s.Accounts offered) (toServer : Bool) (ops : List PairOp)
    (hfits : offered + offeredBytes toServer ops < 2 ^ 63) :
    (Runs.run (Stream.act toServer) s ops).1.Accounts (offered + offeredBytes toServer ops) := by
  induction ops generalizing s offered with
  | nil => exact h
  | cons op rest ih =>
    simp only [offeredBytes, List.map_cons, List.sum_cons] at hfits ⊢
    rw [← Nat.add_assoc] at hfits ⊢
    exact ih (h.act toServer op (by omega)) hfits

end Accounts
end Stream

theorem after_accounts (config : ReassemblyConfig) (traffic : Traffic) (toServer : Bool) :
    ((StreamPair.after config traffic.ops).side toServer).Accounts
      (offeredBytes toServer traffic.ops) := by
  have hpos : 1 ≤ StreamPair.flushOf config := by
    rw [StreamPair.flushOf, StreamPair.limitOf]
    omega
  have hnew := Stream.accounts_new (StreamPair.limitOf config) (StreamPair.flushOf config) hpos
    (min_le_right _ _)
  have hrun := hnew.run toServer traffic.ops (by simpa using traffic.fits toServer)
  rw [StreamPair.after, (run_side _ traffic.ops toServer).1, side_new_eq]
  rwa [Nat.zero_add] at hrun

/-- In each direction, whatever is pushed in whatever order: what was accepted has been delivered,
is held or was dropped; the counters add up to the payload offered; no more bytes conflict than
overlap; and the bytes held keep to the limit. -/
theorem stream_bytes_conserved (config : ReassemblyConfig) (traffic : Traffic) (toServer : Bool) :
    let s := (StreamPair.after config traffic.ops).side toServer
    s.counters.bytesAccepted =
        s.counters.bytesDelivered + s.bufferedBytes + s.counters.droppedIncomplete ∧
      offeredBytes toServer traffic.ops =
        s.counters.bytesAccepted + s.counters.overlaps + s.counters.refusedBytes +
          s.counters.outOfWindow + s.counters.beforeWindow + s.counters.afterFin ∧
      s.counters.conflictingOverlaps ≤ s.counters.overlaps ∧ s.bufferedBytes ≤ s.byteLimit := by
  intro s
  have h : s.Accounts (offeredBytes toServer traffic.ops) := after_accounts config traffic toServer
  have hstored := h.stored
  refine ⟨?_, h.received.symm, h.conflicting, ?_⟩
  · simp only [StreamCounters.released] at hstored
    omega
  · exact h.sound.wf.bufferedBytes_le.trans h.sound.byteLimit_eq.le

end CyberSentinel
