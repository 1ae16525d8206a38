import CyberSentinel.StreamInvariant

/-!
# Segments that start before the window

A segment may start before the base and reach past it: a retransmission with new bytes at its end,
or a keep-alive. The buffer drops the part that comes too late and keeps the rest. The stream
refuses the whole segment when its offset is negative, before the buffer sees it. So the rest is
kept, and counted as if the segment had started at the base, exactly when the segment does not reach
back before offset zero.
-/

namespace CyberSentinel

/-- The buffer keeps what a write carries from the base on and counts the rest as late. -/
theorem RangeBuffer.write_behind {b : RangeBuffer} (hb : b.Wf) {skip : ℕ} {bytes : List UInt8}
    (hskip : skip ≤ b.base) (hlen : skip < bytes.length) (policy : OverlapPolicy) :
    b.write (b.base - skip) bytes policy =
      ((b.write b.base (bytes.drop skip) policy).1,
        { (b.write b.base (bytes.drop skip) policy).2 with
          beforeWindow := (b.write b.base (bytes.drop skip) policy).2.beforeWindow + skip }) := by
  have hmax := hb.base_le
  have hne : ¬ bytes.isEmpty = true := by
    rw [List.isEmpty_iff_length_eq_zero]
    omega
  have hne' : ¬ (bytes.drop skip).isEmpty = true := by
    rw [List.isEmpty_iff_length_eq_zero, List.length_drop]
    omega
  have hback : b.base - (b.base - skip) = skip := by omega
  by_cases htop : b.base = u64Max
  · -- no offset lies past the base
    have hle : satAdd (b.base - skip) bytes.length ≤ b.base := by
      simp only [satAdd]
      omega
    have hle' : satAdd b.base (bytes.drop skip).length ≤ b.base := by
      simp only [satAdd]
      omega
    have hall : b.write (b.base - skip) bytes policy = (b, { beforeWindow := bytes.length }) := by
      rw [write, if_neg hne, if_pos hle]
    have hrest : b.write b.base (bytes.drop skip) policy =
        (b, { beforeWindow := bytes.length - skip }) := by
      rw [write, if_neg hne', if_pos hle', List.length_drop]
    rw [hall, hrest]
    simp only [Nat.sub_add_cancel hlen.le]
  · have hgt : ¬ satAdd (b.base - skip) bytes.length ≤ b.base := by
      simp only [satAdd]
      omega
    have hgt' : ¬ satAdd b.base (bytes.drop skip).length ≤ b.base := by
      simp only [satAdd, List.length_drop]
      omega
    have hfrom := (writeFrom_counts hb le_rfl (bytes.drop skip) policy).2.1
    by_cases hzero : skip = 0
    · subst hzero
      simp only [Nat.sub_zero, List.drop_zero, Nat.add_zero]
    · have hlt : b.base - skip < b.base := by omega
      have hall : b.write (b.base - skip) bytes policy =
          ((b.writeFrom b.base (bytes.drop skip) policy).1,
            { (b.writeFrom b.base (bytes.drop skip) policy).2 with beforeWindow := skip }) := by
        rw [write, if_neg hne, if_neg hgt, if_pos hlt, hback]
      have hrest : b.write b.base (bytes.drop skip) policy =
          b.writeFrom b.base (bytes.drop skip) policy := by
        rw [write, if_neg hne', if_neg hgt', if_neg (Nat.lt_irrefl _)]
      rw [hall, hrest, hfrom, Nat.zero_add]

/-- The segment without its first `skip` bytes. -/
def TcpSegment.trimmed (segment : TcpSegment) (skip : ℕ) : TcpSegment :=
  { segment with
    sequence := segment.sequence + UInt32.ofNat skip
    payload := segment.payload.drop skip }

def Push.trimmed (q : Push) (skip : ℕ) : Push := { q with segment := q.segment.trimmed skip }

/-- The same direction with so many bytes more counted as late, and on a SYN as carried by it. -/
def Stream.countLate (s : Stream) (late onSyn : ℕ) : Stream :=
  { s with
    counters := { s.counters with
      beforeWindow := s.counters.beforeWindow + late
      synData := s.counters.synData + onSyn } }

/-- A push delivers and stores what the push of the trimmed segment does, and only counts the bytes
cut off as late. -/
structure AsIfTrimmed (p : StreamPair) (q : Push) (skip : ℕ) : Prop where
  ready : (p.step q).2 = (p.step (q.trimmed skip)).2
  other : (p.step q).1.side (!q.toServer) = (p.step (q.trimmed skip)).1.side (!q.toServer)
  side : (p.step q).1.side q.toServer = ((p.step (q.trimmed skip)).1.side q.toServer).countLate skip
    (if q.segment.has Flags.syn then skip else 0)

namespace Stream

variable {s : Stream} {segment : TcpSegment} {skip : ℕ}

theorem dataSequence_trimmed (segment : TcpSegment) (skip : ℕ) :
    dataSequence (segment.trimmed skip) = dataSequence segment + UInt32.ofNat skip := by
  have hhas : (segment.trimmed skip).has Flags.syn = segment.has Flags.syn := rfl
  rw [dataSequence, dataSequence, hhas, TcpSegment.trimmed]
  split_ifs
  · rw [UInt32.add_assoc, UInt32.add_comm (UInt32.ofNat skip) 1, ← UInt32.add_assoc]
  · rfl

theorem absolute_trimmed (hseq : dataSequence segment + UInt32.ofNat skip = s.baseSequence) :
    s.absolute (dataSequence (segment.trimmed skip)) = s.buffer.base := by
  have hzero := s.absolute_ahead (k := 0) (by omega)
  rw [dataSequence_trimmed, hseq]
  simpa using hzero

theorem take_trimmed (h : s.Sound) (hfin : s.finAt = none)
    (hseq : dataSequence segment + UInt32.ofNat skip = s.baseSequence) (hlt : skip < 2 ^ 31)
    (hlen : skip < segment.payload.length) (hskip : skip ≤ s.buffer.base)
    (hopen : s.buffer.base < s.windowEnd) (policy : OverlapPolicy) :
    s.take segment policy = (s.take (segment.trimmed skip) policy).countLate skip
      (if segment.has Flags.syn then skip else 0) := by
  have hne : ¬ segment.payload.isEmpty = true := by
    rw [List.isEmpty_iff_length_eq_zero]
    omega
  have hlen' : (segment.trimmed skip).payload.length = segment.payload.length - skip :=
    List.length_drop
  have hne' : ¬ (segment.trimmed skip).payload.isEmpty = true := by
    rw [List.isEmpty_iff_length_eq_zero]
    omega
  have habs : (s.countSegment segment).absolute (dataSequence segment) =
      ((s.buffer.base - skip : ℕ) : ℤ) := by
    rw [countSegment_absolute, s.absolute_behind hlt.le hseq]
    omega
  have habs' : (s.countSegment (segment.trimmed skip)).absolute
      (dataSequence (segment.trimmed skip)) = (s.buffer.base : ℤ) := by
    rw [countSegment_absolute, absolute_trimmed hseq]
  have hstore := store_of_reaches habs segment.payload
    (by rw [countSegment_buffer]; omega)
    (by rw [countSegment_windowEnd]; omega)
    (by simp [hfin]) policy
  have hstore' := store_of_reaches habs' (segment.trimmed skip).payload
    (by rw [countSegment_buffer]; omega)
    (by rw [countSegment_windowEnd]; omega)
    (by simp [hfin]) policy
  have hwrite := RangeBuffer.write_behind h.wf hskip hlen policy
  rw [take, if_neg hne, take, if_neg hne', hstore, hstore', countSegment_buffer,
    countSegment_buffer, hwrite]
  have hsyn : (if segment.has Flags.syn then segment.payload.length else 0) =
      (if (segment.trimmed skip).has Flags.syn then (segment.trimmed skip).payload.length else 0) +
        if segment.has Flags.syn then skip else 0 := by
    have hhas : (segment.trimmed skip).has Flags.syn = segment.has Flags.syn := rfl
    rw [hhas, hlen']
    split_ifs
    · omega
    · rfl
  rw [countSegment, if_neg hne, countSegment, if_neg hne', hsyn]
  simp only [stored, countLate, ← Nat.add_assoc]
  rfl

theorem push_trimmed (h : s.Sound) (hest : s.established = true) (hfin : s.finAt = none)
    (hseq : dataSequence segment + UInt32.ofNat skip = s.baseSequence) (hlt : skip < 2 ^ 31)
    (hlen : skip < segment.payload.length) (hskip : skip ≤ s.buffer.base)
    (hopen : s.buffer.base < s.windowEnd) (policy : OverlapPolicy) :
    s.push segment policy = (s.push (segment.trimmed skip) policy).countLate skip
      (if segment.has Flags.syn then skip else 0) := by
  rw [push_of_established segment hest, push_of_established (segment.trimmed skip) hest,
    take_trimmed h hfin hseq hlt hlen hskip hopen policy]
  obtain ⟨_, _, hbase⟩ := h.take hest (segment.trimmed skip) policy
  have hanchor : (s.take (segment.trimmed skip) policy).baseSequence = s.baseSequence := by
    unfold take
    split_ifs
    · rfl
    · rw [store_baseSequence, countSegment_eq]
  -- both ends of the stream are where the segment ends
  have hbehind : s.absolute (dataSequence segment) = s.buffer.base - skip :=
    s.absolute_behind hlt.le hseq
  have hat : s.absolute (dataSequence (segment.trimmed skip)) = s.buffer.base :=
    absolute_trimmed hseq
  have hlen' : (segment.trimmed skip).payload.length = segment.payload.length - skip :=
    List.length_drop
  have hend : (max (((s.take (segment.trimmed skip) policy).countLate skip
        (if segment.has Flags.syn then skip else 0)).absolute (dataSequence segment)) 0).toNat +
          segment.payload.length =
      (max ((s.take (segment.trimmed skip) policy).absolute
        (dataSequence (segment.trimmed skip))) 0).toNat +
        (segment.trimmed skip).payload.length := by
    simp only [absolute, countLate, hbase, hanchor] at hbehind hat ⊢
    omega
  have hhas : (segment.trimmed skip).has Flags.fin = segment.has Flags.fin := rfl
  simp only [noteFin, hhas, hend]
  split_ifs <;> rfl

theorem beforeWindow_le_push (s : Stream) (segment : TcpSegment) (policy : OverlapPolicy) :
    s.counters.beforeWindow ≤ (s.push segment policy).counters.beforeWindow := by
  have hcount (s : Stream) :
      (s.countSegment segment).counters.beforeWindow = s.counters.beforeWindow := by
    unfold countSegment
    split_ifs <;> rfl
  have hstore (s : Stream) (sequence : UInt32) (payload : List UInt8) :
      s.counters.beforeWindow ≤ (s.store sequence payload policy).counters.beforeWindow := by
    unfold store
    dsimp only
    split_ifs <;> simp only <;> omega
  rw [push_eq]
  split_ifs with hest
  · rw [noteFin_counters, take]
    split_ifs
    · rw [establish_counters]
    · have hle := hstore ((s.establish segment).countSegment segment) (dataSequence segment)
        segment.payload
      rwa [hcount, establish_counters] at hle
  · exact le_rfl

/-- A segment that starts outside the window is not stored, and none of it is counted late. -/
theorem push_outside (hest : s.established = true)
    (hend : s.buffer.base < s.absolute (dataSequence segment) + segment.payload.length)
    (hout : s.absolute (dataSequence segment) < 0 ∨
      s.windowEnd ≤ (s.absolute (dataSequence segment)).toNat) (policy : OverlapPolicy) :
    (s.push segment policy).counters.beforeWindow = s.counters.beforeWindow ∧
      (s.push segment policy).counters.outOfWindow =
        s.counters.outOfWindow + segment.payload.length := by
  have hcount : (s.countSegment segment).counters.beforeWindow = s.counters.beforeWindow ∧
      (s.countSegment segment).counters.outOfWindow = s.counters.outOfWindow := by
    unfold countSegment
    split_ifs <;> exact ⟨rfl, rfl⟩
  rw [push_of_established segment hest, noteFin_counters, take]
  split_ifs with hempty
  · rw [List.isEmpty_iff.1 hempty]
    exact ⟨rfl, rfl⟩
  · rw [store]
    dsimp only
    rw [if_neg (by rw [countSegment_absolute, countSegment_buffer]; omega),
      if_pos (by rwa [countSegment_absolute, countSegment_windowEnd])]
    exact ⟨hcount.1, congrArg (· + _) hcount.2⟩

theorem push_inside (hest : s.established = true) (hfin : s.finAt = none) {offset : ℕ}
    (habs : s.absolute (dataSequence segment) = offset)
    (hend : s.buffer.base < offset + segment.payload.length) (hin : offset < s.windowEnd)
    (policy : OverlapPolicy) :
    (s.push segment policy).counters.outOfWindow = s.counters.outOfWindow := by
  have hcount : (s.countSegment segment).counters.outOfWindow = s.counters.outOfWindow := by
    unfold countSegment
    split_ifs <;> rfl
  rw [push_of_established segment hest, noteFin_counters, take]
  split_ifs with hempty
  · rfl
  · rw [store_of_reaches ((countSegment_absolute s segment _).trans habs) segment.payload
      (by rwa [countSegment_buffer]) (by rwa [countSegment_windowEnd]) (by simp [hfin]) policy]
    exact hcount

theorem trimmed_of_counters (h : s.Sound) (hest : s.established = true) (hfin : s.finAt = none)
    (hseq : dataSequence segment + UInt32.ofNat skip = s.baseSequence) (hpos : 0 < skip)
    (hlt : skip < 2 ^ 31) (hlen : skip < segment.payload.length) (hlimit : s.byteLimit < 2 ^ 64)
    {policy : OverlapPolicy}
    (hlate : (s.push segment policy).counters.beforeWindow =
      (s.push (segment.trimmed skip) policy).counters.beforeWindow + skip)
    (hout : (s.push segment policy).counters.outOfWindow =
      (s.push (segment.trimmed skip) policy).counters.outOfWindow) :
    skip ≤ s.buffer.base ∧ s.buffer.base + s.byteLimit < 2 ^ 64 := by
  have habs : s.absolute (dataSequence segment) = s.buffer.base - skip :=
    s.absolute_behind hlt.le hseq
  have hend : s.buffer.base < s.absolute (dataSequence segment) + segment.payload.length := by
    omega
  -- the segment itself is not outside, or none of it would be counted late
  have hinside : 0 ≤ s.absolute (dataSequence segment) ∧
      (s.absolute (dataSequence segment)).toNat < s.windowEnd := by
    by_contra hno
    have hnone := (push_outside hest hend (by omega) policy).1
    have hmore := s.beforeWindow_le_push (segment.trimmed skip) policy
    omega
  refine ⟨by omega, ?_⟩
  by_contra hwraps
  have hbase : s.buffer.base < 2 ^ 64 := Nat.lt_of_le_pred (by decide) h.wf.base_le
  have hwindow := windowEnd_of_wraps (not_lt.1 hwraps) hbase hlimit
  -- the part from the base on is
  have hlen' : (segment.trimmed skip).payload.length = segment.payload.length - skip :=
    List.length_drop
  have habs' : s.absolute (dataSequence (segment.trimmed skip)) = s.buffer.base :=
    absolute_trimmed hseq
  have hstart : s.absolute (dataSequence segment) = ((s.buffer.base - skip : ℕ) : ℤ) := by omega
  have hkept := push_inside hest hfin hstart (by omega) (by omega) policy
  have hend' : s.buffer.base < s.absolute (dataSequence (segment.trimmed skip)) +
      (segment.trimmed skip).payload.length := by omega
  have hlost := (push_outside hest hend' (by omega) policy).2
  omega

end Stream

theorem receive_trimmed_other (s : Stream) (q : Push) (skip : ℕ) :
    s.receive (!q.toServer) (q.trimmed skip) = s.receive (!q.toServer) q := by
  have hside : (q.trimmed skip).toServer = q.toServer := rfl
  have hack : (q.trimmed skip).segment.has Flags.ack = q.segment.has Flags.ack := rfl
  have hne : q.toServer ≠ !q.toServer := by simp
  rw [Stream.receive, Stream.receive, hside, if_neg hne, if_neg hne, hack]
  rfl

theorem step_own_side (p : StreamPair) (q : Push) :
    (p.step q).1.side q.toServer =
        (((p.side q.toServer).push q.segment (q.policy q.toServer)).deliver false).1 ∧
      (p.step q).2.side q.toServer =
        (((p.side q.toServer).push q.segment (q.policy q.toServer)).deliver false).2 := by
  have hside := step_side p q q.toServer
  rwa [Stream.receive, if_pos rfl] at hside

theorem StreamReady.eq_of_sides {a b : StreamReady} {toServer : Bool}
    (h : a.side toServer = b.side toServer)
    (h' : a.side (!toServer) = b.side (!toServer)) : a = b := by
  obtain ⟨_, _⟩ := a
  obtain ⟨_, _⟩ := b
  cases toServer <;> simp_all [StreamReady.side]

/-- A segment that straddles the base is stored and counted as if it had been cut at the base
exactly when its first byte does not lie before offset zero and the end of the window does not wrap.
Here it starts `skip` bytes before the base. -/
theorem straddling_as_if_trimmed_iff (config : ReassemblyConfig) (ops : List PairOp) (q : Push)
    (skip : ℕ) (hest : ((StreamPair.after config ops).side q.toServer).established = true)
    (hfin : ((StreamPair.after config ops).side q.toServer).finAt = none)
    (hseq : Stream.dataSequence q.segment + UInt32.ofNat skip =
      ((StreamPair.after config ops).side q.toServer).baseSequence)
    (hpos : 0 < skip) (hlt : skip < 2 ^ 31) (hlen : skip < q.segment.payload.length) :
    AsIfTrimmed (StreamPair.after config ops) q skip ↔
      skip ≤ ((StreamPair.after config ops).side q.toServer).buffer.base ∧
        ((StreamPair.after config ops).side q.toServer).buffer.base +
          ((StreamPair.after config ops).side q.toServer).byteLimit < 2 ^ 64 := by
  obtain ⟨hstate, hready⟩ := step_own_side (StreamPair.after config ops) q
  obtain ⟨hstate', hready'⟩ :
      ((StreamPair.after config ops).step (q.trimmed skip)).1.side q.toServer =
          ((((StreamPair.after config ops).side q.toServer).push (q.segment.trimmed skip)
            (q.policy q.toServer)).deliver false).1 ∧
        ((StreamPair.after config ops).step (q.trimmed skip)).2.side q.toServer =
          ((((StreamPair.after config ops).side q.toServer).push (q.segment.trimmed skip)
            (q.policy q.toServer)).deliver false).2 :=
    step_own_side (StreamPair.after config ops) (q.trimmed skip)
  have hsound := (after_sound config ops q.toServer).1
  have hlimit := (after_limits config ops q.toServer).1.trans_lt (StreamPair.limitOf_lt config)
  constructor
  · intro h
    have hside := h.side
    rw [hstate, hstate'] at hside
    have hlate := congrArg (fun s : Stream => s.counters.beforeWindow) hside
    have hout := congrArg (fun s : Stream => s.counters.outOfWindow) hside
    exact Stream.trimmed_of_counters hsound hest hfin hseq hpos hlt hlen hlimit hlate hout
  · rintro ⟨hskip, hfits⟩
    have hroom := hsound.wf.byteLimit_pos
    rw [hsound.byteLimit_eq] at hroom
    have hpush := Stream.push_trimmed hsound hest hfin hseq hlt hlen hskip
      (by rw [Stream.windowEnd_of_lt hfits]; omega) (q.policy q.toServer)
    obtain ⟨hother, hreadyOther⟩ := step_side (StreamPair.after config ops) q (!q.toServer)
    obtain ⟨hother', hreadyOther'⟩ :=
      step_side (StreamPair.after config ops) (q.trimmed skip) (!q.toServer)
    rw [receive_trimmed_other] at hother' hreadyOther'
    refine ⟨StreamReady.eq_of_sides ?_ (hreadyOther.trans hreadyOther'.symm),
      hother.trans hother'.symm, ?_⟩
    · rw [hready, hready', hpush]
      rfl
    · rw [hstate, hstate', hpush]
      rfl

/-- Two bytes have been delivered, and a segment brings the second one again with two new ones. -/
theorem straddling_as_if_trimmed_iff_retransmission :
    let ops : List PairOp := [.push ⟨true, ⟨1000, 0, 0, [1, 2]⟩, .first, .first⟩,
      .push ⟨false, ⟨5000, 1002, Flags.ack, []⟩, .first, .first⟩]
    let q : Push := ⟨true, ⟨1001, 0, 0, [2, 3, 4]⟩, .first, .first⟩
    AsIfTrimmed (StreamPair.after {} ops) q 1 := by
  intro ops q
  have hiff := straddling_as_if_trimmed_iff {} ops q 1 (by decide +kernel) (by decide +kernel)
    (by decide +kernel) (by decide) (by decide) (by decide)
  exact hiff.2 ⟨by decide +kernel, by decide +kernel⟩

/-- The first segment seen anchors the stream at its own start. One that starts a byte earlier and
brings a new byte is refused as if it were far outside the window. -/
theorem straddling_before_anchor_refused :
    ¬ ∀ (config : ReassemblyConfig) (ops : List PairOp) (q : Push) (skip : ℕ),
      ((StreamPair.after config ops).side q.toServer).established = true →
      ((StreamPair.after config ops).side q.toServer).finAt = none →
      Stream.dataSequence q.segment + UInt32.ofNat skip =
        ((StreamPair.after config ops).side q.toServer).baseSequence →
      0 < skip → skip < 2 ^ 31 → skip < q.segment.payload.length →
      AsIfTrimmed (StreamPair.after config ops) q skip := by
  intro h
  have htrimmed := h {} [.push ⟨true, ⟨1000, 0, 0, [1, 2]⟩, .first, .first⟩]
    ⟨true, ⟨999, 0, 0, [0, 1, 2, 3]⟩, .first, .first⟩ 1 (by decide +kernel) (by decide +kernel)
    (by decide +kernel) (by decide) (by decide) (by decide)
  have hbuffer := congrArg (fun s : Stream => s.bufferedBytes) htrimmed.side
  exact absurd hbuffer (by decide +kernel)

end CyberSentinel
