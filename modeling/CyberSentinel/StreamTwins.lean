import CyberSentinel.FinBound
import CyberSentinel.StreamCounts

/-!
# Directions that differ in their end

Two histories of a direction can leave it in the same state but for its end. Then some continuation
tells them apart, unless the direction is shut: a byte at the earlier end is rejected in the one and
taken in the other. When the end lies ahead of the window, bytes that both take move the window on
to it first. When the end of the window has wrapped, segments that start behind it still reach past
the base, and move it on until the earlier end lies in reach.
-/

namespace CyberSentinel

open Spans

namespace Stream

/-- Two directions agree on everything but the end and the counters. -/
structure Alike (s t : Stream) : Prop where
  baseSequence : s.baseSequence = t.baseSequence
  established : s.established = t.established
  buffer : s.buffer = t.buffer
  acknowledgedUpto : s.acknowledgedUpto = t.acknowledgedUpto
  byteLimit : s.byteLimit = t.byteLimit
  flushBytes : s.flushBytes = t.flushBytes

/-- The segment does not start at the end of the direction or past it. -/
def Open (s : Stream) (segment : TcpSegment) : Prop :=
  ∀ finAt ∈ s.finAt, (s.absolute (dataSequence segment)).toNat < finAt

theorem push_fields {s : Stream} (hest : s.established = true) {segment : TcpSegment}
    {policy : OverlapPolicy} :
    s.push segment policy = { s with
      buffer := (s.push segment policy).buffer
      finAt := (s.push segment policy).finAt
      counters := (s.push segment policy).counters } := by
  rw [push_of_established segment hest, noteFin_eq, take]
  split_ifs
  · rfl
  · rw [store_eq, countSegment_eq]

theorem push_establish (s : Stream) (segment : TcpSegment) (policy : OverlapPolicy) :
    (s.establish segment).push segment policy = s.push segment policy := by
  by_cases hest : (s.establish segment).established = true
  · rw [push_of_established segment hest, push_eq, if_pos hest]
  · rw [(establish_eq_of_not_established s segment (Bool.eq_false_iff.2 hest)).1]

def claimedEnd (s : Stream) (segment : TcpSegment) : ℕ :=
  (max (s.absolute (dataSequence segment)) 0).toNat + segment.payload.length

theorem push_finAt {s : Stream} (h : s.Sound) (hest : s.established = true) (segment : TcpSegment)
    (policy : OverlapPolicy) :
    (s.push segment policy).finAt = if segment.has Flags.fin then
      some (s.finAt.elim (s.claimedEnd segment) (fun finAt => min finAt (s.claimedEnd segment)))
      else s.finAt := by
  obtain ⟨_, _, hbase⟩ := h.take hest segment policy
  have htake : (s.take segment policy).finAt = s.finAt ∧
      (s.take segment policy).baseSequence = s.baseSequence := by
    unfold take
    split_ifs
    · exact ⟨rfl, rfl⟩
    · rw [store_finAt, store_baseSequence, countSegment_eq]
      exact ⟨rfl, rfl⟩
  have hclaim : (s.take segment policy).claimedEnd segment = s.claimedEnd segment := by
    simp only [claimedEnd, absolute, hbase, htake.2]
  rw [push_of_established segment hest, noteFin, ← hclaim, htake.1.symm]
  split_ifs <;> rfl

namespace Alike

variable {s t : Stream}

theorem symm (h : s.Alike t) : t.Alike s :=
  ⟨h.baseSequence.symm, h.established.symm, h.buffer.symm, h.acknowledgedUpto.symm,
    h.byteLimit.symm,
    h.flushBytes.symm⟩

theorem trans (h : s.Alike t) {u : Stream} (h' : t.Alike u) : s.Alike u :=
  ⟨h.baseSequence.trans h'.baseSequence, h.established.trans h'.established,
    h.buffer.trans h'.buffer,
    h.acknowledgedUpto.trans h'.acknowledgedUpto, h.byteLimit.trans h'.byteLimit,
    h.flushBytes.trans h'.flushBytes⟩

theorem windowEnd (h : s.Alike t) : s.windowEnd = t.windowEnd := by
  rw [Stream.windowEnd, Stream.windowEnd, h.buffer, h.byteLimit]

theorem absolute (h : s.Alike t) (sequence : UInt32) :
    s.absolute sequence = t.absolute sequence := by
  rw [Stream.absolute, Stream.absolute, h.buffer, h.baseSequence]

theorem sound (h : s.Alike t) (ht : t.Sound) : s.Sound :=
  ht.congr h.buffer h.established h.byteLimit h.flushBytes

theorem settled (h : s.Alike t) (ht : t.Settled) : s.Settled :=
  ⟨by rw [h.acknowledgedUpto, h.buffer]; exact ht.acknowledged,
    by rw [h.buffer, h.flushBytes]; exact ht.waiting⟩

theorem establish (h : s.Alike t) (segment : TcpSegment) :
    (s.establish segment).Alike (t.establish segment) := by
  unfold Stream.establish
  rw [h.established]
  split_ifs
  · exact h
  · exact ⟨rfl, rfl, h.buffer, h.acknowledgedUpto, h.byteLimit, h.flushBytes⟩
  · exact ⟨rfl, rfl, h.buffer, h.acknowledgedUpto, h.byteLimit, h.flushBytes⟩
  · exact h

theorem push (h : s.Alike t) (hest : t.established = true) {segment : TcpSegment}
    (hopen : s.Open segment ↔ t.Open segment) (policy : OverlapPolicy) :
    (s.push segment policy).Alike (t.push segment policy) := by
  have hest' : s.established = true := h.established.trans hest
  have hbuffer : (s.push segment policy).buffer = (t.push segment policy).buffer := by
    have hverdict : (∀ finAt ∈ s.finAt, (t.absolute (dataSequence segment)).toNat < finAt) ↔
        ∀ finAt ∈ t.finAt, (t.absolute (dataSequence segment)).toNat < finAt := by
      rw [← h.absolute]
      rw [Open, Open, ← h.absolute] at hopen
      exact hopen
    rw [push_buffer hest', push_buffer hest, h.buffer, h.windowEnd, h.absolute]
    simp only [hverdict]
  rw [push_fields hest', push_fields hest]
  exact ⟨h.baseSequence, h.established, hbuffer, h.acknowledgedUpto, h.byteLimit, h.flushBytes⟩

theorem acknowledge (h : s.Alike t) (acknowledgment : UInt32) :
    (s.acknowledge acknowledgment).Alike (t.acknowledge acknowledgment) := by
  simp only [Stream.acknowledge, h.established, h.absolute]
  split_ifs
  · exact h
  · exact ⟨h.baseSequence, rfl, h.buffer, by simp only [h.acknowledgedUpto], h.byteLimit,
      h.flushBytes⟩
  · exact h

theorem deliver (h : s.Alike t) (force : Bool) :
    (s.deliver force).1.Alike (t.deliver force).1 ∧ (s.deliver force).2 = (t.deliver force).2 := by
  have hlimit : s.deliverLimit force = t.deliverLimit force := by
    rw [deliverLimit, deliverLimit, h.buffer, h.flushBytes, h.acknowledgedUpto]
  have hdrain : s.buffer.drainContiguousUpto (s.deliverLimit force) =
      t.buffer.drainContiguousUpto (t.deliverLimit force) := by
    rw [hlimit, h.buffer]
  refine ⟨⟨?_, h.established, congrArg Prod.fst hdrain, h.acknowledgedUpto, h.byteLimit,
    h.flushBytes⟩, ?_⟩
  · simp only [Stream.deliver, hdrain, h.baseSequence]
  · simp only [Stream.deliver, hdrain]

theorem discard (h : s.Alike t) : s.discard.Alike t.discard :=
  ⟨h.baseSequence, h.established, by simp only [Stream.discard, h.buffer], h.acknowledgedUpto,
    h.byteLimit, h.flushBytes⟩

theorem claimedEnd (h : s.Alike t) (segment : TcpSegment) :
    s.claimedEnd segment = t.claimedEnd segment := by
  rw [Stream.claimedEnd, Stream.claimedEnd, h.absolute]

/-- With the same end as well, two directions answer every call alike. -/
theorem act (h : s.Alike t) (hfin : s.finAt = t.finAt) (ht : t.Sound) (toServer : Bool)
    (op : PairOp) :
    (s.act toServer op).1.Alike (t.act toServer op).1 ∧
      (s.act toServer op).1.finAt = (t.act toServer op).1.finAt ∧
      (s.act toServer op).2 = (t.act toServer op).2 := by
  cases op with
  | push q =>
    have hreceive : (s.receive toServer q).Alike (t.receive toServer q) ∧
        (s.receive toServer q).finAt = (t.receive toServer q).finAt := by
      unfold Stream.receive
      split_ifs
      · rw [← push_establish s, ← push_establish t]
        have hanchored := h.establish q.segment
        have hends : (s.establish q.segment).finAt = (t.establish q.segment).finAt := by simp [hfin]
        have hsound := ht.establish q.segment
        by_cases hest : (t.establish q.segment).established = true
        · have hopen : (s.establish q.segment).Open q.segment ↔
              (t.establish q.segment).Open q.segment := by
            rw [Open, Open, hends, hanchored.absolute]
          refine ⟨hanchored.push hest hopen (q.policy toServer), ?_⟩
          rw [push_finAt (hanchored.sound hsound) (hanchored.established.trans hest),
            push_finAt hsound hest, hends, hanchored.claimedEnd]
        · have hno := Bool.eq_false_iff.2 hest
          have hno' := hanchored.established.trans hno
          rw [push_establish, push_establish, push_eq, push_eq, hno, hno']
          exact ⟨h, hfin⟩
      · refine ⟨h.acknowledge _, ?_⟩
        simp only [Stream.acknowledge]
        split_ifs <;> exact hfin
      · exact ⟨h, hfin⟩
    obtain ⟨hdeliver, hout⟩ := hreceive.1.deliver false
    exact ⟨hdeliver, hreceive.2, hout⟩
  | flush =>
    obtain ⟨hdeliver, hout⟩ := h.deliver true
    exact ⟨hdeliver.discard, hfin, hout⟩

end Alike

/-- Some calls make the two directions deliver or hold different bytes. -/
def Differ (toServer : Bool) (s t : Stream) : Prop :=
  ∃ ops, ¬ ((Runs.run (act toServer) s ops).1.buffer = (Runs.run (act toServer) t ops).1.buffer ∧
    (Runs.run (act toServer) s ops).2 = (Runs.run (act toServer) t ops).2)

theorem Differ.of_act {toServer : Bool} {s t : Stream} (op : PairOp)
    (h : Differ toServer (s.act toServer op).1 (t.act toServer op).1) : Differ toServer s t := by
  obtain ⟨ops, hops⟩ := h
  refine ⟨op :: ops, ?_⟩
  rintro ⟨hbuffer, hout⟩
  exact hops ⟨hbuffer, (List.cons.inj hout).2⟩

/-- Two directions in the same state, except that the first has an earlier end. -/
structure Twins (finAt : ℕ) (s t : Stream) : Prop where
  alike : s.Alike t
  finAt_eq : s.finAt = some finAt
  later : ∀ finAt' ∈ t.finAt, finAt < finAt'
  sound : t.Sound
  settled : t.Settled
  established : t.established = true

theorem exists_sequence (s : Stream) (offset : ℕ) (hlo : (s.buffer.base : ℤ) - 2 ^ 31 ≤ offset)
    (hhi : (offset : ℤ) < s.buffer.base + 2 ^ 31) : ∃ sequence, s.absolute sequence = offset := by
  by_cases hahead : s.buffer.base ≤ offset
  · refine ⟨s.baseSequence + UInt32.ofNat (offset - s.buffer.base), ?_⟩
    rw [s.absolute_ahead (by omega)]
    omega
  · refine ⟨s.baseSequence - UInt32.ofNat (s.buffer.base - offset), ?_⟩
    rw [s.absolute_behind (k := s.buffer.base - offset) (by omega) (by grind)]
    omega

def dataPush (toServer : Bool) (sequence : UInt32) (payload : List UInt8) : Push :=
  ⟨toServer, ⟨sequence, 0, 0, payload⟩, .last, .last⟩

theorem act_dataPush (s : Stream) (toServer : Bool) (sequence : UInt32) (payload : List UInt8) :
    s.act toServer (.push (dataPush toServer sequence payload)) =
      (s.push ⟨sequence, 0, 0, payload⟩ .last).deliver false := by
  rw [act, receive, if_pos (show (dataPush toServer sequence payload).toServer = toServer from rfl),
    Push.policy]
  cases toServer <;> rfl

theorem dataSequence_plain (sequence : UInt32) (payload : List UInt8) :
    dataSequence ⟨sequence, 0, 0, payload⟩ = sequence := by
  simp [dataSequence, TcpSegment.has]

variable {finAt : ℕ} {s t : Stream}

/-- Bytes up to the buffer's end that start between the two ends tell the twins apart. -/
theorem Twins.differ_at (h : Twins finAt s t) (toServer : Bool) (offset : ℕ) (hfin : finAt ≤ offset)
    (hlater : ∀ finAt' ∈ t.finAt, offset < finAt') (hwindow : offset < t.windowEnd)
    (hlo : (t.buffer.base : ℤ) - 2 ^ 31 ≤ offset) (hhi : (offset : ℤ) < t.buffer.base + 2 ^ 31)
    (hadm : t.buffer.Admits (max offset t.buffer.base) t.buffer.windowEnd) :
    Differ toServer s t := by
  obtain ⟨sequence, habs⟩ := t.exists_sequence offset hlo hhi
  have hroom := hadm.1
  obtain ⟨v, hv⟩ : ∃ v, t.buffer.byteAt (max offset t.buffer.base) ≠ some v := by
    cases hbyte : t.buffer.byteAt (max offset t.buffer.base) with
    | none => exact ⟨0, by simp⟩
    | some w =>
      refine ⟨w + 1, fun heq => ?_⟩
      have := Option.some.inj heq
      grind
  have hest : s.established = true := h.alike.established.trans h.established
  have habs' : s.absolute sequence = offset := (h.alike.absolute sequence).trans habs
  -- the first direction has closed and rejects the bytes
  have hclosed : (s.push ⟨sequence, 0, 0, List.replicate (t.buffer.windowEnd - offset) v⟩
      .last).Alike
      s := by
    rw [push_fields hest]
    refine ⟨rfl, rfl, ?_, rfl, rfl, rfl⟩
    change (s.push _ _).buffer = s.buffer
    rw [push_buffer hest, dataSequence_plain, habs', if_neg]
    rintro ⟨_, _, _, hopen⟩
    have := hopen finAt h.finAt_eq
    omega
  -- the second one takes them
  have htaken : (t.push ⟨sequence, 0, 0, List.replicate (t.buffer.windowEnd - offset) v⟩
      .last).buffer.byteAt (max offset t.buffer.base) = some v := by
    have hend : min (offset + (List.replicate (t.buffer.windowEnd - offset) v).length)
        t.buffer.windowEnd = t.buffer.windowEnd := by
      rw [List.length_replicate]
      omega
    rw [push_buffer h.established, dataSequence_plain, habs, Int.toNat_natCast, if_pos]
    · rw [RangeBuffer.write_byteAt_of_admits h.sound.wf _ _ _ (by rwa [hend]), hend,
        if_pos ⟨⟨le_rfl, hroom⟩, Or.inl rfl⟩, List.getElem?_replicate_of_lt (by omega)]
    · refine ⟨?_, by omega, hwindow, hlater⟩
      rw [List.length_replicate]
      omega
  refine ⟨[.push (dataPush toServer sequence (List.replicate (t.buffer.windowEnd - offset) v))], ?_⟩
  rintro ⟨hbuffer, hout⟩
  simp only [Runs.run_cons, Runs.run_nil, act_dataPush, List.cons.injEq, and_true] at hbuffer hout
  rw [(hclosed.settled (h.alike.settled h.settled)).deliver_eq] at hbuffer hout
  have hsound := (h.sound.push ⟨sequence, 0, 0, List.replicate (t.buffer.windowEnd - offset) v⟩
    .last).1
  have hbase := (h.sound.push ⟨sequence, 0, 0, List.replicate (t.buffer.windowEnd - offset) v⟩
    .last).2
  obtain ⟨stop, _, hlo', _, hconsumed, _, _, _, hlen⟩ := deliver_spec hsound false
  rw [← hout, List.length_nil] at hlen
  have hstop : stop = t.buffer.base := by omega
  have hat := congrArg (fun b => RangeBuffer.byteAt b (max offset t.buffer.base)) hbuffer
  simp only [hclosed.buffer, h.alike.buffer] at hat
  rw [hconsumed, RangeBuffer.consume_byteAt hlo', if_pos (by omega), htaken] at hat
  exact hv hat

/-- A write from the base on is admitted when no range lies past it. -/
theorem admits_from_base {b : RangeBuffer} (hb : b.Wf) {stop : ℕ} (hlt : b.base < stop)
    (hstarts : ∀ r ∈ b.covered, r.start ≤ stop) : b.Admits b.base stop := by
  refine ⟨hlt, ?_⟩
  cases hcovered : b.covered with
  | nil => exact Or.inr hb.rangeLimit_pos
  | cons r rest =>
    have hmem : r ∈ b.covered := hcovered ▸ List.mem_cons_self
    left
    refine ⟨r, List.mem_cons_self, ?_, hstarts r hmem⟩
    exact (hb.start_ge r hmem).trans (hb.separated.nonempty r hmem).le

theorem admits_window {b : RangeBuffer} (hb : b.Wf) (hlt : b.base < b.windowEnd) :
    b.Admits b.base b.windowEnd :=
  admits_from_base hb hlt
    (fun r hr => (hb.separated.nonempty r hr).le.trans (hb.stop_le r hr))

/-- A direction whose end lies past the first byte takes what the window lets in. -/
theorem push_points (h : t.Sound) (hest : t.established = true) {sequence : UInt32} {offset : ℕ}
    (habs : t.absolute sequence = offset) (hwindow : offset < t.windowEnd)
    (hopen : ∀ finAt ∈ t.finAt, offset < finAt) {payload : List UInt8} {stop : ℕ}
    (hstop : min (offset + payload.length) t.buffer.windowEnd = stop)
    (hadm : t.buffer.Admits (max offset t.buffer.base) stop) (x : ℕ) :
    x ∈ points (t.push ⟨sequence, 0, 0, payload⟩ .last).buffer.covered ↔
      x ∈ points t.buffer.covered ∨ (max offset t.buffer.base ≤ x ∧ x < stop) := by
  have hlt := hadm.1
  have hpoints := RangeBuffer.write_points_of_admits h.wf offset payload .last (by rwa [hstop]) x
  rw [hstop] at hpoints
  rw [push_buffer hest, dataSequence_plain, habs, Int.toNat_natCast, if_pos]
  · exact hpoints
  · have hend : t.buffer.base < offset + payload.length := by omega
    exact ⟨by exact_mod_cast hend, Int.natCast_nonneg _, hwindow, hopen⟩

/-- Both twins take bytes that start before the earlier end, and stay twins. -/
theorem Twins.data (h : Twins finAt s t) (toServer : Bool) (sequence : UInt32)
    (payload : List UInt8)
    (hbefore : (t.absolute sequence).toNat < finAt) :
    ∃ s', (Differ toServer s' ((t.push ⟨sequence, 0, 0, payload⟩ .last).deliver false).1 →
        Differ toServer s t) ∧
      Twins finAt s' ((t.push ⟨sequence, 0, 0, payload⟩ .last).deliver false).1 := by
  have hest : s.established = true := h.alike.established.trans h.established
  have hsound := (h.sound.push ⟨sequence, 0, 0, payload⟩ .last).1
  have hnofin : (⟨sequence, 0, 0, payload⟩ : TcpSegment).has Flags.fin = false := by
    simp [TcpSegment.has]
  have hsides : s.Open ⟨sequence, 0, 0, payload⟩ ↔ t.Open ⟨sequence, 0, 0, payload⟩ := by
    have hopen : ∀ finAt' ∈ t.finAt, (t.absolute sequence).toNat < finAt' :=
      fun finAt' hfin' => hbefore.trans (h.later finAt' hfin')
    rw [Open, Open, h.alike.absolute, dataSequence_plain, h.finAt_eq]
    simpa [hbefore] using hopen
  have hfinal : (t.push ⟨sequence, 0, 0, payload⟩ .last).finAt = t.finAt := by
    rw [push_finAt h.sound h.established, hnofin]
    rfl
  have hfinal' : (s.push ⟨sequence, 0, 0, payload⟩ .last).finAt = some finAt := by
    rw [push_finAt (h.alike.sound h.sound) hest, hnofin]
    exact h.finAt_eq
  refine ⟨((s.push ⟨sequence, 0, 0, payload⟩ .last).deliver false).1, ?_, ?_⟩
  · intro hdiffer
    apply Differ.of_act (.push (dataPush toServer sequence payload))
    rw [act_dataPush, act_dataPush]
    exact hdiffer
  · refine ⟨((h.alike.push h.established hsides .last).deliver false).1, hfinal', ?_,
      hsound.deliver false, hsound.settled_deliver, ?_⟩
    · intro finAt' hfin'
      exact h.later finAt' (hfinal ▸ hfin')
    · change (t.push ⟨sequence, 0, 0, payload⟩ .last).established = true
      rw [push_fields h.established]
      exact h.established

theorem deliver_filled {t u : Stream} (hu : u.Sound)
    (hbase : u.buffer.base = t.buffer.base) {stop : ℕ}
    (hpoints : ∀ x, x ∈ points u.buffer.covered ↔
      x ∈ points t.buffer.covered ∨ (t.buffer.base ≤ x ∧ x < stop)) :
    t.buffer.base ≤ (u.deliver false).1.buffer.base ∧
      (u.flushBytes ≤ stop - t.buffer.base → stop ≤ (u.deliver false).1.buffer.base) ∧
      (∀ x, t.buffer.base ≤ x → x < (u.deliver false).1.buffer.base →
        x ∈ points t.buffer.covered ∨ x < stop) ∧
      ∀ x, x ∈ points (u.deliver false).1.buffer.covered ↔
        (x ∈ points t.buffer.covered ∨ (t.buffer.base ≤ x ∧ x < stop)) ∧
          (u.deliver false).1.buffer.base ≤ x := by
  obtain ⟨last, hlast, hlo, hhi, hbuffer, hnext, _⟩ := deliver_spec hu false
  have hpos := hu.flush_pos
  have hcontiguous : stop ≤ u.buffer.contiguousEnd ∨ stop ≤ t.buffer.base := by
    by_contra hno
    obtain ⟨hshort, hlong⟩ := not_or.1 hno
    have hhole := firstHole_not_mem hu.wf.separated hu.wf.start_ge
    refine hhole ((hpoints _).2 (Or.inr ⟨?_, not_le.1 hshort⟩))
    exact hbase ▸ hu.wf.base_le_contiguousEnd
  rw [hnext]
  refine ⟨hbase ▸ hlo, ?_, ?_, ?_⟩
  · intro hfull
    simp only [deliverLimit, Bool.false_eq_true, if_false] at hlast
    rw [if_pos (by omega)] at hlast
    omega
  · intro x hx hx'
    have hmem : x ∈ points u.buffer.covered :=
      mem_points_of_lt_firstHole (hbase ▸ hx) (hx'.trans_le hhi)
    exact ((hpoints x).1 hmem).imp_right And.right
  · intro x
    rw [hbuffer, RangeBuffer.consume, Nat.add_sub_of_le hlo, mem_points_trim, hpoints]

/-- Both twins take bytes that start behind the base or at it, before either end, and reach on to
`stop`. -/
theorem Twins.fill (h : Twins finAt s t) (toServer : Bool) {offset stop : ℕ} (hfin : offset < finAt)
    (hlo : (t.buffer.base : ℤ) - 2 ^ 31 ≤ offset) (hle : offset ≤ t.buffer.base)
    (hwindow : offset < t.windowEnd) (hstop : stop ≤ t.buffer.windowEnd)
    (hadm : t.buffer.Admits t.buffer.base stop) :
    ∃ s' t', (Differ toServer s' t' → Differ toServer s t) ∧ Twins finAt s' t' ∧
      t'.byteLimit = t.byteLimit ∧ t.buffer.base ≤ t'.buffer.base ∧
      (t.flushBytes ≤ stop - t.buffer.base → stop ≤ t'.buffer.base) ∧
      (∀ x, t.buffer.base ≤ x → x < t'.buffer.base → x ∈ points t.buffer.covered ∨ x < stop) ∧
      ∀ x, x ∈ points t'.buffer.covered ↔
        (x ∈ points t.buffer.covered ∨ (t.buffer.base ≤ x ∧ x < stop)) ∧ t'.buffer.base ≤ x := by
  obtain ⟨sequence, habs⟩ := t.exists_sequence offset hlo (by omega)
  have hroom := hadm.1
  have hend : min (offset + (List.replicate (stop - offset) (0 : UInt8)).length)
      t.buffer.windowEnd =
      stop := by
    rw [List.length_replicate]
    omega
  obtain ⟨s', hdiffer, htwins⟩ := h.data toServer sequence (List.replicate (stop - offset) 0)
    (by rwa [habs, Int.toNat_natCast])
  obtain ⟨hsound, hbase⟩ :=
    h.sound.push ⟨sequence, 0, 0, List.replicate (stop - offset) 0⟩ .last
  obtain ⟨hlimit, hflush⟩ := t.push_limits ⟨sequence, 0, 0, List.replicate (stop - offset) 0⟩ .last
  have hpoints := push_points h.sound h.established habs hwindow
    (fun finAt' hfin' => hfin.trans (h.later finAt' hfin')) hend (by rwa [max_eq_right hle])
  rw [max_eq_right hle] at hpoints
  obtain ⟨hgrows, hfull, hbelow, hcovered⟩ := deliver_filled hsound hbase hpoints
  rw [hflush] at hfull
  exact ⟨s', _, hdiffer, htwins, hlimit, hgrows, hfull, hbelow, hcovered⟩

theorem Twins.differ_behind (h : Twins finAt s t) (toServer : Bool) (hle : finAt ≤ t.buffer.base)
    (hwindow : t.buffer.base < t.windowEnd) (hlo : (t.buffer.base : ℤ) - 2 ^ 31 ≤ finAt)
    (hfits : finAt + 2 ^ 31 < u64Max) :
    Differ toServer s t := by
  have hroom : t.buffer.base < t.buffer.windowEnd := by
    have := h.sound.wf.byteLimit_pos
    rw [RangeBuffer.windowEnd, satAdd]
    omega
  have hadm := admits_window h.sound.wf hroom
  cases hend : t.finAt with
  | none =>
    apply h.differ_at toServer t.buffer.base hle (by simp [hend]) hwindow (by omega) (by omega)
    rwa [max_self]
  | some finAt' =>
    have hlater := h.later finAt' hend
    apply h.differ_at toServer (min t.buffer.base (finAt' - 1)) (by omega)
    · intro e he
      rw [hend] at he
      cases he
      omega
    · omega
    · omega
    · omega
    · rwa [max_eq_right (min_le_left _ _)]

/-- Bytes after a range that is not yet contiguous do not move the window. -/
theorem Twins.extend (h : Twins finAt s t) (toServer : Bool) {r : Span} (hr : r ∈ t.buffer.covered)
    (hgap : t.buffer.contiguousEnd < r.start) (hstop : r.stop < finAt)
    (hend : finAt ≤ t.buffer.windowEnd) (hwindow : finAt ≤ t.windowEnd)
    (hhi : (finAt : ℤ) < t.buffer.base + 2 ^ 31) :
    ∃ s' t', (Differ toServer s' t' → Differ toServer s t) ∧ Twins finAt s' t' ∧
      t'.byteLimit = t.byteLimit ∧ t'.buffer.base = t.buffer.base ∧
      finAt - 1 ∈ points t'.buffer.covered := by
  have hnonempty := h.sound.wf.separated.nonempty r hr
  have hbase := h.sound.wf.base_le_contiguousEnd
  obtain ⟨sequence, habs⟩ := t.exists_sequence r.stop (by omega) (by omega)
  have hlast : min (r.stop + (List.replicate (finAt - r.stop) (0 : UInt8)).length)
      t.buffer.windowEnd = finAt := by
    rw [List.length_replicate]
    omega
  have hlo : max r.stop t.buffer.base = r.stop := by omega
  have hpoints := push_points h.sound h.established habs (hstop.trans_le hwindow)
    (fun finAt' hfin' => hstop.trans (h.later finAt' hfin')) hlast
    (by rw [hlo]; exact ⟨hstop, Or.inl ⟨r, hr, le_rfl, hnonempty.le.trans hstop.le⟩⟩)
  rw [hlo] at hpoints
  obtain ⟨s', hdiffer, htwins⟩ := h.data toServer sequence (List.replicate (finAt - r.stop) 0)
    (by rwa [habs, Int.toNat_natCast])
  obtain ⟨hsound, hsame⟩ :=
    h.sound.push ⟨sequence, 0, 0, List.replicate (finAt - r.stop) 0⟩ .last
  obtain ⟨hlimit, hflush⟩ := t.push_limits ⟨sequence, 0, 0, List.replicate (finAt - r.stop) 0⟩ .last
  -- the first byte that is missing is still missing, so nothing is delivered
  have hcontiguous :
      (t.push ⟨sequence, 0, 0, List.replicate (finAt - r.stop) 0⟩ .last).buffer.contiguousEnd =
        t.buffer.contiguousEnd := by
    apply firstHole_eq hsound.wf.separated hsound.wf.start_ge (hsame ▸ hbase)
    · intro x hx hlt
      exact (hpoints x).2 (Or.inl (mem_points_of_lt_firstHole (hsame ▸ hx) hlt))
    · rw [hpoints]
      rintro (hmem | ⟨hge, _⟩)
      · exact firstHole_not_mem h.sound.wf.separated h.sound.wf.start_ge hmem
      · omega
  have hsettled : (t.push ⟨sequence, 0, 0, List.replicate (finAt - r.stop) 0⟩ .last).Settled := by
    have hack : (t.push ⟨sequence, 0, 0, List.replicate (finAt - r.stop) 0⟩
        .last).acknowledgedUpto =
        t.acknowledgedUpto := by
      rw [push_fields h.established]
    exact ⟨by rw [hack, hcontiguous, hsame]; exact h.settled.acknowledged,
      by rw [hcontiguous, hsame, hflush]; exact h.settled.waiting⟩
  rw [hsettled.deliver_eq] at hdiffer htwins
  exact ⟨s', _, hdiffer, htwins, hlimit, hsame, (hpoints _).2 (Or.inr (by omega))⟩

/-- An end inside the window shows right there, once a range reaches up to it. -/
theorem Twins.differ_inside (h : Twins finAt s t) (toServer : Bool) (hlt : t.buffer.base < finAt)
    (hend : finAt < t.buffer.windowEnd) (hwindow : finAt < t.windowEnd)
    (hhi : (finAt : ℤ) < t.buffer.base + 2 ^ 31) : Differ toServer s t := by
  by_cases hadm : t.buffer.Admits finAt t.buffer.windowEnd
  · apply h.differ_at toServer finAt le_rfl h.later hwindow (by omega) hhi
    rwa [max_eq_left hlt.le]
  · -- the ranges are as many as are kept, and every one lies before the end
    have hbefore : ∀ r ∈ t.buffer.covered, r.stop < finAt := by
      intro r hr
      by_contra htouches
      have hstart := (h.sound.wf.separated.nonempty r hr).le.trans (h.sound.wf.stop_le r hr)
      exact hadm ⟨hend, Or.inl ⟨r, hr, not_lt.1 htouches, hstart⟩⟩
    have hmany : maxHolesPerStream ≤ t.buffer.covered.length := by
      rw [← h.sound.rangeLimit_eq]
      by_contra hfew
      exact hadm ⟨hend, Or.inr (not_le.1 hfew)⟩
    obtain ⟨r, hr, hgap⟩ : ∃ r ∈ t.buffer.covered, t.buffer.contiguousEnd < r.start := by
      apply exists_past_firstHole h.sound.wf.separated h.sound.wf.start_ge
      exact lt_of_lt_of_le (by decide) hmany
    obtain ⟨s', t', hdiffer, htwins, hlimit, hbase, hmem⟩ :=
      h.extend toServer hr hgap (hbefore r hr)
      hend.le hwindow.le hhi
    have hends : t'.windowEnd = t.windowEnd ∧ t'.buffer.windowEnd = t.buffer.windowEnd := by
      rw [windowEnd, windowEnd, RangeBuffer.windowEnd, RangeBuffer.windowEnd,
        htwins.sound.byteLimit_eq, h.sound.byteLimit_eq, hbase, hlimit]
      exact ⟨rfl, rfl⟩
    apply hdiffer
    apply htwins.differ_at toServer finAt le_rfl htwins.later (hends.1 ▸ hwindow)
      (by omega) (by omega)
    rw [max_eq_left (by omega), hends.2]
    obtain ⟨r', hr', hstart, hstop⟩ := hmem
    exact ⟨hend, Or.inl ⟨r', hr', Nat.le_of_pred_lt hstop,
      hstart.trans ((Nat.sub_le _ _).trans hend.le)⟩⟩

/-- An end past the window shows once the window has moved on to it. -/
theorem Twins.differ_ahead (toServer : Bool) (distance : ℕ) :
    ∀ {s t : Stream}, Twins finAt s t → finAt - t.buffer.base ≤ distance → t.byteLimit < 2 ^ 31 →
      t.buffer.base < finAt → finAt + 2 ^ 31 < u64Max → Differ toServer s t := by
  induction distance with
  | zero => intro s t _ hdistance _ hlt; omega
  | succ distance ih =>
    intro s t h hdistance hlimit hlt hfits
    have hpos := h.sound.wf.byteLimit_pos
    have hwindow : t.buffer.windowEnd = min (t.buffer.base + t.byteLimit) u64Max := by
      rw [RangeBuffer.windowEnd, satAdd, h.sound.byteLimit_eq]
    rw [h.sound.byteLimit_eq] at hpos
    rw [u64Max] at hwindow hfits
    have hnowrap := windowEnd_of_lt (s := t) (by omega)
    by_cases hinside : finAt < t.buffer.windowEnd
    · exact h.differ_inside toServer hlt hinside (by omega) (by omega)
    · have hroom : t.buffer.base < t.buffer.windowEnd := by omega
      have hflush := h.sound.flush_le
      obtain ⟨s', t', hdiffer, htwins, hlimit', _, hfull, hbelow, _⟩ := h.fill toServer
        hlt (by omega) le_rfl (by omega) le_rfl (admits_window h.sound.wf hroom)
      have hmoved := hfull (by omega)
      have hpast : ∀ x ∈ points t.buffer.covered, x < t.buffer.windowEnd := by
        rintro x ⟨r, hr, _, hx⟩
        exact hx.trans_le (h.sound.wf.stop_le r hr)
      have hstopped : t'.buffer.base ≤ t.buffer.windowEnd := by
        by_contra hover
        rcases hbelow t.buffer.windowEnd hroom.le (not_le.1 hover) with hmem | hself
        · exact lt_irrefl _ (hpast _ hmem)
        · exact lt_irrefl _ hself
      apply hdiffer
      by_cases hreached : t'.buffer.base < finAt
      · exact ih htwins (by omega) (hlimit' ▸ hlimit) hreached hfits
      · have hnowrap' := windowEnd_of_lt (s := t') (by omega)
        exact htwins.differ_behind toServer (not_lt.1 hreached) (by omega) (by omega) hfits

/-- Whatever else is waiting, the peer can acknowledge just the next byte. -/
theorem exists_acknowledge (h : t.Sound) (hsettled : t.Settled) (hest : t.established = true)
    (hgap : t.buffer.base < t.buffer.contiguousEnd) :
    ∃ acknowledgment, ((t.acknowledge acknowledgment).deliver false).1.buffer.base =
      t.buffer.base + 1 := by
  have hwait := hsettled.waiting
  have hnoted := hsettled.acknowledged
  refine ⟨t.baseSequence + UInt32.ofNat 1, ?_⟩
  have hnext : t.acknowledge (t.baseSequence + UInt32.ofNat 1) =
      { t with acknowledgedUpto := max t.acknowledgedUpto (t.buffer.base + 1) } := by
    have habs := t.absolute_ahead (k := 1) (by decide)
    simp only [acknowledge, hest, habs, Bool.not_true, Bool.false_eq_true, if_false]
    rw [if_pos (by omega)]
    rfl
  obtain ⟨stop, hstop, _, _, _, hbase, _⟩ :=
    deliver_spec (h.acknowledge (t.baseSequence + UInt32.ofNat 1)) false
  rw [hbase, hstop, hnext]
  simp only [deliverLimit, Bool.false_eq_true, if_false]
  rw [if_neg (by omega)]
  omega

theorem act_acknowledge (s : Stream) (toServer : Bool) (acknowledgment : UInt32) :
    s.act toServer (.push ⟨!toServer, ⟨0, acknowledgment, Flags.ack, []⟩, .last, .last⟩) =
      (s.acknowledge acknowledgment).deliver false := by
  have hother : (!toServer) ≠ toServer := by simp
  have hack : (⟨0, acknowledgment, Flags.ack, []⟩ : TcpSegment).has Flags.ack = true := by
    change (Flags.ack &&& Flags.ack != 0) = true
    decide
  rw [act, receive, if_neg hother, if_pos hack]

/-- A byte that is waiting can be acknowledged, and the base of both twins moves on by one. -/
theorem Twins.acknowledge (h : Twins finAt s t) (toServer : Bool)
    (hgap : t.buffer.base < t.buffer.contiguousEnd) :
    ∃ s' t', (Differ toServer s' t' → Differ toServer s t) ∧ Twins finAt s' t' ∧
      t'.byteLimit = t.byteLimit ∧ t'.buffer.base = t.buffer.base + 1 := by
  obtain ⟨acknowledgment, hnext⟩ := exists_acknowledge h.sound h.settled h.established hgap
  have hfields (u : Stream) : (u.acknowledge acknowledgment).finAt = u.finAt ∧
      (u.acknowledge acknowledgment).established = u.established ∧
      (u.acknowledge acknowledgment).byteLimit = u.byteLimit := by
    simp only [Stream.acknowledge]
    split_ifs <;> exact ⟨rfl, rfl, rfl⟩
  have hsound := h.sound.acknowledge acknowledgment
  refine ⟨((s.acknowledge acknowledgment).deliver false).1,
    ((t.acknowledge acknowledgment).deliver false).1, ?_, ?_, (hfields t).2.2, hnext⟩
  · intro hdiffer
    apply Differ.of_act (.push ⟨!toServer, ⟨0, acknowledgment, Flags.ack, []⟩, .last, .last⟩)
    rw [act_acknowledge, act_acknowledge]
    exact hdiffer
  · exact ⟨((h.alike.acknowledge acknowledgment).deliver false).1, (hfields s).1.trans h.finAt_eq,
      fun finAt' hfin' => h.later finAt' ((hfields t).1 ▸ hfin'), hsound.deliver false,
      hsound.settled_deliver, (hfields t).2.1.trans h.established⟩

theorem Twins.flush (h : Twins finAt s t) (toServer : Bool) :
    Twins finAt (s.act toServer .flush).1 (t.act toServer .flush).1 where
  alike := (h.alike.deliver true).1.discard
  finAt_eq := h.finAt_eq
  later := h.later
  sound := (h.sound.act toServer .flush).1
  settled := (h.sound.act toServer .flush).2
  established := h.established

/-- The end of the window has wrapped, so far that no sequence number lies below it, or to zero with
no byte waiting that could move it on. -/
def Shut (s : Stream) : Prop :=
  2 ^ 64 ≤ s.buffer.base + s.byteLimit ∧
    (s.byteLimit + 2 ^ 31 ≤ 2 ^ 64 ∨
      s.buffer.base + s.byteLimit = 2 ^ 64 ∧ s.buffer.contiguousEnd = s.buffer.base)

/-- Where the end of the window has wrapped, the base can be moved on by one. -/
theorem Twins.advance (h : Twins finAt s t) (toServer : Bool)
    (hwraps : 2 ^ 64 ≤ t.buffer.base + t.byteLimit) (hlimit : t.byteLimit < 2 ^ 64)
    (hopen : ¬ t.Shut) (hle : t.windowEnd ≤ finAt) (hfits : t.buffer.base + 1 < u64Max) :
    ∃ s' t', (Differ toServer s' t' → Differ toServer s t) ∧ Twins finAt s' t' ∧
      t'.byteLimit = t.byteLimit ∧ t'.buffer.base = t.buffer.base + 1 := by
  rw [u64Max] at hfits
  have hlo := h.sound.wf.base_le_contiguousEnd
  have hwindow := windowEnd_of_wraps hwraps (by omega) hlimit
  rw [Shut, not_and_or, not_or, not_and_or] at hopen
  by_cases hgap : t.buffer.base < t.buffer.contiguousEnd
  · exact h.acknowledge toServer hgap
  · -- with nothing waiting, a segment that starts behind the window's end brings the next byte
    have hempty := h.flush toServer
    obtain ⟨_, hlast, _, _, _, hbase, _⟩ := deliver_spec h.sound true
    have hbase' : (t.act toServer .flush).1.buffer.base = t.buffer.base := by
      change (t.deliver true).1.buffer.base = t.buffer.base
      rw [hbase, hlast]
      omega
    have hcovered : points (t.act toServer .flush).1.buffer.covered = ∅ := by
      change points [] = ∅
      simp [points]
    have hwindow' : (t.act toServer .flush).1.windowEnd = t.windowEnd := by
      rw [windowEnd, windowEnd, hbase']
      rfl
    have hend : (t.act toServer .flush).1.buffer.windowEnd = u64Max := by
      rw [RangeBuffer.windowEnd, satAdd, hempty.sound.byteLimit_eq, hbase', u64Max]
      change min (t.buffer.base + t.byteLimit) _ = _
      omega
    have hadm : (t.act toServer .flush).1.buffer.Admits (t.act toServer .flush).1.buffer.base
        (t.buffer.base + 1) :=
      admits_from_base hempty.sound.wf (by omega) (fun r hr => absurd hr (by
        change r ∉ []
        simp))
    have hfin' : t.windowEnd - 1 < finAt := by omega
    obtain ⟨s', t', hdiffer, htwins, hlimit', hgrows, _, hbelow, hpoints⟩ := hempty.fill toServer
      hfin' (by omega) (by omega) (by omega) (by rw [hend, u64Max]; omega) hadm
    rw [hbase', hcovered] at hbelow hpoints
    have hat : t'.buffer.base ≤ t.buffer.base + 1 := by
      by_contra hover
      have := hbelow (t.buffer.base + 1) (by omega) (by omega)
      simp at this
    by_cases hmoved : t'.buffer.base = t.buffer.base + 1
    · exact ⟨s', t', fun hd => Differ.of_act .flush (hdiffer hd), htwins, hlimit', hmoved⟩
    · -- the byte is held back until it is acknowledged
      have hheld : t.buffer.base ∈ points t'.buffer.covered :=
        (hpoints _).2 ⟨Or.inr (by omega), by omega⟩
      have hgap' : t'.buffer.base < t'.buffer.contiguousEnd := by
        have hle' := htwins.sound.wf.base_le_contiguousEnd
        have hhole := firstHole_not_mem htwins.sound.wf.separated htwins.sound.wf.start_ge
        rcases hle'.lt_or_eq with hlt | heq
        · exact hlt
        · refine absurd hheld ?_
          rw [show t.buffer.base = t'.buffer.contiguousEnd by omega]
          exact hhole
      obtain ⟨s'', t'', hdiffer', htwins', hlimit'', hnext⟩ := htwins.acknowledge toServer hgap'
      exact ⟨s'', t'', fun hd => Differ.of_act .flush (hdiffer (hdiffer' hd)), htwins',
        hlimit''.trans hlimit', hnext.trans (by omega)⟩

/-- An end behind a window whose own end has wrapped shows once that end has moved past it. -/
theorem Twins.differ_wrapped (toServer : Bool) (distance : ℕ) :
    ∀ {s t : Stream}, Twins finAt s t → finAt + 1 - t.windowEnd ≤ distance →
      2 ^ 64 ≤ t.buffer.base + t.byteLimit → t.byteLimit < 2 ^ 64 → ¬ t.Shut →
      (t.buffer.base : ℤ) - 2 ^ 31 ≤ finAt → finAt + 2 ^ 32 < u64Max → Differ toServer s t := by
  induction distance with
  | zero =>
    intro s t h hdistance hwraps hlimit _ hlo hfits
    rw [u64Max] at hfits
    have hwindow := windowEnd_of_wraps hwraps (by omega) hlimit
    have hroom : t.buffer.base < t.buffer.windowEnd := by
      rw [RangeBuffer.windowEnd, satAdd, h.sound.byteLimit_eq, u64Max]
      omega
    apply h.differ_at toServer finAt le_rfl h.later (by omega) hlo (by omega)
    rw [max_eq_right (by omega)]
    exact admits_window h.sound.wf hroom
  | succ distance ih =>
    intro s t h hdistance hwraps hlimit hopen hlo hfits
    by_cases hpast : finAt < t.windowEnd
    · exact ih h (by omega) hwraps hlimit hopen hlo hfits
    · rw [u64Max] at hfits
      have hwindow := windowEnd_of_wraps hwraps (by omega) hlimit
      obtain ⟨s', t', hdiffer, htwins, hlimit', hbase⟩ := h.advance toServer hwraps hlimit hopen
        (not_lt.1 hpast) (by rw [u64Max]; omega)
      rw [Shut, not_and_or, not_or] at hopen
      have hwindow' := windowEnd_of_wraps (s := t') (by omega) (by omega) (by omega)
      apply hdiffer
      apply ih htwins (by omega) (by omega) (by omega) _ (by omega) (by rw [u64Max]; omega)
      rintro ⟨_, hfar | ⟨hzero, _⟩⟩
      · omega
      · omega

end Stream
end CyberSentinel
