import CyberSentinel.StreamInvariant

/-!
# The sequence anchor

A direction is anchored by the first segment that has a SYN or bytes, at the sequence number its
data starts with. From then on the anchor moves with the base of the buffer, by a count cut to 32
bits, so that it stays congruent to the first one plus what has been delivered. The signed reading
of the difference to it is then the one offset within `2 ^ 31` of the base that a sequence number
can mean.
-/

namespace CyberSentinel

open Spans

/-- The sequence number a call anchors a direction at, if the direction is not anchored yet. -/
def PairOp.anchor (toServer : Bool) : PairOp → Option UInt32
  | .push q =>
    if q.toServer = toServer ∧ (q.segment.has Flags.syn = true ∨ q.segment.payload ≠ [])
    then some (Stream.dataSequence q.segment) else none
  | .flush => none

def anchorOf (toServer : Bool) (ops : List PairOp) : Option UInt32 :=
  ops.findSome? (PairOp.anchor toServer)

namespace Stream

/-- `absolute` in the 64-bit arithmetic of the code. -/
def absolute64 (s : Stream) (sequence : UInt32) : Int64 :=
  Int64.ofNat s.buffer.base + (sequence - s.baseSequence).toInt32.toInt64

theorem absolute64_eq (s : Stream) (sequence : UInt32) (hfits : s.buffer.base + 2 ^ 31 ≤ 2 ^ 63) :
    (s.absolute64 sequence).toInt = s.absolute sequence := by
  have hge := s.absolute_ge sequence
  have hlt := s.absolute_lt sequence
  have hbase : (Int64.ofNat s.buffer.base).toInt = s.buffer.base :=
    Int64.toInt_ofNat_of_lt (by omega)
  rw [absolute] at hge hlt
  rw [absolute64, absolute, Int64.toInt_add, hbase, Int32.toInt_toInt64]
  apply Int.bmod_eq_of_le
  · omega
  · omega

/-- The signed and the unsigned reading of a word agree modulo `2 ^ 32`. -/
theorem toInt32_modEq (word : UInt32) : word.toInt32.toInt ≡ word.toNat [ZMOD 2 ^ 32] := by
  have hbits : word.toInt32.toInt = (word.toNat : ℤ).bmod (2 ^ 32) := by
    change word.toBitVec.toInt = _
    rw [BitVec.toInt_eq_toNat_bmod]
    rfl
  rw [hbits]
  exact Int.bmod_emod

/-- Where the base is as far from the first sequence number as the anchor is, an offset within `2 ^
31` of the base is that of a sequence number exactly if it is congruent to it. -/
theorem absolute_iff {s : Stream} {first : UInt32}
    (hanchor : s.baseSequence = first + UInt32.ofNat s.buffer.base) (sequence : UInt32) (x : ℤ) :
    ((s.buffer.base : ℤ) - 2 ^ 31 ≤ x ∧ x < s.buffer.base + 2 ^ 31 ∧
      x ≡ sequence.toNat - first.toNat [ZMOD 2 ^ 32]) ↔ x = s.absolute sequence := by
  have hmod : s.absolute sequence ≡ sequence.toNat - first.toNat [ZMOD 2 ^ 32] := by
    have hword := toInt32_modEq (sequence - s.baseSequence)
    have hdiff : ((sequence - s.baseSequence).toNat : ℤ) ≡
        sequence.toNat - (first.toNat + s.buffer.base) [ZMOD 2 ^ 32] := by
      rw [hanchor, UInt32.toNat_sub, UInt32.toNat_add, UInt32.toNat_ofNat', Int.ModEq]
      omega
    have hsum := (hword.trans hdiff).add_left (s.buffer.base : ℤ)
    rw [absolute]
    exact hsum.trans (by rw [Int.ModEq]; congr 1; ring)
  constructor
  · rintro ⟨hge, hlt, hx⟩
    -- two congruent offsets less than `2 ^ 32` apart
    have hge' := s.absolute_ge sequence
    have hlt' := s.absolute_lt sequence
    have hsame : x ≡ s.absolute sequence [ZMOD 2 ^ 32] := hx.trans hmod.symm
    rw [Int.ModEq] at hsame
    omega
  · intro hx
    rw [hx]
    exact ⟨s.absolute_ge sequence, s.absolute_lt sequence, hmod⟩

/-- What holds of a direction with the given anchor that has delivered these bytes. -/
structure Anchored (anchor : Option UInt32) (out : List UInt8) (s : Stream) : Prop where
  sound : s.Sound
  established_eq : s.established = anchor.isSome
  base_eq : s.buffer.base = out.length
  counted : s.counters.bytesDelivered = out.length
  sequence_eq : ∀ first ∈ anchor, s.baseSequence = first + UInt32.ofNat out.length

/-- A segment with a SYN or bytes anchors a direction, at the sequence number of its data. -/
theorem establish_anchor {s : Stream} (h : s.established = false) (segment : TcpSegment) :
    ((s.establish segment).established = true ↔
        segment.has Flags.syn = true ∨ segment.payload ≠ []) ∧
      ((s.establish segment).established = true →
        (s.establish segment).baseSequence = dataSequence segment) := by
  simp only [establish, h, Bool.false_eq_true, if_false]
  split_ifs with hsyn hpayload
  · exact ⟨iff_of_true rfl (.inl hsyn), fun _ => by rw [dataSequence, if_pos hsyn]⟩
  · refine ⟨iff_of_true rfl (.inr ?_), fun _ => by rw [dataSequence, if_neg hsyn]⟩
    simpa using hpayload
  · refine ⟨iff_of_false (by simp [h]) ?_, fun hest => absurd hest (by simp [h])⟩
    rintro (hyes | hne)
    · exact hsyn hyes
    · exact hpayload (by simpa using hne)

theorem push_anchor (s : Stream) (segment : TcpSegment) (policy : OverlapPolicy) :
    (s.push segment policy).established = (s.establish segment).established ∧
      (s.push segment policy).baseSequence = (s.establish segment).baseSequence := by
  rw [push_eq]
  split_ifs with hest
  · rw [noteFin_eq, take]
    split_ifs
    · exact ⟨rfl, rfl⟩
    · rw [store_eq, countSegment_eq]
      exact ⟨rfl, rfl⟩
  · rw [Bool.not_eq_true] at hest
    rw [(establish_eq_of_not_established s segment hest).1]
    exact ⟨rfl, rfl⟩

theorem acknowledge_anchor (s : Stream) (acknowledgment : UInt32) :
    (s.acknowledge acknowledgment).established = s.established ∧
      (s.acknowledge acknowledgment).baseSequence = s.baseSequence := by
  simp only [acknowledge]
  split_ifs <;> exact ⟨rfl, rfl⟩

namespace Anchored

variable {anchor : Option UInt32} {out : List UInt8} {s : Stream}

theorem new (byteLimit flushBytes : ℕ) (hpos : 1 ≤ flushBytes) (hle : flushBytes ≤ byteLimit) :
    Anchored none [] (Stream.new byteLimit flushBytes) where
  sound := sound_new byteLimit flushBytes hpos hle
  established_eq := rfl
  base_eq := rfl
  counted := rfl
  sequence_eq := fun first hfirst => absurd hfirst (Option.not_mem_none first)

theorem receive (h : s.Anchored anchor out) (toServer : Bool) (q : Push) :
    (s.receive toServer q).Anchored (anchor.or ((PairOp.push q).anchor toServer)) out := by
  obtain ⟨hsound, hbase⟩ := h.sound.receive toServer q
  have hcounted := (s.receive_counters toServer q).1.trans h.counted
  have hkeeps (hest : (s.receive toServer q).established = s.established)
      (hseq : (s.receive toServer q).baseSequence = s.baseSequence) :
      (s.receive toServer q).Anchored anchor out :=
    ⟨hsound, hest.trans h.established_eq, hbase.trans h.base_eq, hcounted,
      fun first hfirst => hseq.trans (h.sequence_eq first hfirst)⟩
  by_cases hside : q.toServer = toServer
  · have hreceive : s.receive toServer q = s.push q.segment (q.policy toServer) := if_pos hside
    obtain ⟨hest, hseq⟩ := s.push_anchor q.segment (q.policy toServer)
    rw [← hreceive] at hest hseq
    cases hanchor : anchor with
    | some first =>
      have hyes : s.established = true := by rw [h.established_eq, hanchor]; rfl
      rw [establish_of_established hyes] at hest hseq
      rw [Option.some_or, ← hanchor]
      exact hkeeps hest hseq
    | none =>
      have hno : s.established = false := by rw [h.established_eq, hanchor]; rfl
      have hzero : out.length = 0 := h.base_eq.symm.trans (h.sound.idle hno).1
      obtain ⟨hiff, hfirst⟩ := establish_anchor hno q.segment
      rw [Option.none_or]
      by_cases hcan : q.segment.has Flags.syn = true ∨ q.segment.payload ≠ []
      · have hyes := hiff.2 hcan
        rw [PairOp.anchor, if_pos ⟨hside, hcan⟩]
        constructor
        · exact hsound
        · exact hest.trans hyes
        · exact hbase.trans h.base_eq
        · exact hcounted
        · intro first hmem
          rw [hseq, hfirst hyes, ← Option.some.inj hmem, hzero]
          exact (UInt32.add_zero _).symm
      · rw [PairOp.anchor, if_neg (fun hboth => hcan hboth.2), ← hanchor]
        have hnot := Bool.eq_false_iff.2 (fun hyes => hcan (hiff.1 hyes))
        rw [(establish_eq_of_not_established s q.segment hnot).1] at hest hseq
        exact hkeeps hest hseq
  · rw [PairOp.anchor, if_neg (fun hboth => hside hboth.1), Option.or_none]
    by_cases hack : q.segment.has Flags.ack = true
    · have hreceive : s.receive toServer q = s.acknowledge q.segment.acknowledgment := by
        rw [Stream.receive, if_neg hside, if_pos hack]
      obtain ⟨hest, hseq⟩ := s.acknowledge_anchor q.segment.acknowledgment
      rw [← hreceive] at hest hseq
      exact hkeeps hest hseq
    · have hreceive : s.receive toServer q = s := by
        rw [Stream.receive, if_neg hside, if_neg hack]
      exact hkeeps (by rw [hreceive]) (by rw [hreceive])

/-- The anchor moves with the base, by as much as is delivered, in 32 bits. -/
theorem deliver (h : s.Anchored anchor out) (force : Bool) :
    (s.deliver force).1.Anchored anchor (out ++ (s.deliver force).2) := by
  obtain ⟨stop, _, hlo, _, _, hbase, _, _, hlength⟩ := deliver_spec h.sound force
  have hout : (out ++ (s.deliver force).2).length = stop := by
    rw [List.length_append, hlength, ← h.base_eq]
    omega
  constructor
  · exact h.sound.deliver force
  · exact h.established_eq
  · rw [hbase, hout]
  · have hcount : (s.deliver force).1.counters.bytesDelivered =
        s.counters.bytesDelivered + (s.deliver force).2.length := rfl
    rw [hcount, h.counted, List.length_append]
  · intro first hfirst
    have hmoved : (s.deliver force).1.baseSequence =
        s.baseSequence + UInt32.ofNat (s.deliver force).2.length := rfl
    rw [hmoved, h.sequence_eq first hfirst, List.length_append, UInt32.ofNat_add, UInt32.add_assoc]

theorem discard (h : s.Anchored anchor out) : s.discard.Anchored anchor out :=
  ⟨h.sound.discard, h.established_eq, h.base_eq, h.counted, h.sequence_eq⟩

theorem act (h : s.Anchored anchor out) (toServer : Bool) (op : PairOp) :
    (s.act toServer op).1.Anchored (anchor.or (op.anchor toServer))
      (out ++ (s.act toServer op).2) := by
  cases op with
  | push q => exact (h.receive toServer q).deliver false
  | flush =>
    rw [PairOp.anchor, Option.or_none]
    exact (h.deliver true).discard

theorem run (h : s.Anchored anchor out) (toServer : Bool) (ops : List PairOp) :
    (Runs.run (Stream.act toServer) s ops).1.Anchored (anchor.or (anchorOf toServer ops))
      (out ++ (Runs.run (Stream.act toServer) s ops).2.flatten) := by
  induction ops generalizing s anchor out with
  | nil =>
    rw [anchorOf, List.findSome?_nil, Option.or_none, Runs.run_nil, List.flatten_nil,
      List.append_nil]
    exact h
  | cons op rest ih =>
    have hfirst : anchorOf toServer (op :: rest) =
        (op.anchor toServer).or (anchorOf toServer rest) := by
      rw [anchorOf, List.findSome?_cons]
      cases op.anchor toServer <;> rfl
    rw [hfirst, ← Option.or_assoc, Runs.run_cons, List.flatten_cons, ← List.append_assoc]
    exact ih (h.act toServer op)

end Anchored
end Stream

theorem after_anchored (config : ReassemblyConfig) (ops : List PairOp) (toServer : Bool) :
    ((StreamPair.after config ops).side toServer).Anchored (anchorOf toServer ops)
      (delivered toServer (Runs.run StreamPair.act (StreamPair.new config) ops).2) := by
  have hpos : 1 ≤ StreamPair.flushOf config := by
    rw [StreamPair.flushOf, StreamPair.limitOf]
    omega
  have hnew := Stream.Anchored.new (StreamPair.limitOf config) (StreamPair.flushOf config) hpos
    (min_le_right _ _)
  obtain ⟨hstate, hreadies⟩ := run_side (StreamPair.new config) ops toServer
  have hrun := hnew.run toServer ops
  rw [← side_new_eq config toServer, ← hstate, ← hreadies, Option.none_or, List.nil_append] at hrun
  exact hrun

/-- Whatever is pushed and flushed: a direction is anchored once a segment with a SYN or bytes has
come. Then the base of its buffer is the number of bytes delivered, its base sequence number is the
first data sequence number plus that many modulo `2 ^ 32`, and the offset of every sequence number
is the one within `2 ^ 31` of the base that is congruent to its distance from the first. The 64-bit
arithmetic of the code gives that offset as long as the offsets fit in it. -/
theorem anchor_survives_wrap (config : ReassemblyConfig) (ops : List PairOp) (toServer : Bool) :
    let s := (StreamPair.after config ops).side toServer
    let total := (delivered toServer (Runs.run StreamPair.act (StreamPair.new config) ops).2).length
    s.established = (anchorOf toServer ops).isSome ∧ s.buffer.base = total ∧
      s.counters.bytesDelivered = total ∧
      ∀ first ∈ anchorOf toServer ops,
        s.baseSequence.toNat = (first.toNat + s.buffer.base) % 2 ^ 32 ∧
        (∀ (sequence : UInt32) (x : ℤ),
          ((s.buffer.base : ℤ) - 2 ^ 31 ≤ x ∧ x < s.buffer.base + 2 ^ 31 ∧
            x ≡ sequence.toNat - first.toNat [ZMOD 2 ^ 32]) ↔ x = s.absolute sequence) ∧
        (s.buffer.base + 2 ^ 31 ≤ 2 ^ 63 →
          ∀ sequence, (s.absolute64 sequence).toInt = s.absolute sequence) := by
  intro s total
  have h := after_anchored config ops toServer
  refine ⟨h.established_eq, h.base_eq, h.counted, ?_⟩
  intro first hfirst
  have hanchor : s.baseSequence = first + UInt32.ofNat s.buffer.base := by
    rw [h.sequence_eq first hfirst, ← h.base_eq]
  refine ⟨?_, Stream.absolute_iff hanchor, fun hfits sequence => s.absolute64_eq sequence hfits⟩
  rw [hanchor, UInt32.toNat_add, UInt32.toNat_ofNat', Nat.add_mod_mod]

end CyberSentinel
