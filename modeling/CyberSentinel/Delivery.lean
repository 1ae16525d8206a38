import CyberSentinel.StreamInvariant

/-!
# When bytes are delivered, and which resets are believed

A push delivers a byte when the peer has acknowledged it, or when so much has gathered that the
whole contiguous run goes. A reset is believed when its sequence number maps to an offset that is
not negative and not too far past the stored bytes. The mapping is centred at the base, so once
bytes have been delivered the offsets below the base are believed as well.
-/

namespace CyberSentinel

open Spans

/-- The `i`-th byte of a delivery is the one stored `i` places past the base. -/
theorem Stream.getElem?_deliver {s : Stream} (h : s.Sound) (force : Bool) {i : ℕ}
    (hi : i < (s.deliver force).2.length) :
    (s.deliver force).2[i]? = s.buffer.byteAt (s.buffer.base + i) := by
  obtain ⟨stop, _, _, hhi, _, _, _, hout, hlen⟩ := Stream.deliver_spec h force
  have hmap := RangeBuffer.take_data_eq h.wf hhi
  rw [hlen] at hi
  have hat := congrArg (fun l => l[i]?) hmap
  simp only [List.getElem?_map, List.getElem?_range' hi, Nat.one_mul, Option.map_some] at hat
  obtain ⟨v, hv, hbyte⟩ := Option.map_eq_some_iff.1 hat
  rw [hout, hv, ← hbyte]

/-- After every push the acknowledged bytes are gone and fewer than the flush threshold wait in
order; and a push delivers a byte only if it is acknowledged by then, or if the run it stands in had
reached the threshold, which is counted. -/
theorem delivery_gated (config : ReassemblyConfig) (ops : List PairOp) (q : Push)
    (toServer : Bool) :
    let p := StreamPair.after config ops
    let arrived := (p.side toServer).receive toServer q
    let run := arrived.buffer.contiguousEnd - arrived.buffer.base
    let s := (p.step q).1.side toServer
    let ready := (p.step q).2.side toServer
    min s.acknowledgedUpto s.buffer.contiguousEnd ≤ s.buffer.base ∧
      s.buffer.contiguousEnd - s.buffer.base < StreamPair.flushOf config ∧
      ∀ i < ready.length,
        ready[i]? = arrived.buffer.byteAt (arrived.buffer.base + i) ∧
          (arrived.buffer.base + i < s.acknowledgedUpto ∨
            StreamPair.flushOf config ≤ run ∧
              s.counters.flushedUnacked = (p.side toServer).counters.flushedUnacked + run) := by
  intro p arrived run s ready
  have hsound : arrived.Sound := ((after_sound config ops toServer).1.receive toServer q).1
  have hflush : arrived.flushBytes = StreamPair.flushOf config :=
    ((p.side toServer).receive_limits toServer q).2.trans (after_limits config ops toServer).2
  have hcounted : arrived.counters.flushedUnacked = (p.side toServer).counters.flushedUnacked :=
    ((p.side toServer).receive_counters toServer q).2.1
  have hs : s = (arrived.deliver false).1 := (step_side p q toServer).1
  have hready : ready = (arrived.deliver false).2 := (step_side p q toServer).2
  have hsettled : s.Settled := hs ▸ hsound.settled_deliver
  have hthreshold : s.flushBytes = StreamPair.flushOf config := by rw [hs, ← hflush]; rfl
  refine ⟨hsettled.acknowledged, hthreshold ▸ hsettled.waiting, ?_⟩
  intro i hi
  rw [hready] at hi ⊢
  refine ⟨Stream.getElem?_deliver hsound false hi, ?_⟩
  obtain ⟨stop, hstop, _, _, _, _, _, _, hlen⟩ := Stream.deliver_spec hsound false
  have hack : s.acknowledgedUpto = arrived.acknowledgedUpto := by rw [hs]; rfl
  rw [hlen] at hi
  by_cases hfull : arrived.flushBytes ≤ arrived.buffer.contiguousEnd - arrived.buffer.base
  · right
    refine ⟨hflush ▸ hfull, ?_⟩
    rw [hs, ← hcounted]
    simp only [Stream.deliver, Bool.not_false, Bool.true_and, decide_eq_true hfull, if_true]
    rfl
  · left
    simp only [Stream.deliverLimit, Bool.false_eq_true, if_false, if_neg hfull] at hstop
    rw [hack]
    omega

def StreamPair.rstTarget (p : StreamPair) (toServer : Bool) : Set UInt32 :=
  {sequence | p.rstShouldClose toServer sequence = true}

theorem mem_rstTarget_iff (p : StreamPair) (toServer : Bool) (sequence : UInt32) :
    sequence ∈ p.rstTarget toServer ↔ (p.side toServer).established = true ∧
      0 ≤ (p.side toServer).absolute sequence ∧ (p.side toServer).absolute sequence ≤
        (p.side toServer).buffer.coveredEnd + rstSequenceSlack := by
  simp only [StreamPair.rstTarget, Set.mem_ofPred_eq, StreamPair.rstShouldClose,
    Stream.rstIsInWindow]
  by_cases hest : (p.side toServer).established = true
  · simp only [hest, Bool.not_true, Bool.false_eq_true, if_false, Bool.and_eq_true,
      decide_eq_true_eq, true_and]
    omega
  · simp [hest]

/-- Believed resets are at most one for each offset up to the slack past the stored bytes. -/
theorem ncard_rstTarget_le (p : StreamPair) (toServer : Bool) :
    (p.rstTarget toServer).ncard ≤ (p.side toServer).buffer.coveredEnd + rstSequenceSlack + 1 := by
  have hmaps : ∀ sequence ∈ p.rstTarget toServer, ((p.side toServer).absolute sequence).toNat ∈
      Set.Ico 0 ((p.side toServer).buffer.coveredEnd + rstSequenceSlack + 1) := by
    intro sequence hmem
    obtain ⟨_, hpos, hle⟩ := (mem_rstTarget_iff p toServer sequence).1 hmem
    rw [Set.mem_Ico]
    omega
  have hinj : Set.InjOn (fun sequence => ((p.side toServer).absolute sequence).toNat)
      (p.rstTarget toServer) := by
    intro x hx y hy hxy
    have hx := ((mem_rstTarget_iff p toServer x).1 hx).2.1
    have hy := ((mem_rstTarget_iff p toServer y).1 hy).2.1
    apply (p.side toServer).absolute_injective
    simp only at hxy
    omega
  have hcard := Set.ncard_le_ncard_of_injOn _ hmaps hinj (Set.finite_Ico _ _)
  rwa [Set.ncard_Ico_nat, Nat.sub_zero] at hcard

/-- The believed resets all lie between the base and the slack past the stored bytes, and are no
more than that, as long as nothing has been delivered in the direction, and only then. -/
theorem rst_target_bounded_iff (config : ReassemblyConfig) (ops : List PairOp) (toServer : Bool) :
    let p := StreamPair.after config ops
    let s := p.side toServer
    ((∀ sequence, p.rstShouldClose toServer sequence = true →
        (s.buffer.base : ℤ) ≤ s.absolute sequence ∧
          s.absolute sequence ≤ s.buffer.coveredEnd + 65535) ∧
      {sequence | p.rstShouldClose toServer sequence = true}.ncard ≤
        (s.buffer.coveredEnd - s.buffer.base) + 65536) ↔ s.buffer.base = 0 := by
  intro p s
  have hsound : s.Sound := (after_sound config ops toServer).1
  have htarget : ∀ sequence, sequence ∈ p.rstTarget toServer ↔ s.established = true ∧
      0 ≤ s.absolute sequence ∧ s.absolute sequence ≤ s.buffer.coveredEnd + rstSequenceSlack :=
    mem_rstTarget_iff p toServer
  constructor
  · rintro ⟨hrange, _⟩
    by_contra hbase
    -- one before the base is believed as soon as there is such an offset
    have hest : s.established = true := by
      by_contra hno
      exact hbase (hsound.idle (Bool.eq_false_iff.2 hno)).1
    have hoff : s.absolute (s.baseSequence - 1) = s.buffer.base - 1 :=
      s.absolute_behind (k := 1) (by omega) (by grind)
    have hend := hsound.wf.base_le_contiguousEnd.trans hsound.wf.contiguousEnd_le_coveredEnd
    have hbelieved : s.baseSequence - 1 ∈ p.rstTarget toServer := by
      rw [htarget]
      refine ⟨hest, ?_, ?_⟩
      · rw [hoff]
        omega
      · rw [hoff]
        omega
    have := (hrange _ hbelieved).1
    omega
  · intro hbase
    constructor
    · intro sequence hbelieved
      obtain ⟨_, hpos, hle⟩ := (htarget sequence).1 hbelieved
      exact ⟨by omega, hle⟩
    · have hcard := ncard_rstTarget_le p toServer
      rw [hbase, Nat.sub_zero]
      exact hcard

/-- Two bytes are delivered, and a reset with the sequence number of the first one is believed. -/
theorem rst_behind_base_believed :
    ¬ ∀ (config : ReassemblyConfig) (ops : List PairOp) (toServer : Bool),
      let p := StreamPair.after config ops
      let s := p.side toServer
      (∀ sequence, p.rstShouldClose toServer sequence = true →
        (s.buffer.base : ℤ) ≤ s.absolute sequence ∧
          s.absolute sequence ≤ s.buffer.coveredEnd + 65535) ∧
      {sequence | p.rstShouldClose toServer sequence = true}.ncard ≤
        (s.buffer.coveredEnd - s.buffer.base) + 65536 := by
  intro h
  have hbelieved := (h {} [.push ⟨true, ⟨1000, 0, 0, [1, 2]⟩, .first, .first⟩,
    .push ⟨false, ⟨5000, 1002, Flags.ack, []⟩, .first, .first⟩] true).1 1000 (by decide +kernel)
  exact absurd hbelieved.1 (by decide +kernel)

end CyberSentinel
