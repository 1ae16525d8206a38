import CyberSentinel.Delivery

/-!
# Data past the FIN

Once a FIN has fixed the end of a direction, a segment that starts at the end or past it is
rejected. A segment that starts before the end, and inside the window, is written whole, so the
bytes it carries past the end are stored, counted and later delivered like any others. Nothing is
taken past the FIN exactly when no such segment brings a byte there that the buffer would take.
-/

namespace CyberSentinel

open Spans

namespace Stream

def EndsAnchored (s : Stream) : Prop := s.finAt ≠ none → s.established = true

theorem take_established (s : Stream) (segment : TcpSegment) (policy : OverlapPolicy) :
    (s.take segment policy).established = s.established := by
  unfold take
  split_ifs
  · rfl
  · rw [store_established, countSegment_eq]

theorem EndsAnchored.receive {s : Stream} (h : s.EndsAnchored) (toServer : Bool) (q : Push) :
    (s.receive toServer q).EndsAnchored := by
  unfold Stream.receive
  split_ifs
  · rw [push_eq]
    split_ifs with hest
    · intro _
      rw [noteFin_eq]
      exact (take_established _ _ _).trans hest
    · exact h
  · simp only [Stream.acknowledge]
    split_ifs <;> exact h
  · exact h

theorem EndsAnchored.act {s : Stream} (h : s.EndsAnchored) (toServer : Bool) (op : PairOp) :
    (s.act toServer op).1.EndsAnchored := by
  cases op with
  | push q => exact h.receive toServer q
  | flush => exact h

/-- The buffer after a segment has arrived in the direction of an anchored stream. -/
theorem push_buffer {s : Stream} (hest : s.established = true) (segment : TcpSegment)
    (policy : OverlapPolicy) :
    (s.push segment policy).buffer =
      if s.buffer.base < s.absolute (dataSequence segment) + segment.payload.length ∧
        0 ≤ s.absolute (dataSequence segment) ∧
        (s.absolute (dataSequence segment)).toNat < s.windowEnd ∧
        ∀ finAt ∈ s.finAt, (s.absolute (dataSequence segment)).toNat < finAt
      then (s.buffer.write (s.absolute (dataSequence segment)).toNat segment.payload policy).1
      else s.buffer := by
  rw [push_of_established segment hest, noteFin_buffer, take]
  by_cases hempty : segment.payload.isEmpty = true
  · rw [if_pos hempty, List.isEmpty_iff.1 hempty]
    have hnothing : ∀ offset, (s.buffer.write offset [] policy).1 = s.buffer := fun _ => rfl
    rw [hnothing, ite_self]
  · rw [if_neg hempty, store_buffer, countSegment_absolute, countSegment_buffer,
      countSegment_windowEnd, countSegment_finAt]

/-- A payload at `offset` changes what the buffer holds at `x`: there is no byte yet, or another one
and the last copy counts. -/
def Takes (s : Stream) (offset : ℕ) (payload : List UInt8) (policy : OverlapPolicy)
    (x : ℕ) : Prop :=
  s.buffer.Admits (max offset s.buffer.base) (min (offset + payload.length) s.buffer.windowEnd) ∧
    max offset s.buffer.base ≤ x ∧ x < min (offset + payload.length) s.buffer.windowEnd ∧
    (s.buffer.byteAt x = none ∨ policy = .last ∧ s.buffer.byteAt x ≠ payload[x - offset]?)

theorem write_byteAt_eq_iff {s : Stream} (h : s.Sound) (offset : ℕ) (payload : List UInt8)
    (policy : OverlapPolicy) (x : ℕ) :
    (s.buffer.write offset payload policy).1.byteAt x = s.buffer.byteAt x ↔
      ¬ s.Takes offset payload policy x := by
  unfold Takes
  by_cases hadm : s.buffer.Admits (max offset s.buffer.base)
      (min (offset + payload.length) s.buffer.windowEnd)
  · rw [RangeBuffer.write_byteAt_of_admits h.wf offset payload policy hadm]
    by_cases hin : max offset s.buffer.base ≤ x ∧
        x < min (offset + payload.length) s.buffer.windowEnd
    · have hsome : payload[x - offset]? ≠ none := by
        rw [ne_eq, List.getElem?_eq_none_iff]
        omega
      by_cases hnone : s.buffer.byteAt x = none
      · simp [hadm, hin, hnone, hsome]
      · by_cases hlast : policy = .last
        · simp [hadm, hin, hnone, hlast, eq_comm]
        · simp [hnone, hlast]
    · have hout : ¬ (max offset s.buffer.base ≤ x ∧
          x < min (offset + payload.length) s.buffer.windowEnd ∧
          (s.buffer.byteAt x = none ∨ policy = .last ∧ s.buffer.byteAt x ≠ payload[x - offset]?)) :=
        fun h => hin ⟨h.1, h.2.1⟩
      simp only [hin, false_and, if_false, true_iff]
      exact fun h => hout h.2
  · rw [RangeBuffer.write_byteAt_of_not_admits h.wf offset payload policy hadm]
    simp [hadm]

/-- No segment of the direction that starts inside the window and before the end brings a byte that
the buffer would take at the end or past it. -/
def StopsAtFin (toServer : Bool) (s : Stream) : PairOp → Prop
  | .push q => q.toServer = toServer → ∀ finAt ∈ s.finAt, ∀ offset : ℕ,
      s.absolute (dataSequence q.segment) = offset → offset < s.windowEnd → offset < finAt →
        ∀ x ≥ finAt, ¬ s.Takes offset q.segment.payload (q.policy toServer) x
  | .flush => True

theorem receive_keeps_iff {s : Stream} (h : s.Sound) (hend : s.EndsAnchored) (toServer : Bool)
    (q : Push) :
    (∀ finAt ∈ s.finAt, ∀ x ≥ finAt,
      (s.receive toServer q).buffer.byteAt x = s.buffer.byteAt x) ↔
      s.StopsAtFin toServer (.push q) := by
  unfold receive StopsAtFin
  by_cases hside : q.toServer = toServer
  · rw [if_pos hside]
    constructor
    · intro hkeeps _ finAt hfin offset habs hwindow hlt x hx htakes
      have hest := hend (by rw [hfin]; simp)
      have hkept := hkeeps finAt hfin x hx
      obtain ⟨hlo, hhi, _⟩ := htakes.2
      rw [push_buffer hest, habs, Int.toNat_natCast, if_pos] at hkept
      · exact (write_byteAt_eq_iff h offset q.segment.payload (q.policy toServer) x).1 hkept htakes
      · refine ⟨by omega, by omega, by omega, ?_⟩
        intro finAt' hfin'
        rw [Option.mem_unique hfin' hfin]
        exact hlt
    · intro hstops finAt hfin x hx
      rw [push_buffer (hend (by rw [hfin]; simp))]
      split_ifs with hgo
      · rw [write_byteAt_eq_iff h]
        exact hstops hside finAt hfin _ (Int.toNat_of_nonneg hgo.2.1).symm hgo.2.2.1
          (hgo.2.2.2 finAt hfin) x hx
      · rfl
  · rw [if_neg hside]
    refine ⟨fun _ hcontra => absurd hcontra hside, ?_⟩
    intro _ finAt _ x _
    split_ifs
    · rw [acknowledge_buffer]
    · rfl

theorem receive_finAt {s : Stream} {finAt : ℕ} (hfin : finAt ∈ s.finAt) (toServer : Bool)
    (q : Push) :
    ∃ finAt' ∈ (s.receive toServer q).finAt, finAt' ≤ finAt := by
  have htake (s : Stream) (policy : OverlapPolicy) :
      (s.take q.segment policy).finAt = s.finAt := by
    unfold take
    split_ifs
    · rfl
    · rw [store_finAt, countSegment_finAt]
  unfold receive
  split_ifs
  · rw [push_eq]
    split_ifs with hest
    · have hkept : ((s.establish q.segment).take q.segment (q.policy toServer)).finAt =
          some finAt := by
        rw [htake, establish_finAt]
        exact hfin
      unfold noteFin
      split_ifs
      · simp only [hkept, Option.elim_some, Option.mem_def, Option.some.injEq, exists_eq_left']
        exact min_le_left _ _
      · exact ⟨finAt, hkept, le_rfl⟩
    · exact ⟨finAt, hfin, le_rfl⟩
  · simp only [acknowledge]
    split_ifs <;> exact ⟨finAt, hfin, le_rfl⟩
  · exact ⟨finAt, hfin, le_rfl⟩

theorem receive_accepted {s : Stream} (h : s.Sound) (toServer : Bool) (q : Push) :
    points s.buffer.covered ⊆ points (s.receive toServer q).buffer.covered ∧
      (s.receive toServer q).counters.bytesAccepted = s.counters.bytesAccepted +
        (points (s.receive toServer q).buffer.covered \ points s.buffer.covered).ncard := by
  have hcount (s : Stream) : (s.countSegment q.segment).counters.bytesAccepted =
      s.counters.bytesAccepted := by
    unfold countSegment
    split_ifs <;> rfl
  have hstore (s : Stream) (h : s.Sound) (sequence : UInt32) (payload : List UInt8)
      (policy : OverlapPolicy) :
      points s.buffer.covered ⊆ points (s.store sequence payload policy).buffer.covered ∧
        (s.store sequence payload policy).counters.bytesAccepted = s.counters.bytesAccepted +
          (points (s.store sequence payload policy).buffer.covered \ points
          s.buffer.covered).ncard := by
    have hwrite := (RangeBuffer.write_counts h.wf (s.absolute sequence).toNat payload policy).1
    unfold store
    dsimp only
    split_ifs
    · simp
    · simp
    · simp
    · exact ⟨hwrite.kept, congrArg _ hwrite.accepted⟩
  unfold receive
  split_ifs
  · rw [push_eq]
    split_ifs with hest
    · rw [noteFin_buffer, noteFin_counters, take]
      split_ifs
      · simp
      · have hcounted : ((s.establish q.segment).countSegment q.segment).Sound := by
          rw [countSegment_eq]
          exact (h.establish q.segment).congr rfl rfl rfl rfl
        have hstored := hstore _ hcounted (dataSequence q.segment) q.segment.payload
          (q.policy toServer)
        rwa [hcount, countSegment_buffer, establish_buffer, establish_counters] at hstored
    · simp
  · rw [acknowledge_buffer]
    simp only [acknowledge]
    split_ifs <;> simp
  · simp

theorem deliver_byteAt {s : Stream} (h : s.Sound) (force : Bool) {x : ℕ} {v : UInt8}
    (hv : (s.deliver force).1.buffer.byteAt x = some v) : s.buffer.byteAt x = some v := by
  obtain ⟨stop, _, hlo, _, hbuffer, _⟩ := deliver_spec h force
  rw [hbuffer, RangeBuffer.consume_byteAt hlo] at hv
  split_ifs at hv
  exact hv

/-- Every byte held at the end or past it was held at an earlier point. -/
def HeldPast (finAt : ℕ) (earlier s : Stream) : Prop :=
  ∀ x v, finAt ≤ x → s.buffer.byteAt x = some v → earlier.buffer.byteAt x = some v

theorem HeldPast.receive {s earlier : Stream} {finAt : ℕ} (hheld : HeldPast finAt earlier s)
    {toServer : Bool} {q : Push}
    (hkeeps : ∀ x ≥ finAt, (s.receive toServer q).buffer.byteAt x = s.buffer.byteAt x) :
    HeldPast finAt earlier (s.receive toServer q) := by
  intro x v hx hv
  rw [hkeeps x hx] at hv
  exact hheld x v hx hv

theorem HeldPast.act {s earlier : Stream} {finAt : ℕ} (hheld : HeldPast finAt earlier s)
    (h : s.Sound)
    {toServer : Bool} {op : PairOp}
    (hkeeps : ∀ q, op = .push q →
      ∀ x ≥ finAt, (s.receive toServer q).buffer.byteAt x = s.buffer.byteAt x) :
    HeldPast finAt earlier (s.act toServer op).1 := by
  cases op with
  | push q =>
    intro x v hx hv
    exact hheld.receive (hkeeps q rfl) x v hx (deliver_byteAt (h.receive toServer q).1 false hv)
  | flush =>
    intro x v _ hv
    have hempty : (s.act toServer .flush).1.buffer.covered = [] := rfl
    simp [RangeBuffer.byteAt, hempty] at hv

/-- A later push neither stores nor accepts a byte at the end or past it, and the bytes it delivers
from there were held when the end became known. -/
structure TakesNothingPast (finAt : ℕ) (earlier s : Stream) (toServer : Bool)
    (q : Push) : Prop where
  stored : ∀ x ≥ finAt, (s.receive toServer q).buffer.byteAt x = s.buffer.byteAt x
  accepted : (s.receive toServer q).counters.bytesAccepted = s.counters.bytesAccepted +
    {x | x < finAt ∧ x ∈ points (s.receive toServer q).buffer.covered ∧
      x ∉ points s.buffer.covered}.ncard
  delivered : ∀ i < ((s.receive toServer q).deliver false).2.length,
    finAt ≤ s.buffer.base + i →
      ((s.receive toServer q).deliver false).2[i]? = earlier.buffer.byteAt (s.buffer.base + i)

theorem takesNothingPast {s earlier : Stream} {finAt : ℕ} (hheld : HeldPast finAt earlier s)
    (h : s.Sound) {toServer : Bool} {q : Push}
    (hkeeps : ∀ x ≥ finAt, (s.receive toServer q).buffer.byteAt x = s.buffer.byteAt x) :
    TakesNothingPast finAt earlier s toServer q := by
  obtain ⟨hsound, hbase⟩ := h.receive toServer q
  refine ⟨hkeeps, ?_, ?_⟩
  · rw [(receive_accepted h toServer q).2]
    congr 2
    ext x
    simp only [Set.mem_sdiff, Set.mem_ofPred_eq]
    refine ⟨fun hx => ⟨?_, hx⟩, And.right⟩
    -- an offset past the end that became covered would have got a byte
    by_contra hpast
    have hsame := hkeeps x (not_lt.1 hpast)
    have hnew := (hsound.wf.byteAt_isSome_iff x).2 hx.1
    rw [hsame, h.wf.byteAt_isSome_iff] at hnew
    exact hx.2 hnew
  · intro i hi hpast
    have hbyte := getElem?_deliver hsound false hi
    rw [hbase] at hbyte
    obtain ⟨v, hv⟩ : ∃ v, ((s.receive toServer q).deliver false).2[i]? = some v :=
      ⟨_, List.getElem?_eq_getElem hi⟩
    rw [hv] at hbyte ⊢
    exact (hheld.receive hkeeps _ v hpast hbyte.symm).symm

end Stream

theorem after_endsAnchored (config : ReassemblyConfig) (ops : List PairOp) (toServer : Bool) :
    ((StreamPair.after config ops).side toServer).EndsAnchored := by
  apply after_invariant toServer Stream.EndsAnchored
  · exact fun s op h => h.act toServer op
  · exact fun hsome => absurd rfl hsome

/-- From any point on at which the end of a direction is known, no push takes a byte at the end or
past it. -/
def NothingPastFin (config : ReassemblyConfig) (ops : List PairOp) (toServer : Bool) : Prop :=
  ∀ before between q rest, ops = before ++ (between ++ .push q :: rest) →
    ∀ finAt ∈ ((StreamPair.after config before).side toServer).finAt,
      Stream.TakesNothingPast finAt ((StreamPair.after config before).side toServer)
        ((StreamPair.after config (before ++ between)).side toServer) toServer q

structure Stream.PastFin (finAt : ℕ) (earlier s : Stream) : Prop where
  sound : s.Sound
  anchored : s.EndsAnchored
  held : Stream.HeldPast finAt earlier s
  lower : ∃ finAt' ∈ s.finAt, finAt' ≤ finAt

theorem Stream.PastFin.keeps {finAt : ℕ} {earlier s : Stream} (h : Stream.PastFin finAt earlier s)
    {toServer : Bool} {q : Push} (hstops : s.StopsAtFin toServer (.push q)) :
    ∀ x ≥ finAt, (s.receive toServer q).buffer.byteAt x = s.buffer.byteAt x := by
  obtain ⟨finAt', hfin, hle⟩ := h.lower
  intro x hx
  exact (receive_keeps_iff h.sound h.anchored toServer q).2 hstops finAt' hfin x (hle.trans hx)

theorem Stream.PastFin.act {finAt : ℕ} {earlier s : Stream} (h : Stream.PastFin finAt earlier s)
    {toServer : Bool} {op : PairOp} (hstops : s.StopsAtFin toServer op) :
    Stream.PastFin finAt earlier (s.act toServer op).1 where
  sound := (h.sound.act toServer op).1
  anchored := h.anchored.act toServer op
  held := by
    apply h.held.act h.sound
    intro q hq
    subst hq
    exact h.keeps hstops
  lower := by
    obtain ⟨finAt', hfin, hle⟩ := h.lower
    cases op with
    | push q =>
      obtain ⟨finAt'', hfin', hle'⟩ := receive_finAt hfin toServer q
      exact ⟨finAt'', hfin', hle'.trans hle⟩
    | flush => exact ⟨finAt', hfin, hle⟩

/-- No byte past a FIN is believed, in any run, exactly when no segment that starts inside the
window and before the FIN brings one that the buffer would take. -/
theorem nothing_past_fin_iff (config : ReassemblyConfig) (ops : List PairOp) (toServer : Bool) :
    NothingPastFin config ops toServer ↔
      Runs.Along StreamPair.act (fun p op => (p.side toServer).StopsAtFin toServer op)
        (StreamPair.new config) ops := by
  constructor
  · intro h
    rw [Runs.along_iff]
    intro before op rest heq
    cases op with
    | flush => trivial
    | push q =>
      apply (Stream.receive_keeps_iff (after_sound config before toServer).1
        (after_endsAnchored config before toServer) toServer q).1
      intro finAt hfin
      have hnothing := h before [] q rest heq finAt hfin
      rw [List.append_nil] at hnothing
      exact hnothing.stored
  · intro h before between q rest heq finAt hfin
    rw [heq, Runs.along_append, Runs.along_append] at h
    obtain ⟨_, hbetween, hq, _⟩ := h
    have hpast := Runs.invariant_along StreamPair.act
      (fun p => Stream.PastFin finAt ((StreamPair.after config before).side toServer)
        (p.side toServer)) _
      (fun p op hp hstops => by rw [(act_side p op toServer).1]; exact hp.act hstops)
      ⟨(after_sound config before toServer).1, after_endsAnchored config before toServer,
        fun _ _ _ hv => hv, finAt, hfin, le_rfl⟩ hbetween
    rw [StreamPair.after_append]
    exact Stream.takesNothingPast hpast.held hpast.sound (hpast.keeps hq)

/-- A FIN ends the direction after two bytes; a segment that repeats the second one brings two more,
and they are stored. -/
theorem bytes_past_fin_stored :
    ¬ ∀ (config : ReassemblyConfig) (ops : List PairOp) (toServer : Bool),
      NothingPastFin config ops toServer := by
  intro h
  have hnothing := h {} [.push ⟨true, ⟨1000, 0, Flags.fin, [1, 2]⟩, .first, .first⟩,
    .push ⟨true, ⟨1001, 0, 0, [2, 9, 9]⟩, .first, .first⟩] true
    [.push ⟨true, ⟨1000, 0, Flags.fin, [1, 2]⟩, .first, .first⟩] []
    ⟨true, ⟨1001, 0, 0, [2, 9, 9]⟩, .first, .first⟩ [] rfl 2 (by decide +kernel)
  exact absurd (hnothing.stored 2 le_rfl) (by decide +kernel)

end CyberSentinel
