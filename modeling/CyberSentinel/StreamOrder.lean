import CyberSentinel.RangeBufferWrite
import CyberSentinel.Runs
import CyberSentinel.Stream

/-!
# Reassembly does not depend on arrival order

A message is sent in one direction of a pair: every payload of that direction carries some `m[a..b]`
at the sequence number of `a`. Whatever the order, the overlaps, the policies and the traffic of the
other direction, the delivered bytes are a prefix of the message, and all of it once every offset
has been offered and the pair is flushed. The invariant `Tracks` ties the anchor, the delivered
bytes and the buffered bytes to the message at the buffer's base; receiving, acknowledging and
delivering each keep it. A limit so large that the end of the window wraps cuts segments off that
lie inside the window, so the statement asks that no segment is cut off.
-/

namespace CyberSentinel

open Spans Bytes

structure Message where
  bytes : List UInt8
  length_lt : bytes.length < 2 ^ 63

/-- The sequence number of offset `a` of a direction whose SYN had sequence number `isn`. -/
def wireSequence (isn : UInt32) (a : ℕ) : UInt32 := isn + 1 + UInt32.ofNat a

theorem wireSequence_add (isn : UInt32) (a k : ℕ) :
    wireSequence isn a + UInt32.ofNat k = wireSequence isn (a + k) := by
  rw [wireSequence, wireSequence, UInt32.ofNat_add, UInt32.add_assoc]

/-- One call of `StreamPair.push`. -/
structure Push where
  toServer : Bool
  segment : TcpSegment
  policyToServer : OverlapPolicy
  policyToClient : OverlapPolicy

def Push.policy (q : Push) (toServer : Bool) : OverlapPolicy :=
  if toServer then q.policyToServer else q.policyToClient

def StreamPair.step (p : StreamPair) (q : Push) : StreamPair × StreamReady :=
  p.push q.toServer q.segment q.policyToServer q.policyToClient

def Stream.receive (s : Stream) (toServer : Bool) (q : Push) : Stream :=
  if q.toServer = toServer then s.push q.segment (q.policy toServer)
  else if q.segment.has Flags.ack then s.acknowledge q.segment.acknowledgment
  else s

theorem step_side (p : StreamPair) (q : Push) (toServer : Bool) :
    (p.step q).1.side toServer = (((p.side toServer).receive toServer q).deliver false).1 ∧
    (p.step q).2.side toServer = (((p.side toServer).receive toServer q).deliver false).2 := by
  cases toServer <;> cases hq : q.toServer <;>
    simp [StreamPair.step, StreamPair.push, StreamPair.offer, StreamPair.deliver, StreamPair.side,
      StreamReady.side, Stream.receive, Push.policy, hq]

theorem flush_side (p : StreamPair) (toServer : Bool) :
    p.flush.2.side toServer = ((p.side toServer).deliver true).2 := by
  cases toServer <;> simp [StreamPair.flush, StreamPair.deliver, StreamPair.side, StreamReady.side]

def delivered (toServer : Bool) (readies : List StreamReady) : List UInt8 :=
  readies.flatMap (fun ready => ready.side toServer)

/-- The segment carries `m[a..b]` at the sequence number of `a`, within `2 ^ 31` of the base and
inside the window, and storing it leaves no more ranges than are tracked. -/
structure Carries (m : List UInt8) (isn : UInt32) (buffer : RangeBuffer) (segment : TcpSegment)
    (a b : ℕ) : Prop where
  le : a ≤ b
  stop_le_length : b ≤ m.length
  payload_eq : segment.payload = slice m a b
  sequence_eq : Stream.dataSequence segment = wireSequence isn a
  behind : -2 ^ 31 ≤ (a : ℤ) - buffer.base
  ahead : (a : ℤ) - buffer.base < 2 ^ 31
  start_lt : a < buffer.base + buffer.byteLimit
  stop_le : b ≤ buffer.base + buffer.byteLimit
  ranges_le : (runStarts {x | x ∈ points buffer.covered ∨ (max a buffer.base ≤ x ∧ x < b)}).ncard
    ≤ maxHolesPerStream

/-- In a buffer whose ranges are known, what a segment carries can be computed. -/
theorem Carries.of_covered {m : List UInt8} {isn : UInt32} {buffer : RangeBuffer}
    {segment : TcpSegment} {a b : ℕ} (hsep : Separated buffer.covered) (hlt : max a buffer.base < b)
    (h : b ≤ m.length ∧ segment.payload = slice m a b ∧
      Stream.dataSequence segment = wireSequence isn a ∧ -2 ^ 31 ≤ (a : ℤ) - buffer.base ∧
      (a : ℤ) - buffer.base < 2 ^ 31 ∧ a < buffer.base + buffer.byteLimit ∧
      b ≤ buffer.base + buffer.byteLimit ∧
      (absorb ⟨max a buffer.base, b⟩ buffer.covered).length ≤ maxHolesPerStream) :
    Carries m isn buffer segment a b := by
  obtain ⟨hlength, hpayload, hsequence, hbehind, hahead, hstart, hstop, hranges⟩ := h
  have hle : a ≤ b := (le_max_left a buffer.base).trans hlt.le
  exact ⟨hle, hlength, hpayload, hsequence, hbehind, hahead, hstart, hstop,
    (ncard_ranges hsep hlt).trans_le hranges⟩

/-- A push of the sender's direction has no FIN and carries bytes of the message, if it carries any.
Pushes of the other direction are arbitrary. -/
def Allowed (m : List UInt8) (isn : UInt32) (toServer : Bool) (p : StreamPair) (q : Push) : Prop :=
  q.toServer = toServer → q.segment.has Flags.fin = false ∧
    (q.segment.payload ≠ [] → ∃ a b, Carries m isn (p.side toServer).buffer q.segment a b)

/-- A segment of the message that brings bytes past the base starts below the end of the window, as
the direction computes it. -/
def StartsInWindow (m : List UInt8) (isn : UInt32) (toServer : Bool) (p : StreamPair) (q : Push) :
    Prop :=
  q.toServer = toServer → ∀ a b, Carries m isn (p.side toServer).buffer q.segment a b →
    (p.side toServer).buffer.base < b → a < (p.side toServer).windowEnd

theorem startsInWindow_of_lt {m : List UInt8} {isn : UInt32} {toServer : Bool} {p : StreamPair}
    {q : Push} (h : m.length < (p.side toServer).windowEnd) : StartsInWindow m isn toServer p q :=
  fun _ _ _ hc _ => (hc.le.trans hc.stop_le_length).trans_lt h

def PushArrives (m : List UInt8) (isn : UInt32) (toServer : Bool) (p : StreamPair)
    (q : Push) : Prop :=
  Allowed m isn toServer p q ∧ StartsInWindow m isn toServer p q

/-- The push offers offset `x` of the message. -/
def Offers (m : List UInt8) (isn : UInt32) (toServer : Bool) (p : StreamPair) (q : Push) (x : ℕ) :
    Prop :=
  q.toServer = toServer ∧
    ∃ a b, Carries m isn (p.side toServer).buffer q.segment a b ∧ a ≤ x ∧ x < b

/-- Some push of the run offers offset `x`, in the state it is made in. -/
def OfferedIn (m : List UInt8) (isn : UInt32) (toServer : Bool) (p : StreamPair)
    (pushes : List Push)
    (x : ℕ) : Prop :=
  ∃ before q after, pushes = before ++ q :: after ∧
    Offers m isn toServer (Runs.run StreamPair.step p before).1 q x

theorem toInt32_ofNat_sub (a b : ℕ) (hlo : -2 ^ 31 ≤ (a : ℤ) - b) (hhi : (a : ℤ) - b < 2 ^ 31) :
    (UInt32.ofNat a - UInt32.ofNat b).toInt32.toInt = (a : ℤ) - b := by
  have hbits : (UInt32.ofNat a - UInt32.ofNat b).toInt32.toInt =
      ((UInt32.ofNat a - UInt32.ofNat b).toNat : ℤ).bmod (2 ^ 32) := by
    change (UInt32.ofNat a - UInt32.ofNat b).toBitVec.toInt = _
    rw [BitVec.toInt_eq_toNat_bmod]
    rfl
  rw [hbits, UInt32.toNat_sub, UInt32.toNat_ofNat', UInt32.toNat_ofNat', Int.bmod_def]
  split_ifs <;> omega

theorem absolute_wireSequence (s : Stream) (isn : UInt32) (a : ℕ)
    (hanchor : s.baseSequence = wireSequence isn s.buffer.base)
    (hlo : -2 ^ 31 ≤ (a : ℤ) - s.buffer.base) (hhi : (a : ℤ) - s.buffer.base < 2 ^ 31) :
    s.absolute (wireSequence isn a) = a := by
  have hsub : wireSequence isn a - s.baseSequence =
      UInt32.ofNat a - UInt32.ofNat s.buffer.base := by
    rw [hanchor, wireSequence, wireSequence]
    grind
  rw [Stream.absolute, hsub, toInt32_ofNat_sub _ _ hlo hhi]
  ring

def Agrees (m : List UInt8) (b : RangeBuffer) : Prop :=
  ∀ x ∈ points b.covered, b.byteAt x = m[x]?

theorem write_agrees {m : List UInt8} {b : RangeBuffer} (hb : b.Wf) (hm : Agrees m b) {lo hi : ℕ}
    (policy : OverlapPolicy) (hhi : hi ≤ m.length) (hwindow : hi ≤ b.windowEnd) (hle : lo ≤ hi)
    (hadm : b.Admits (max lo b.base) hi) :
    Agrees m (b.write lo (slice m lo hi) policy).1 ∧
      ∀ x, x ∈ points (b.write lo (slice m lo hi) policy).1.covered ↔
        x ∈ points b.covered ∨ (max lo b.base ≤ x ∧ x < hi) := by
  have hstop : min (lo + (slice m lo hi).length) b.windowEnd = hi := by
    rw [length_slice _ hhi]
    omega
  have hbyte := RangeBuffer.write_byteAt_of_admits hb lo (slice m lo hi) policy (by rwa [hstop])
  have hcovered := RangeBuffer.write_points_of_admits hb lo (slice m lo hi) policy (by rwa [hstop])
  rw [hstop] at hbyte hcovered
  have hslice : ∀ x, max lo b.base ≤ x → x < hi → (slice m lo hi)[x - lo]? = m[x]? := by
    intro x hlo hx
    rw [getElem?_slice, if_pos (by omega), show lo + (x - lo) = x by omega]
  refine ⟨?_, hcovered⟩
  intro x hx
  rw [hbyte x]
  split_ifs with htake
  · exact hslice x htake.1.1 htake.1.2
  · rcases (hcovered x).1 hx with hold | hnew
    · exact hm x hold
    · have hold : x ∈ points b.covered := by
        by_contra hout
        exact htake ⟨hnew, Or.inr ((hb.byteAt_eq_none_iff x).2 hout)⟩
      exact hm x hold

/-- The state of a direction that has delivered `out`, with every offset of `offered` accounted for.
-/
structure Tracks (m : List UInt8) (isn : UInt32) (s : Stream) (out : List UInt8)
    (offered : Set ℕ) : Prop where
  wf : s.buffer.Wf
  established : s.established = true
  finAt : s.finAt = none
  byteLimit_eq : s.buffer.byteLimit = s.byteLimit
  rangeLimit_eq : s.buffer.rangeLimit = maxHolesPerStream
  anchor : s.baseSequence = wireSequence isn s.buffer.base
  out_eq : out = m.take s.buffer.base
  agrees : Agrees m s.buffer
  kept : ∀ x ∈ offered, x < s.buffer.base ∨ x ∈ points s.buffer.covered

namespace Tracks

variable {m : List UInt8} {isn : UInt32} {s : Stream} {out : List UInt8} {offered : Set ℕ}

/-- Only what the direction stores and where it is anchored matters. -/
theorem congr (h : Tracks m isn s out offered) {s' : Stream} (hest : s'.established = s.established)
    (hbuffer : s'.buffer = s.buffer) (hseq : s'.baseSequence = s.baseSequence)
    (hfin : s'.finAt = s.finAt) (hlimit : s'.byteLimit = s.byteLimit) :
    Tracks m isn s' out offered where
  wf := hbuffer ▸ h.wf
  established := hest.trans h.established
  finAt := hfin.trans h.finAt
  byteLimit_eq := by rw [hbuffer, hlimit, h.byteLimit_eq]
  rangeLimit_eq := by rw [hbuffer, h.rangeLimit_eq]
  anchor := by rw [hseq, hbuffer, h.anchor]
  out_eq := by rw [hbuffer, h.out_eq]
  agrees := by rw [hbuffer]; exact h.agrees
  kept := by rw [hbuffer]; exact h.kept

theorem mono (h : Tracks m isn s out offered) {offered' : Set ℕ}
    (hkept : ∀ x ∈ offered', x ∈ offered) : Tracks m isn s out offered' where
  wf := h.wf
  established := h.established
  finAt := h.finAt
  byteLimit_eq := h.byteLimit_eq
  rangeLimit_eq := h.rangeLimit_eq
  anchor := h.anchor
  out_eq := h.out_eq
  agrees := h.agrees
  kept := fun x hx => h.kept x (hkept x hx)

theorem countSegment (h : Tracks m isn s out offered) (segment : TcpSegment) :
    Tracks m isn (s.countSegment segment) out offered := by
  unfold Stream.countSegment
  by_cases hempty : segment.payload.isEmpty = true
  · rwa [if_pos hempty]
  · rw [if_neg hempty]
    exact h.congr rfl rfl rfl rfl rfl

theorem acknowledge (h : Tracks m isn s out offered) (acknowledgment : UInt32) :
    Tracks m isn (s.acknowledge acknowledgment) out offered := by
  simp only [Stream.acknowledge]
  split_ifs
  · exact h
  · exact h.congr rfl rfl rfl rfl rfl
  · exact h

theorem store (h : Tracks m isn s out offered) (hlen : m.length < 2 ^ 63) {segment : TcpSegment}
    {a b : ℕ} (hc : Carries m isn s.buffer segment a b) (hne : segment.payload ≠ [])
    (hstart : s.buffer.base < b → a < s.windowEnd) (policy : OverlapPolicy) :
    Tracks m isn (s.store (Stream.dataSequence segment) segment.payload policy) out
      (offered ∪ {x | a ≤ x ∧ x < b}) := by
  have habs : s.absolute (Stream.dataSequence segment) = a := by
    rw [hc.sequence_eq]
    exact absolute_wireSequence s isn a h.anchor hc.behind hc.ahead
  have hpayload : segment.payload.length = b - a := by
    rw [hc.payload_eq, length_slice _ hc.stop_le_length]
  have hlt : a < b := by
    have := List.length_pos_iff.2 hne
    omega
  have hbuffer := s.store_buffer (Stream.dataSequence segment) segment.payload policy
  rw [habs, hpayload, h.finAt, Int.toNat_natCast] at hbuffer
  by_cases hpast : s.buffer.base < b
  · have hwindow : b ≤ s.buffer.windowEnd := by
      have hstop := hc.stop_le
      have hlength := hc.stop_le_length
      simp only [RangeBuffer.windowEnd, satAdd, u64Max]
      omega
    have hadm : s.buffer.Admits (max a s.buffer.base) b :=
      RangeBuffer.admits_of_ranges_le h.wf (max_lt hlt hpast) (h.rangeLimit_eq ▸ hc.ranges_le)
    obtain ⟨hwf, hbase, hlimit, hrange⟩ := RangeBuffer.write_wf h.wf a (slice m a b) policy
    obtain ⟨hagrees, hcovered⟩ :=
      write_agrees h.wf h.agrees policy hc.stop_le_length hwindow hc.le hadm
    rw [if_pos ⟨by omega, by omega, hstart hpast, by simp⟩, hc.payload_eq] at hbuffer
    rw [hc.payload_eq]
    constructor
    · rwa [hbuffer]
    · rw [Stream.store_established, h.established]
    · rw [Stream.store_finAt, h.finAt]
    · rw [hbuffer, hlimit, Stream.store_byteLimit, h.byteLimit_eq]
    · rw [hbuffer, hrange, h.rangeLimit_eq]
    · rw [Stream.store_baseSequence, hbuffer, hbase, h.anchor]
    · rw [hbuffer, hbase, h.out_eq]
    · rwa [hbuffer]
    · intro x hx
      rw [hbuffer, hbase, hcovered]
      rcases hx with hx | hx
      · exact (h.kept x hx).imp_right Or.inl
      · by_cases hdone : x < s.buffer.base
        · exact Or.inl hdone
        · exact Or.inr (Or.inr ⟨max_le hx.1 (not_lt.1 hdone), hx.2⟩)
  · -- everything was delivered before
    rw [if_neg (fun hgo => hpast (by omega))] at hbuffer
    have hsame : Tracks m isn (s.store (Stream.dataSequence segment) segment.payload policy) out
        offered :=
      h.congr (by simp) hbuffer (by simp) (by simp) (by simp)
    refine ⟨hsame.wf, hsame.established, hsame.finAt, hsame.byteLimit_eq, hsame.rangeLimit_eq,
      hsame.anchor, hsame.out_eq, hsame.agrees, ?_⟩
    intro x hx
    rcases hx with hx | hx
    · exact hsame.kept x hx
    · rw [hbuffer]
      exact Or.inl (lt_of_lt_of_le hx.2 (not_lt.1 hpast))

theorem push_eq (h : Tracks m isn s out offered) {segment : TcpSegment}
    (hfin : segment.has Flags.fin = false) (policy : OverlapPolicy) :
    s.push segment policy =
      if segment.payload.isEmpty then s.countSegment segment
      else (s.countSegment segment).store (Stream.dataSequence segment) segment.payload policy := by
  have hest : s.establish segment = s := by rw [Stream.establish, if_pos h.established]
  simp [Stream.push, hest, h.established, Stream.noteFin, hfin]

/-- A push of the sender's direction keeps the invariant and accounts for what it offers. -/
theorem push (h : Tracks m isn s out offered) (hlen : m.length < 2 ^ 63) {segment : TcpSegment}
    (hfin : segment.has Flags.fin = false) (policy : OverlapPolicy)
    (hc : segment.payload ≠ [] → ∃ a b, Carries m isn s.buffer segment a b)
    (hstart : ∀ a b, Carries m isn s.buffer segment a b → s.buffer.base < b → a < s.windowEnd) :
    Tracks m isn (s.push segment policy) out
      (offered ∪ {x | ∃ a b, Carries m isn s.buffer segment a b ∧ a ≤ x ∧ x < b}) := by
  have hcount := h.countSegment segment
  have hbuffer : (s.countSegment segment).buffer = s.buffer := by
    unfold Stream.countSegment
    split_ifs <;> rfl
  have hwindow : (s.countSegment segment).windowEnd = s.windowEnd := by
    unfold Stream.countSegment
    split_ifs <;> rfl
  rw [h.push_eq hfin policy]
  by_cases hempty : segment.payload = []
  · rw [if_pos (by simp [hempty])]
    apply hcount.mono
    intro x hx
    rcases hx with hx | ⟨a, b, hcarries, hlo, hhi⟩
    · exact hx
    · have hlength := congrArg List.length hcarries.payload_eq
      rw [hempty, length_slice _ hcarries.stop_le_length, List.length_nil] at hlength
      omega
  · rw [if_neg (by simp [hempty])]
    rw [← hbuffer] at hc hstart ⊢
    rw [← hwindow] at hstart
    have hstored : ∀ a b, Carries m isn (s.countSegment segment).buffer segment a b →
        Tracks m isn ((s.countSegment segment).store (Stream.dataSequence segment) segment.payload
          policy) out (offered ∪ {x | a ≤ x ∧ x < b}) :=
      fun a b hcarries => hcount.store hlen hcarries hempty (hstart a b hcarries) policy
    obtain ⟨a, b, hcarries⟩ := hc hempty
    have hone := hstored a b hcarries
    refine ⟨hone.wf, hone.established, hone.finAt, hone.byteLimit_eq, hone.rangeLimit_eq,
      hone.anchor, hone.out_eq, hone.agrees, ?_⟩
    intro x hx
    rcases hx with hx | ⟨a', b', hcarries', hin⟩
    · exact hone.kept x (Or.inl hx)
    · exact (hstored a' b' hcarries').kept x (Or.inr hin)

theorem take_data (h : Tracks m isn s out offered) {stop : ℕ}
    (hhi : stop ≤ s.buffer.contiguousEnd) :
    s.buffer.data.take (stop - s.buffer.base) =
      (m.drop s.buffer.base).take (stop - s.buffer.base) := by
  have hmap := RangeBuffer.take_data_eq h.wf hhi
  apply List.ext_getElem?
  intro i
  have hi := congrArg (fun l => l[i]?) hmap
  simp only [List.getElem?_map] at hi
  rw [List.getElem?_take (l := m.drop s.buffer.base), List.getElem?_drop]
  by_cases hlt : i < stop - s.buffer.base
  · have hcov : s.buffer.base + i ∈ points s.buffer.covered :=
      mem_points_of_lt_firstHole (Nat.le_add_right _ _)
        (lt_of_lt_of_le (by omega) hhi)
    rw [List.getElem?_range' hlt, Nat.one_mul, Option.map_some, h.agrees _ hcov] at hi
    obtain ⟨v, hv, hm⟩ := Option.map_eq_some_iff.1 hi
    rw [if_pos hlt, hv, hm]
  · rw [if_neg hlt, List.getElem?_take, if_neg hlt]

theorem deliver (h : Tracks m isn s out offered) (force : Bool) :
    Tracks m isn (s.deliver force).1 (out ++ (s.deliver force).2) offered ∧
    (s.deliver force).1.buffer.base =
      max s.buffer.base (min s.buffer.contiguousEnd (s.deliverLimit force)) := by
  obtain ⟨stop, hstop, hdrain⟩ := RangeBuffer.drain_cases s.buffer (s.deliverLimit force) h.wf
  have hbase := h.wf.base_le_contiguousEnd
  have hlo : s.buffer.base ≤ stop := by omega
  have hhi : stop ≤ s.buffer.contiguousEnd := by omega
  have hnext : (s.buffer.consume (stop - s.buffer.base)).base = stop := by
    simp only [RangeBuffer.consume]
    omega
  have htaken := h.take_data hhi
  have hmoved : (s.buffer.data.take (stop - s.buffer.base)).length = stop - s.buffer.base := by
    have hdata := h.wf.data_length
    have hcov := h.wf.contiguousEnd_le_coveredEnd
    rw [List.length_take]
    omega
  simp only [Stream.deliver, hdrain, hmoved, ← hstop, hnext, and_true]
  constructor
  · exact RangeBuffer.consume_wf h.wf hlo hhi
  · exact h.established
  · exact h.finAt
  · exact h.byteLimit_eq
  · exact h.rangeLimit_eq
  · rw [hnext, h.anchor, wireSequence_add, Nat.add_sub_of_le hlo]
  · rw [hnext, htaken, h.out_eq, ← List.take_add, Nat.add_sub_of_le hlo]
  · intro x hx
    obtain ⟨hcov, hle⟩ := (mem_points_trim _ _ _).1 hx
    rw [RangeBuffer.consume_byteAt hlo, if_pos (by omega), h.agrees x hcov]
  · intro x hx
    rw [hnext]
    by_cases hdone : x < stop
    · exact Or.inl hdone
    · refine Or.inr ((mem_points_trim _ _ _).2 ⟨?_, by omega⟩)
      rcases h.kept x hx with hlt | hcov
      · omega
      · exact hcov

/-- The rest of the message is contiguous once every offset has been offered, so a flush ends it. -/
theorem flush (h : Tracks m isn s out offered) (hall : ∀ x < m.length, x ∈ offered) :
    out ++ (s.deliver true).2 = m := by
  obtain ⟨hdel, hbase⟩ := h.deliver true
  have hlo := h.wf.base_le_contiguousEnd
  have hend : m.length ≤ s.buffer.contiguousEnd := by
    by_contra hshort
    rcases h.kept s.buffer.contiguousEnd (hall _ (by omega)) with hlt | hcov
    · omega
    · exact firstHole_not_mem h.wf.separated h.wf.start_ge hcov
  have hlimit : s.deliverLimit true = s.buffer.contiguousEnd := rfl
  rw [hdel.out_eq, hbase, hlimit, min_self, max_eq_right hlo, List.take_of_length_le hend]

theorem receive (h : Tracks m isn s out offered) (hlen : m.length < 2 ^ 63) (toServer : Bool)
    (q : Push) (hq : q.toServer = toServer → q.segment.has Flags.fin = false ∧
      (q.segment.payload ≠ [] → ∃ a b, Carries m isn s.buffer q.segment a b))
    (hstart : q.toServer = toServer → ∀ a b, Carries m isn s.buffer q.segment a b →
      s.buffer.base < b → a < s.windowEnd) :
    Tracks m isn (s.receive toServer q) out
      (offered ∪ {x | q.toServer = toServer ∧
        ∃ a b, Carries m isn s.buffer q.segment a b ∧ a ≤ x ∧ x < b}) := by
  unfold Stream.receive
  by_cases hside : q.toServer = toServer
  · obtain ⟨hfin, hcarries⟩ := hq hside
    simpa only [hside, true_and, if_true] using h.push hlen hfin (q.policy toServer) hcarries
      (hstart hside)
  · simp only [hside, false_and, if_false, Set.ofPred_false, Set.union_empty]
    split_ifs
    · exact h.acknowledge _
    · exact h

end Tracks

variable {m : List UInt8} {isn : UInt32} {toServer : Bool}

theorem step_tracks (hlen : m.length < 2 ^ 63) {p : StreamPair} {out : List UInt8} {offered : Set ℕ}
    (h : Tracks m isn (p.side toServer) out offered) {q : Push}
    (hq : PushArrives m isn toServer p q) :
    Tracks m isn ((p.step q).1.side toServer) (out ++ (p.step q).2.side toServer)
      (offered ∪ {x | Offers m isn toServer p q x}) := by
  obtain ⟨hstate, hready⟩ := step_side p q toServer
  rw [hstate, hready]
  exact ((h.receive hlen toServer q hq.1 hq.2).deliver false).1

theorem offeredIn_cons {p : StreamPair} {q : Push} {rest : List Push} {x : ℕ}
    (hx : OfferedIn m isn toServer p (q :: rest) x) :
    Offers m isn toServer p q x ∨ OfferedIn m isn toServer (p.step q).1 rest x := by
  obtain ⟨before, q', after, heq, hoffers⟩ := hx
  cases before with
  | nil =>
    obtain ⟨rfl, _⟩ := List.cons.inj heq
    exact Or.inl hoffers
  | cons q'' before =>
    obtain ⟨rfl, htail⟩ := List.cons.inj heq
    exact Or.inr ⟨before, q', after, htail, hoffers⟩

theorem run_tracks (hlen : m.length < 2 ^ 63) {p : StreamPair} {out : List UInt8} {offered : Set ℕ}
    (h : Tracks m isn (p.side toServer) out offered) {pushes : List Push}
    (ha : Runs.Along StreamPair.step (PushArrives m isn toServer) p pushes) :
    Tracks m isn ((Runs.run StreamPair.step p pushes).1.side toServer)
      (out ++ delivered toServer (Runs.run StreamPair.step p pushes).2)
      (offered ∪ {x | OfferedIn m isn toServer p pushes x}) := by
  induction pushes generalizing p out offered with
  | nil =>
    rw [Runs.run_nil, delivered, List.flatMap_nil, List.append_nil]
    apply h.mono
    intro x hx
    rcases hx with hx | ⟨before, q, after, heq, _⟩
    · exact hx
    · simp at heq
  | cons q rest ih =>
    have hrest := ih (step_tracks hlen h ha.1) ha.2
    rw [Runs.run_cons, delivered, List.flatMap_cons, ← List.append_assoc]
    apply hrest.mono
    intro x hx
    rcases hx with hx | hx
    · exact Or.inl (Or.inl hx)
    · exact (offeredIn_cons hx).elim (fun hnow => Or.inl (Or.inr hnow)) Or.inr

theorem deliver_new (byteLimit flushBytes : ℕ) (hflush : 0 < flushBytes) :
    (Stream.new byteLimit flushBytes).deliver false = (Stream.new byteLimit flushBytes, []) := by
  have hnot : ¬ flushBytes ≤ 0 := Nat.not_le.2 hflush
  simp [Stream.deliver, Stream.new, RangeBuffer.new, RangeBuffer.contiguousEnd, firstHole,
    RangeBuffer.drainContiguousUpto, hnot]

/-- Until its SYN a direction only sees acknowledgments, and stays new. -/
theorem run_before_syn {byteLimit flushBytes : ℕ} (hflush : 0 < flushBytes) {p : StreamPair}
    (hp : p.side toServer = Stream.new byteLimit flushBytes) {before : List Push}
    (h : ∀ q ∈ before, q.toServer ≠ toServer) :
    (Runs.run StreamPair.step p before).1.side toServer = Stream.new byteLimit flushBytes ∧
      delivered toServer (Runs.run StreamPair.step p before).2 = [] := by
  induction before generalizing p with
  | nil => exact ⟨hp, rfl⟩
  | cons q rest ih =>
    obtain ⟨hstate, hready⟩ := step_side p q toServer
    have hreceive : (p.side toServer).receive toServer q = Stream.new byteLimit flushBytes := by
      rw [hp, Stream.receive, if_neg (h q (by simp))]
      simp [Stream.acknowledge, Stream.new]
    rw [hreceive, deliver_new _ _ hflush] at hstate hready
    obtain ⟨hrest, hnone⟩ := ih hstate (fun q hq => h q (by simp [hq]))
    refine ⟨hrest, ?_⟩
    rw [Runs.run_cons, delivered, List.flatMap_cons, hready, List.nil_append]
    exact hnone

theorem side_new (config : ReassemblyConfig) (toServer : Bool) :
    ∃ byteLimit flushBytes, 0 < byteLimit ∧ 0 < flushBytes ∧
      (StreamPair.new config).side toServer = Stream.new byteLimit flushBytes := by
  refine ⟨max config.maxStreamBytesPerFlow 1,
    min (max config.deliveryFlushBytes 1) (max config.maxStreamBytesPerFlow 1), by
      omega, by omega, ?_⟩
  cases toServer <;> rfl

/-- The SYN anchors a new direction at its own sequence number plus one. -/
theorem establish_tracks (m : List UInt8) (byteLimit flushBytes : ℕ) (hlimit : 0 < byteLimit)
    {segment : TcpSegment} (hsyn : segment.has Flags.syn = true) :
    Tracks m segment.sequence ((Stream.new byteLimit flushBytes).establish segment) [] ∅ := by
  have hest : (Stream.new byteLimit flushBytes).establish segment =
      { Stream.new byteLimit flushBytes with
        baseSequence := segment.sequence + 1, established := true } := by
    simp [Stream.establish, Stream.new, hsyn]
  rw [hest]
  constructor
  · exact RangeBuffer.wf_new 0 byteLimit maxHolesPerStream (Nat.zero_le _)
  · rfl
  · rfl
  · exact max_eq_left hlimit
  · rfl
  · simp [wireSequence, Stream.new, RangeBuffer.new]
  · rfl
  · intro x hx
    simp [Stream.new, RangeBuffer.new] at hx
  · intro x hx
    simp at hx

theorem receive_establish {s : Stream} {q : Push} (hside : q.toServer = toServer)
    (hsyn : q.segment.has Flags.syn = true) :
    s.receive toServer q = (s.establish q.segment).receive toServer q := by
  have hidem : (s.establish q.segment).establish q.segment = s.establish q.segment := by
    simp only [Stream.establish]
    split_ifs <;> rfl
  simp only [Stream.receive, if_pos hside, Stream.push, hidem]

/-- In whatever order the bytes of a message arrive after the SYN, what is delivered is at every
point a prefix of the message, and after a flush all of it, once every offset has been offered,
provided that the window cuts no segment off. -/
theorem delivered_eq_message (config : ReassemblyConfig) (m : Message) (toServer : Bool)
    (before after : List Push) (syn : Push) (hbefore : ∀ q ∈ before, q.toServer ≠ toServer)
    (hside : syn.toServer = toServer) (hsyn : syn.segment.has Flags.syn = true)
    (hallowed : Runs.Along StreamPair.step (Allowed m.bytes syn.segment.sequence toServer)
      (Runs.run StreamPair.step (StreamPair.new config) before).1 (syn :: after))
    (hwindow : Runs.Along StreamPair.step (StartsInWindow m.bytes syn.segment.sequence toServer)
      (Runs.run StreamPair.step (StreamPair.new config) before).1 (syn :: after)) :
    let start := (Runs.run StreamPair.step (StreamPair.new config) before).1
    let run := Runs.run StreamPair.step (StreamPair.new config) (before ++ syn :: after)
    (∀ n, delivered toServer (run.2.take n) <+: m.bytes) ∧
      ((∀ x < m.bytes.length,
          OfferedIn m.bytes syn.segment.sequence toServer start (syn :: after) x) →
        delivered toServer run.2 ++ run.1.flush.2.side toServer = m.bytes) := by
  obtain ⟨byteLimit, flushBytes, hlimit, hflush, hnew⟩ := side_new config toServer
  obtain ⟨hstart, hnone⟩ := run_before_syn hflush hnew hbefore
  intro start run
  have hfirst : Tracks m.bytes syn.segment.sequence ((start.step syn).1.side toServer)
      ([] ++ (start.step syn).2.side toServer)
      (∅ ∪ {x | Offers m.bytes syn.segment.sequence toServer start syn x}) := by
    obtain ⟨hstate, hready⟩ := step_side start syn toServer
    have hbuffer : ((start.side toServer).establish syn.segment).buffer =
        (start.side toServer).buffer := by
      simp only [Stream.establish]
      split_ifs <;> rfl
    have hend : ((start.side toServer).establish syn.segment).windowEnd =
        (start.side toServer).windowEnd := by
      simp only [Stream.establish]
      split_ifs <;> rfl
    have htracks := establish_tracks m.bytes byteLimit flushBytes hlimit hsyn
    rw [← hstart] at htracks
    have hreceive := htracks.receive m.length_lt toServer syn
      (by rw [hbuffer]; exact hallowed.1)
      (by rw [hbuffer, hend]; exact hwindow.1)
    rw [← receive_establish hside hsyn, hbuffer] at hreceive
    rw [hstate, hready]
    exact (hreceive.deliver false).1
  have hrun : run = (_, _) := Runs.run_append _ _ _ _
  have hall := run_tracks m.length_lt hfirst ((Runs.along_and _ _ _ _ _).2 ⟨hallowed.2, hwindow.2⟩)
  have hout : delivered toServer run.2 = [] ++ (start.step syn).2.side toServer ++
      delivered toServer (Runs.run StreamPair.step (start.step syn).1 after).2 := by
    rw [hrun, delivered, List.flatMap_append, Runs.run_cons, List.flatMap_cons, List.append_assoc]
    exact congrArg (· ++ _) hnone
  have hstate : run.1 = (Runs.run StreamPair.step (start.step syn).1 after).1 := by rw [hrun]; rfl
  rw [← hout, ← hstate] at hall
  constructor
  · intro n
    have htake : delivered toServer (run.2.take n) <+: delivered toServer run.2 := by
      conv_rhs => rw [← List.take_append_drop n run.2]
      rw [delivered, delivered, List.flatMap_append]
      exact List.prefix_append _ _
    exact htake.trans (hall.out_eq ▸ List.take_prefix _ _)
  · intro hoffered
    rw [flush_side]
    apply hall.flush
    intro x hx
    exact (offeredIn_cons (hoffered x hx)).imp (fun hnow => Or.inr hnow) id

/-- Two overlapping halves of a message of four bytes, the second half first, across the wrap of the
sequence space. -/
theorem delivered_eq_message_wrapped :
    let seg : UInt32 → UInt8 → List UInt8 → Push := fun sequence flags payload =>
      ⟨true, ⟨sequence, 0, flags, payload⟩, .first, .last⟩
    let run := Runs.run StreamPair.step (StreamPair.new {})
      [seg 0xfffffffe Flags.syn [], seg 0 0 [20, 30, 40], seg 0xffffffff 0 [10, 20]]
    delivered true run.2 ++ run.1.flush.2.side true = [10, 20, 30, 40] := by
  intro seg run
  let open1 := ((StreamPair.new {}).step (seg 0xfffffffe Flags.syn [])).1
  let open2 := (open1.step (seg 0 0 [20, 30, 40])).1
  have hbuffer1 : (open1.side true).buffer = ⟨0, [], [], 2 ^ 20, 256⟩ := by decide +kernel
  have hbuffer2 : (open2.side true).buffer = ⟨0, [0, 20, 30, 40], [⟨1, 4⟩], 2 ^ 20, 256⟩ := by
    decide +kernel
  have htail : Carries [10, 20, 30, 40] 0xfffffffe (open1.side true).buffer
      (seg 0 0 [20, 30, 40]).segment 1 4 := by
    rw [hbuffer1]
    exact .of_covered separated_nil (by decide) (by decide)
  have hhead : Carries [10, 20, 30, 40] 0xfffffffe (open2.side true).buffer
      (seg 0xffffffff 0 [10, 20]).segment 0 2 := by
    rw [hbuffer2]
    exact .of_covered (separated_cons.2 ⟨by decide, by simp, separated_nil⟩) (by decide) (by decide)
  have hallowed : Runs.Along StreamPair.step (Allowed [10, 20, 30, 40] 0xfffffffe true)
      (StreamPair.new {})
      [seg 0xfffffffe Flags.syn [], seg 0 0 [20, 30, 40], seg 0xffffffff 0 [10, 20]] :=
    ⟨fun _ => ⟨by decide, fun h => absurd rfl h⟩, fun _ => ⟨by decide, fun _ => ⟨1, 4, htail⟩⟩,
      fun _ => ⟨by decide, fun _ => ⟨0, 2, hhead⟩⟩, trivial⟩
  have hwindow : Runs.Along StreamPair.step (StartsInWindow [10, 20, 30, 40] 0xfffffffe true)
      (StreamPair.new {})
      [seg 0xfffffffe Flags.syn [], seg 0 0 [20, 30, 40], seg 0xffffffff 0 [10, 20]] :=
    ⟨startsInWindow_of_lt (by decide +kernel), startsInWindow_of_lt (by decide +kernel),
      startsInWindow_of_lt (by decide +kernel), trivial⟩
  refine (delivered_eq_message {} ⟨[10, 20, 30, 40], by decide⟩ true []
    [seg 0 0 [20, 30, 40], seg 0xffffffff 0 [10, 20]] (seg 0xfffffffe Flags.syn [])
    (by simp) rfl (by decide) hallowed hwindow).2 ?_
  intro x hx
  by_cases hfirst : x < 1
  · exact ⟨[seg 0xfffffffe Flags.syn [], seg 0 0 [20, 30, 40]], seg 0xffffffff 0 [10, 20],
      [], rfl, rfl,
      0, 2, hhead, by omega, by omega⟩
  · exact ⟨[seg 0xfffffffe Flags.syn []], seg 0 0 [20, 30, 40],
      [seg 0xffffffff 0 [10, 20]], rfl, rfl,
      1, 4, htail, by omega, hx⟩

/-- With the largest limit the end of the window wraps to zero as soon as one byte has been
delivered, and the next byte in order is dropped. -/
theorem wrapped_window_loses_byte :
    ¬ ∀ (config : ReassemblyConfig) (m : Message) (toServer : Bool) (before after : List Push)
      (syn : Push), config.check = .ok () → (∀ q ∈ before, q.toServer ≠ toServer) →
      syn.toServer = toServer → syn.segment.has Flags.syn = true →
      Runs.Along StreamPair.step (Allowed m.bytes syn.segment.sequence toServer)
        (Runs.run StreamPair.step (StreamPair.new config) before).1 (syn :: after) →
      (∀ x < m.bytes.length, OfferedIn m.bytes syn.segment.sequence toServer
        (Runs.run StreamPair.step (StreamPair.new config) before).1 (syn :: after) x) →
      let run := Runs.run StreamPair.step (StreamPair.new config) (before ++ syn :: after)
      delivered toServer run.2 ++ run.1.flush.2.side toServer = m.bytes := by
  intro h
  let config : ReassemblyConfig :=
    { maxStreamBytesPerFlow := 2 ^ 64 - 1, maxStreamBytesTotal := 2 ^ 64 - 1 }
  let seg : UInt32 → UInt8 → List UInt8 → Push := fun sequence flags payload =>
    ⟨true, ⟨sequence, 0, flags, payload⟩, .first, .first⟩
  let answer : Push := ⟨false, ⟨5000, 101, Flags.ack, []⟩, .first, .first⟩
  let open1 := ((StreamPair.new config).step (seg 99 Flags.syn [])).1
  let open2 := (open1.step (seg 100 0 [10])).1
  let open3 := (open2.step answer).1
  have hbuffer1 : (open1.side true).buffer = ⟨0, [], [], 2 ^ 64 - 1, 256⟩ := by decide +kernel
  have hbuffer3 : (open3.side true).buffer = ⟨1, [], [], 2 ^ 64 - 1, 256⟩ := by decide +kernel
  have hfirst : Carries [10, 20] 99 (open1.side true).buffer (seg 100 0 [10]).segment 0 1 := by
    rw [hbuffer1]
    exact .of_covered separated_nil (by decide) (by decide)
  have hsecond : Carries [10, 20] 99 (open3.side true).buffer (seg 101 0 [20]).segment 1 2 := by
    rw [hbuffer3]
    exact .of_covered separated_nil (by decide) (by decide)
  have hrun1 : (Runs.run StreamPair.step (StreamPair.new config) [seg 99 Flags.syn []]).1 =
      open1 := by
    simp only [Runs.run_cons, Runs.run_nil, open1]
  have hrun3 : (Runs.run StreamPair.step (StreamPair.new config)
      [seg 99 Flags.syn [], seg 100 0 [10], answer]).1 = open3 := by
    simp only [Runs.run_cons, Runs.run_nil, open3, open2, open1]
  have hoffered : ∀ x < [10, 20].length, OfferedIn [10, 20] 99 true (StreamPair.new config)
      [seg 99 Flags.syn [], seg 100 0 [10], answer, seg 101 0 [20]] x := by
    intro x hx
    by_cases hzero : x < 1
    · refine ⟨[seg 99 Flags.syn []], seg 100 0 [10], [answer, seg 101 0 [20]], rfl, rfl, 0, 1, ?_,
        Nat.zero_le x, hzero⟩
      rw [hrun1]
      exact hfirst
    · refine ⟨[seg 99 Flags.syn [], seg 100 0 [10], answer], seg 101 0 [20], [], rfl, rfl, 1, 2, ?_,
        not_lt.1 hzero, hx⟩
      rw [hrun3]
      exact hsecond
  have hallowed : Runs.Along StreamPair.step (Allowed [10, 20] 99 true) (StreamPair.new config)
      [seg 99 Flags.syn [], seg 100 0 [10], answer, seg 101 0 [20]] :=
    ⟨fun _ => ⟨by decide, fun hne => absurd rfl hne⟩, fun _ => ⟨by decide, fun _ => ⟨0, 1, hfirst⟩⟩,
      fun hside => absurd hside (by decide), fun _ =>
      ⟨by decide, fun _ => ⟨1, 2, hsecond⟩⟩, trivial⟩
  have hall := h config ⟨[10, 20], by decide⟩ true [] [seg 100 0 [10], answer, seg 101 0 [20]]
    (seg 99 Flags.syn []) (by decide) (by simp) rfl (by decide) hallowed hoffered
  exact absurd hall (by decide +kernel)

end CyberSentinel
