import CyberSentinel.StreamTwins

/-!
# Segments outside the window

A segment whose bytes all lie outside the window stores nothing. Its FIN, however, is believed
wherever it lies: it fixes the end of the direction, and data from that end on is rejected for good.
So such a segment leaves no trace in what is stored and delivered later exactly when it has no FIN,
or the end it claims is no earlier than one already known, or the direction takes no payload any
more.
-/

namespace CyberSentinel

open Spans

namespace Stream

/-- Neither a byte of the segment nor the number its FIN would take lies in the window. -/
def OutOfWindow (s : Stream) (segment : TcpSegment) : Prop :=
  s.absolute (dataSequence segment) + segment.payload.length < s.buffer.base ∨
    (s.buffer.base + s.byteLimit : ℤ) ≤ s.absolute (dataSequence segment)

/-- The segment has no FIN, or an end that is no later is known already. -/
def ClaimsNoEarlierEnd (s : Stream) (segment : TcpSegment) : Prop :=
  segment.has Flags.fin = true → ∃ finAt ∈ s.finAt, finAt ≤ s.claimedEnd segment

theorem OutOfWindow.push {s : Stream} {segment : TcpSegment} (h : s.OutOfWindow segment)
    (hest : s.established = true) (policy : OverlapPolicy) : (s.push segment policy).Alike s := by
  have hbuffer : (s.push segment policy).buffer = s.buffer := by
    rw [push_buffer hest, if_neg]
    rintro ⟨hend, hpos, hwindow, _⟩
    have hle := s.windowEnd_le
    rcases h with h | h
    · omega
    · omega
  rw [push_fields hest]
  exact ⟨rfl, rfl, hbuffer, rfl, rfl, rfl⟩

theorem push_finAt_of_claimsNoEarlierEnd {s : Stream} (h : s.Sound) (hest : s.established = true)
    {segment : TcpSegment} (hclaims : s.ClaimsNoEarlierEnd segment) (policy : OverlapPolicy) :
    (s.push segment policy).finAt = s.finAt := by
  rw [push_finAt h hest]
  split_ifs with hfin
  · obtain ⟨finAt, hmem, hle⟩ := hclaims hfin
    rw [Option.mem_def.1 hmem, Option.elim_some, min_eq_left hle]
  · rfl

theorem Shut.push {s : Stream} (hshut : s.Shut) (h : s.Sound) (hlimit : s.byteLimit < 2 ^ 64)
    (hest : s.established = true) (segment : TcpSegment) (policy : OverlapPolicy) :
    (s.push segment policy).Alike s := by
  have hbase : s.buffer.base < 2 ^ 64 := Nat.lt_of_le_pred (by decide) h.wf.base_le
  have hend := windowEnd_of_wraps hshut.1 hbase hlimit
  have hlo := s.absolute_ge (dataSequence segment)
  have hbuffer : (s.push segment policy).buffer = s.buffer := by
    rw [push_buffer hest, if_neg]
    rintro ⟨_, hpos, hwindow, _⟩
    rcases hshut.2 with hfar | ⟨hzero, _⟩
    · omega
    · omega
  rw [push_fields hest]
  exact ⟨rfl, rfl, hbuffer, rfl, rfl, rfl⟩

theorem Shut.congr {s t : Stream} (hshut : s.Shut) (h : t.Alike s) : t.Shut := by
  rw [Shut, h.buffer, h.byteLimit]
  exact hshut

theorem Shut.deliver {s : Stream} (hshut : s.Shut) (h : s.Sound) (force : Bool) :
    (s.deliver force).1.Shut := by
  obtain ⟨stop, _, hlo, hhi, _, hbase, hcontiguous, _⟩ := deliver_spec h force
  obtain ⟨hwraps, hfar | ⟨hzero, hnone⟩⟩ := hshut
  · refine ⟨?_, Or.inl hfar⟩
    change 2 ^ 64 ≤ (s.deliver force).1.buffer.base + s.byteLimit
    omega
  · have hsame : (s.deliver force).1.buffer.base = s.buffer.base := by omega
    refine ⟨?_, Or.inr ⟨?_, by rw [hcontiguous, hsame, hnone]⟩⟩
    · rw [hsame]
      exact hwraps
    · rw [hsame]
      exact hzero

/-- Two histories of a direction that is shut: their ends no longer matter. -/
structure BothShut (s t : Stream) : Prop where
  alike : s.Alike t
  shut : t.Shut
  sound : t.Sound
  limit_lt : t.byteLimit < 2 ^ 64
  established : t.established = true

theorem BothShut.receive {s t : Stream} (h : BothShut s t) (toServer : Bool) (q : Push) :
    (s.receive toServer q).Alike (t.receive toServer q) ∧ (t.receive toServer q).Shut ∧
      (t.receive toServer q).established = true := by
  unfold Stream.receive
  split_ifs
  · have hs := (h.shut.congr h.alike).push (h.alike.sound h.sound) (h.alike.byteLimit ▸ h.limit_lt)
      (h.alike.established.trans h.established) q.segment (q.policy toServer)
    have ht := h.shut.push h.sound h.limit_lt h.established q.segment (q.policy toServer)
    exact ⟨(hs.trans h.alike).trans ht.symm, h.shut.congr ht, ht.established.trans h.established⟩
  · have hkept : (t.acknowledge q.segment.acknowledgment).Shut ∧
        (t.acknowledge q.segment.acknowledgment).established = true := by
      simp only [acknowledge]
      split_ifs <;> exact ⟨h.shut, h.established⟩
    exact ⟨h.alike.acknowledge _, hkept⟩
  · exact ⟨h.alike, h.shut, h.established⟩

theorem BothShut.act {s t : Stream} (h : BothShut s t) (toServer : Bool) (op : PairOp) :
    BothShut (s.act toServer op).1 (t.act toServer op).1 ∧
      (s.act toServer op).2 = (t.act toServer op).2 := by
  have hlimit := (t.act_limits toServer op).1.trans_lt h.limit_lt
  have hsound := (h.sound.act toServer op).1
  cases op with
  | push q =>
    obtain ⟨halike, hshut, hest⟩ := h.receive toServer q
    obtain ⟨hdeliver, hout⟩ := halike.deliver false
    exact ⟨⟨hdeliver, hshut.deliver (h.sound.receive toServer q).1 false, hsound, hlimit, hest⟩,
      hout⟩
  | flush =>
    obtain ⟨hdeliver, hout⟩ := h.alike.deliver true
    have hempty : (t.deliver true).1.discard.Shut := by
      obtain ⟨hwraps, hkind⟩ := h.shut.deliver h.sound true
      exact ⟨hwraps, hkind.imp_right (fun hzero => ⟨hzero.1, rfl⟩)⟩
    exact ⟨⟨hdeliver.discard, hempty, hsound, hlimit, h.established⟩, hout⟩

/-- Wherever the earlier end of an out-of-window FIN lies, it shows in the end. -/
theorem Twins.differ {finAt : ℕ} {s t : Stream} (h : Twins finAt s t) (toServer : Bool)
    {segment : TcpSegment}
    (hout : t.OutOfWindow segment) (hopen : ¬ t.Shut) (hlimit : t.byteLimit < 2 ^ 64)
    (hclaim : finAt = t.claimedEnd segment) (hfits : finAt + 2 ^ 32 < u64Max) :
    Differ toServer s t := by
  have hlo := t.absolute_ge (dataSequence segment)
  have hhi := t.absolute_lt (dataSequence segment)
  have hbuffer : t.buffer.windowEnd = min (t.buffer.base + t.byteLimit) u64Max := by
    rw [RangeBuffer.windowEnd, satAdd, h.sound.byteLimit_eq]
  have hpos := h.sound.wf.byteLimit_pos
  rw [h.sound.byteLimit_eq] at hpos
  rw [claimedEnd] at hclaim
  rw [u64Max] at hfits hbuffer
  by_cases hwraps : 2 ^ 64 ≤ t.buffer.base + t.byteLimit
  · have hbehind : t.absolute (dataSequence segment) + segment.payload.length < t.buffer.base := by
      rcases hout with hout | hout
      · exact hout
      · omega
    exact h.differ_wrapped toServer _ le_rfl hwraps hlimit hopen (by omega) (by rw [u64Max]; omega)
  · have hwindow := windowEnd_of_lt (not_le.1 hwraps)
    have hfits' : finAt + 2 ^ 31 < u64Max := by
      rw [u64Max]
      omega
    by_cases hbehind : finAt ≤ t.buffer.base
    · exact h.differ_behind toServer hbehind (by omega) (by omega) hfits'
    · rcases hout with hout | hout
      · -- the FIN lies before the first byte ever anchored, so its end is counted from there
        by_cases hinside : finAt < t.buffer.windowEnd
        · exact h.differ_inside toServer (not_le.1 hbehind) hinside (by omega) (by omega)
        · exact h.differ_ahead toServer _ le_rfl (by omega) (not_le.1 hbehind) hfits'
      · exact h.differ_ahead toServer _ le_rfl (by omega) (not_le.1 hbehind) hfits'

/-- An out-of-window segment that claims an earlier end makes the direction a twin of itself. -/
theorem OutOfWindow.twins {s : Stream} {segment : TcpSegment} (hout : s.OutOfWindow segment)
    (h : s.Sound)
    (hsettled : s.Settled) (hest : s.established = true) (hclaims : ¬ s.ClaimsNoEarlierEnd segment)
    (policy : OverlapPolicy) : Twins (s.claimedEnd segment) (s.push segment policy) s := by
  rw [ClaimsNoEarlierEnd, not_forall] at hclaims
  obtain ⟨hfin, hnone⟩ := hclaims
  have hlater : ∀ finAt ∈ s.finAt, s.claimedEnd segment < finAt := by
    intro finAt hmem
    by_contra hle
    exact hnone ⟨finAt, hmem, not_lt.1 hle⟩
  refine ⟨hout.push hest policy, ?_, hlater, h, hsettled, hest⟩
  rw [push_finAt h hest, if_pos hfin]
  cases hend : s.finAt with
  | none => rfl
  | some finAt => rw [Option.elim_some, min_eq_right (hlater finAt hend).le]

end Stream

/-- The segment makes its direction deliver nothing, and whatever calls follow, the direction
delivers and holds the same bytes as if the segment had never been pushed. -/
def LeavesNoTrace (p : StreamPair) (q : Push) : Prop :=
  (p.step q).2.side q.toServer = [] ∧ ∀ ops,
    ((Runs.run StreamPair.act (p.step q).1 ops).1.side q.toServer).buffer =
        ((Runs.run StreamPair.act p ops).1.side q.toServer).buffer ∧
      (Runs.run StreamPair.act (p.step q).1 ops).2.map (fun ready => ready.side q.toServer) =
        (Runs.run StreamPair.act p ops).2.map (fun ready => ready.side q.toServer)

/-- An out-of-window segment is delivered from without a change to the buffer. -/
theorem step_of_outOfWindow {p : StreamPair} {q : Push} (hsettled : (p.side q.toServer).Settled)
    (hest : (p.side q.toServer).established = true)
    (hout : (p.side q.toServer).OutOfWindow q.segment) :
    (p.step q).1.side q.toServer = (p.side q.toServer).push q.segment (q.policy q.toServer) ∧
      (p.step q).2.side q.toServer = [] := by
  obtain ⟨hside, hready⟩ := step_side p q q.toServer
  have hreceive : (p.side q.toServer).receive q.toServer q =
      (p.side q.toServer).push q.segment (q.policy q.toServer) := by
    rw [Stream.receive, if_pos rfl]
  rw [hreceive, ((hout.push hest _).settled hsettled).deliver_eq] at hside hready
  exact ⟨hside, hready⟩

/-- A segment that lies wholly outside the window leaves no trace in what its direction stores and
delivers from then on exactly if it has no FIN or claims no earlier end than the known one, or the
direction is shut. -/
theorem out_of_window_leaves_no_trace_iff (config : ReassemblyConfig) (traffic : Traffic)
    (before : List PairOp) (q : Push) (hlast : traffic.ops = before ++ [.push q])
    (hest : ((StreamPair.after config before).side q.toServer).established = true)
    (hout : ((StreamPair.after config before).side q.toServer).OutOfWindow q.segment) :
    LeavesNoTrace (StreamPair.after config before) q ↔
      ((StreamPair.after config before).side q.toServer).ClaimsNoEarlierEnd q.segment ∨
        ((StreamPair.after config before).side q.toServer).Shut := by
  obtain ⟨hsound, hsettled⟩ := after_sound config before q.toServer
  obtain ⟨hside, hready⟩ := step_of_outOfWindow hsettled hest hout
  have hlimit := (after_limits config before q.toServer).1.trans_lt (StreamPair.limitOf_lt config)
  constructor
  · intro htrace
    by_contra hno
    obtain ⟨hclaims, hopen⟩ := not_or.1 hno
    have htwins := hout.twins hsound hsettled hest hclaims (q.policy q.toServer)
    have hfits : ((StreamPair.after config before).side q.toServer).claimedEnd q.segment + 2 ^ 32 <
        u64Max := by
      have hoffered := traffic.fits
      simp only [hlast, offeredBytes, List.map_append, List.sum_append] at hoffered
      have hbase := (after_accounts config ⟨before, fun side => by
        have := hoffered side
        rw [offeredBytes]
        omega⟩ q.toServer).base_le
      have hthis := hoffered q.toServer
      have hhi := Stream.absolute_lt ((StreamPair.after config before).side q.toServer)
        (Stream.dataSequence q.segment)
      simp only [List.map_cons, List.map_nil, List.sum_singleton, PairOp.offered, if_pos] at hthis
      simp only [offeredBytes] at hbase
      rw [Stream.claimedEnd, u64Max]
      omega
    obtain ⟨ops, hops⟩ := htwins.differ q.toServer hout hopen hlimit rfl hfits
    obtain ⟨hbuffer, houts⟩ := htrace.2 ops
    rw [(run_side _ ops q.toServer).1, (run_side _ ops q.toServer).1, hside] at hbuffer
    rw [(run_side _ ops q.toServer).2, (run_side _ ops q.toServer).2, hside] at houts
    exact hops ⟨hbuffer, houts⟩
  · intro hquiet
    refine ⟨hready, fun ops => ?_⟩
    rw [(run_side _ ops q.toServer).1, (run_side _ ops q.toServer).1, (run_side _ ops q.toServer).2,
      (run_side _ ops q.toServer).2, hside]
    rcases hquiet with hclaims | hshut
    · have hfin := Stream.push_finAt_of_claimsNoEarlierEnd hsound hest hclaims (q.policy q.toServer)
      have hsame := @Runs.simulation _ _ _ _ (Stream.act q.toServer) (Stream.act q.toServer)
        (fun s t => s.Alike t ∧ s.finAt = t.finAt ∧ t.Sound)
        (fun s t op h => by
          obtain ⟨halike, hends, hsound⟩ := h
          obtain ⟨halike', hends', hout'⟩ := halike.act hends hsound q.toServer op
          exact ⟨⟨halike', hends', (hsound.act q.toServer op).1⟩, hout'⟩)
        _ _ ⟨hout.push hest (q.policy q.toServer), hfin, hsound⟩ ops
      exact ⟨hsame.1.1.buffer, hsame.2⟩
    · have hsame := @Runs.simulation _ _ _ _ (Stream.act q.toServer) (Stream.act q.toServer)
        Stream.BothShut (fun _ _ op h => h.act q.toServer op) _ _
        ⟨hout.push hest (q.policy q.toServer), hshut, hsound, hlimit, hest⟩ ops
      exact ⟨hsame.1.alike.buffer, hsame.2⟩

/-- Three bytes have arrived; an old segment without a FIN is forgotten at once. -/
theorem out_of_window_leaves_no_trace_iff_old_segment :
    LeavesNoTrace (StreamPair.after {} [.push ⟨true, ⟨1000, 0, 0, [1, 2, 3]⟩, .first, .first⟩])
      ⟨true, ⟨900, 0, 0, [7, 7]⟩, .first, .first⟩ :=
  (out_of_window_leaves_no_trace_iff {}
    ⟨[.push ⟨true, ⟨1000, 0, 0, [1, 2, 3]⟩, .first, .first⟩,
      .push ⟨true, ⟨900, 0, 0, [7, 7]⟩, .first, .first⟩], by decide +kernel⟩
    [.push ⟨true, ⟨1000, 0, 0, [1, 2, 3]⟩, .first, .first⟩]
    ⟨true, ⟨900, 0, 0, [7, 7]⟩, .first, .first⟩ rfl (by decide +kernel)
    (Or.inl (by decide +kernel))).2 (Or.inl (fun hfin => absurd hfin (by decide +kernel)))

/-- A forged FIN from before the connection; the next byte in order is then rejected. -/
theorem old_fin_blinds :
    ¬ ∀ (config : ReassemblyConfig) (before : List PairOp) (q : Push),
      ((StreamPair.after config before).side q.toServer).established = true →
      ((StreamPair.after config before).side q.toServer).OutOfWindow q.segment →
      LeavesNoTrace (StreamPair.after config before) q := by
  intro h
  have htrace := h {} [.push ⟨true, ⟨1000, 0, 0, [1, 2, 3]⟩, .first, .first⟩]
    ⟨true, ⟨900, 0, Flags.fin, []⟩, .first, .first⟩ (by decide +kernel) (Or.inl (by decide +kernel))
  have hbuffer := (htrace.2 [.push ⟨true, ⟨1003, 0, 0, [4]⟩, .first, .first⟩]).1
  exact absurd hbuffer (by decide +kernel)

end CyberSentinel
