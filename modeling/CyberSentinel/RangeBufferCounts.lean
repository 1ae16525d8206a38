import CyberSentinel.RangeBufferWrite

/-!
# What a range buffer counts

A write reports what became of each of its bytes: stored in an empty place, landed on a byte that
was there, refused, or too late. The number stored is the number of offsets that became covered, so
the buffer holds that many bytes more, and the four numbers add up to the length of the write. A
drain takes out as many bytes as it hands over.
-/

namespace CyberSentinel.RangeBuffer

open Spans Bytes

/-- From one point of the walk to another, `fresh` bytes went to empty places and `held` bytes to
places that had one. -/
structure Walk.Counts (w w' : Walk) (fresh held : ℕ) : Prop where
  accepted : w'.outcome.accepted = w.outcome.accepted + fresh
  overlapped : w'.outcome.overlapped = w.outcome.overlapped + held
  conflicting : w'.outcome.conflicting ≤ w.outcome.conflicting + held
  refused : w'.outcome.refused = w.outcome.refused
  beforeWindow : w'.outcome.beforeWindow = w.outcome.beforeWindow

theorem Walk.Counts.refl (w : Walk) : w.Counts w 0 0 := ⟨rfl, rfl, le_rfl, rfl, rfl⟩

theorem Walk.Counts.trans {w w' w'' : Walk} {fresh held fresh' held' : ℕ}
    (h : w.Counts w' fresh held) (h' : w'.Counts w'' fresh' held') :
    w.Counts w'' (fresh + fresh') (held + held') where
  accepted := by rw [h'.accepted, h.accepted, Nat.add_assoc]
  overlapped := by rw [h'.overlapped, h.overlapped, Nat.add_assoc]
  conflicting := by
    have := h.conflicting
    have := h'.conflicting
    omega
  refused := h'.refused.trans h.refused
  beforeWindow := h'.beforeWindow.trans h.beforeWindow

theorem countDiffering_le (b : RangeBuffer) (lo hi offset : ℕ) (bytes : List UInt8) :
    b.countDiffering lo hi offset bytes ≤ hi - lo := by
  unfold countDiffering
  apply List.countP_le_length.trans
  simp only [List.length_zip, slice, List.length_drop, List.length_take]
  omega

section Walk

variable {offset stop : ℕ} {bytes : List UInt8} {w : Walk}

theorem fillGap_counts (existing : Span) (hstart : existing.start < stop) :
    w.Counts (fillGap offset stop bytes existing w) (existing.start - w.cursor) 0 := by
  unfold fillGap
  split_ifs with hgap
  · rw [min_eq_left hstart.le]
    exact ⟨rfl, rfl, le_rfl, rfl, rfl⟩
  · rw [Nat.sub_eq_zero_of_le (not_lt.1 hgap)]
    exact Walk.Counts.refl w

theorem resolveOverlap_counts (policy : OverlapPolicy) (existing : Span) :
    w.Counts (resolveOverlap offset stop bytes policy existing w) 0
      (min existing.stop stop - w.cursor) := by
  simp only [resolveOverlap]
  have hle := countDiffering_le w.buffer w.cursor (min existing.stop stop) offset bytes
  split_ifs with hlt
  · exact ⟨rfl, rfl, Nat.add_le_add_left hle _, rfl, rfl⟩
  · exact ⟨rfl, rfl, Nat.add_le_add_left hle _, rfl, rfl⟩
  · rw [Nat.sub_eq_zero_of_le (not_lt.1 hlt)]
    exact Walk.Counts.refl w

theorem fillGap_cursor (offset : ℕ) (bytes : List UInt8) (existing : Span)
    (hstart : existing.start < stop) :
    (fillGap offset stop bytes existing w).cursor = max w.cursor existing.start := by
  unfold fillGap
  split_ifs with hgap
  · change min existing.start stop = _
    omega
  · omega

theorem resolveOverlap_cursor (offset : ℕ) (bytes : List UInt8) (policy : OverlapPolicy)
    (existing : Span) :
    (resolveOverlap offset stop bytes policy existing w).cursor =
      max w.cursor (min existing.stop stop) := by
  simp only [resolveOverlap]
  split_ifs with hlt
  · exact (max_eq_right hlt.le).symm
  · exact (max_eq_right hlt.le).symm
  · exact (max_eq_left (not_lt.1 hlt)).symm

theorem fillTail_counts : w.Counts (fillTail offset stop bytes w) (stop - w.cursor) 0 := by
  unfold fillTail
  split_ifs with hlt
  · exact ⟨rfl, rfl, le_rfl, rfl, rfl⟩
  · rw [Nat.sub_eq_zero_of_le (not_lt.1 hlt)]
    exact Walk.Counts.refl w

/-- The empty places between the cursor and the end, before and after one covered range. -/
theorem missing_cons {existing : Span} {rest : List Span} {cursor : ℕ}
    (hgap : ∀ s ∈ rest, existing.stop < s.start) (hne : existing.start < existing.stop)
    (hcur : cursor < existing.stop) (hstart : existing.start < stop) :
    (Set.Ico cursor stop \ points (existing :: rest)).ncard =
      (existing.start - cursor) + (Set.Ico (min existing.stop stop) stop \ points rest).ncard := by
  have hsplit : Set.Ico cursor stop \ points (existing :: rest) =
      Set.Ico cursor existing.start ∪ (Set.Ico (min existing.stop stop) stop \ points rest) := by
    ext x
    have hout : x ≤ existing.stop → x ∉ points rest :=
      fun hx => not_mem_points_of_lt_starts (fun s hs => hx.trans_lt (hgap s hs))
    simp only [Set.mem_sdiff, Set.mem_Ico, Set.mem_union, mem_points_cons, not_or]
    by_cases hx : x ≤ existing.stop
    · simp only [hout hx, not_false_iff, and_true]
      omega
    · by_cases hmem : x ∈ points rest
      · simp only [hmem, not_true, and_false, or_false, false_iff]
        omega
      · simp only [hmem, not_false_iff, and_true]
        omega
  have hdisjoint : Disjoint (Set.Ico cursor existing.start)
      (Set.Ico (min existing.stop stop) stop \ points rest) := by
    rw [Set.disjoint_left]
    intro x hx hx'
    have hlo := hx'.1.1
    have hhi := hx.2
    omega
  rw [hsplit, Set.ncard_union_eq hdisjoint (Set.finite_Ico _ _)
    ((Set.finite_Ico _ _).subset Set.sdiff_subset), Set.ncard_Ico_nat]

/-- The walk stores one byte in each empty place, and the rest lands on covered ones. -/
theorem walk_counts (policy : OverlapPolicy) (l : List Span) (hl : Separated l)
    (hcur : w.cursor ≤ stop) :
    ∃ held, (Set.Ico w.cursor stop \ points l).ncard + held = stop - w.cursor ∧
      w.Counts (fillTail offset stop bytes (walk offset stop bytes policy l w))
        (Set.Ico w.cursor stop \ points l).ncard held := by
  induction l generalizing w with
  | nil =>
    have hnone : Set.Ico w.cursor stop \ points [] = Set.Ico w.cursor stop := by simp
    rw [hnone, Set.ncard_Ico_nat]
    exact ⟨0, rfl, fillTail_counts⟩
  | cons existing rest ih =>
    obtain ⟨hne, hgap, hrest⟩ := separated_cons.1 hl
    unfold walk
    split_ifs with hskip hbreak
    · have hsame : Set.Ico w.cursor stop \ points (existing :: rest) =
          Set.Ico w.cursor stop \ points rest := by
        ext x
        simp only [Set.mem_sdiff, Set.mem_Ico, mem_points_cons, not_or]
        constructor
        · exact fun h => ⟨h.1, h.2.2⟩
        · exact fun h => ⟨h.1, by omega, h.2⟩
      rw [hsame]
      exact ih hrest hcur
    · -- every later range starts past the write as well
      have hnone : Set.Ico w.cursor stop \ points (existing :: rest) = Set.Ico w.cursor stop := by
        rw [sdiff_eq_left, Set.disjoint_left]
        intro x hx
        apply not_mem_points_of_lt_starts
        intro s hs
        rcases List.mem_cons.1 hs with rfl | hs
        · exact hx.2.trans_le hbreak
        · have := hx.2
          have := hgap s hs
          omega
      rw [hnone, Set.ncard_Ico_nat]
      exact ⟨0, rfl, fillTail_counts⟩
    · have hgapCursor := fillGap_cursor (w := w) offset bytes existing (not_le.1 hbreak)
      have hcursor : (resolveOverlap offset stop bytes policy existing
          (fillGap offset stop bytes existing w)).cursor = min existing.stop stop := by
        rw [resolveOverlap_cursor, hgapCursor]
        omega
      obtain ⟨held, hsum, hcounts⟩ := ih (w := resolveOverlap offset stop bytes policy existing
        (fillGap offset stop bytes existing w)) hrest (by omega)
      rw [hcursor] at hsum hcounts
      have hfirst : w.Counts (fillGap offset stop bytes existing w) (existing.start - w.cursor) 0 :=
        fillGap_counts existing (not_le.1 hbreak)
      have hall := (hfirst.trans (resolveOverlap_counts policy existing)).trans hcounts
      rw [missing_cons hgap hne (not_le.1 hskip) (not_le.1 hbreak)]
      rw [hgapCursor, Nat.add_zero, Nat.zero_add] at hall
      exact ⟨_, by omega, hall⟩

end Walk

theorem place_counts {offset stop : ℕ} (bytes : List UInt8) (policy : OverlapPolicy)
    {b : RangeBuffer}
    (hb : b.Wf) (hlt : offset < stop) :
    (b.place offset stop bytes policy).2.accepted = (Set.Ico offset stop \ points b.covered).ncard ∧
    (b.place offset stop bytes policy).2.accepted +
    (b.place offset stop bytes policy).2.overlapped =
      stop - offset ∧
    (b.place offset stop bytes policy).2.conflicting ≤
      (b.place offset stop bytes policy).2.overlapped ∧
    (b.place offset stop bytes policy).2.beforeWindow = 0 := by
  obtain ⟨held, hsum, hcounts⟩ := @walk_counts offset stop bytes
    ⟨offset, { b with data := growTo b.data (stop - b.base) 0 },
    {}⟩ policy b.covered hb.separated hlt.le
  have haccepted := hcounts.accepted.trans (Nat.zero_add _)
  have hoverlapped := hcounts.overlapped.trans (Nat.zero_add _)
  have hconflicting := hcounts.conflicting.trans (Nat.zero_add _).le
  refine ⟨haccepted, ?_, hconflicting.trans hoverlapped.ge, hcounts.beforeWindow⟩
  exact (congrArg₂ (· + ·) haccepted hoverlapped).trans hsum

structure Accounted (b b' : RangeBuffer) (outcome : WriteOutcome) : Prop where
  kept : points b.covered ⊆ points b'.covered
  accepted : outcome.accepted = (points b'.covered \ points b.covered).ncard
  conflicting : outcome.conflicting ≤ outcome.overlapped

theorem Accounted.of_same (b : RangeBuffer) {outcome : WriteOutcome}
    (haccepted : outcome.accepted = 0)
    (hconflicting : outcome.conflicting = 0) : b.Accounted b outcome where
  kept := subset_rfl
  accepted := by rw [haccepted, Set.sdiff_self, Set.ncard_empty]
  conflicting := by omega

theorem Accounted.buffered {b b' : RangeBuffer} {outcome : WriteOutcome}
    (h : b.Accounted b' outcome) (hb : b.Wf) (hb' : b'.Wf) :
    b'.bufferedBytes = b.bufferedBytes + outcome.accepted := by
  have hmeasure : b'.bufferedBytes = (points b'.covered).ncard := measure_eq_ncard hb'.separated
  have hmeasure' : b.bufferedBytes = (points b.covered).ncard := measure_eq_ncard hb.separated
  rw [hmeasure, hmeasure', h.accepted, Nat.add_comm]
  exact (Set.ncard_sdiff_add_ncard_of_subset h.kept (finite_points _)).symm

theorem writeFrom_counts {b : RangeBuffer} (hb : b.Wf) {offset : ℕ} (hbase : b.base ≤ offset)
    (bytes : List UInt8) (policy : OverlapPolicy) :
    b.Accounted (b.writeFrom offset bytes policy).1 (b.writeFrom offset bytes policy).2 ∧
    (b.writeFrom offset bytes policy).2.beforeWindow = 0 ∧
    (offset + bytes.length ≤ u64Max →
      (b.writeFrom offset bytes policy).2.accepted +
      (b.writeFrom offset bytes policy).2.overlapped +
        (b.writeFrom offset bytes policy).2.refused = bytes.length) := by
  rcases @writeFrom_cases b offset bytes policy _ rfl with
    ⟨_, heq⟩ | ⟨hadm, kept, refused, hlen, hsum, hexact, _, heq⟩
  · rw [heq]
    exact ⟨Accounted.of_same b rfl rfl, rfl, fun _ => by simp⟩
  · obtain ⟨haccepted, htotal, hconflicting, hbefore⟩ := place_counts kept policy hb hadm.1
    obtain ⟨_, _, _, _, hcovered⟩ := place_wf policy hb hbase hadm.1 (min_le_right _ _) hlen hadm.2
    have hpoints : ∀ x, x ∈ points (b.place offset (min (offset + bytes.length) b.windowEnd) kept
        policy).1.covered ↔ x ∈ points b.covered ∨
          x ∈ Set.Ico offset (min (offset + bytes.length) b.windowEnd) := by
      intro x
      rw [hcovered]
      exact mem_points_absorb _ _ (fun s hs => (hb.separated.nonempty s hs).le) hadm.1.le x
    rw [heq]
    refine ⟨⟨fun x hx => (hpoints x).2 (Or.inl hx), ?_, hconflicting⟩, hbefore, ?_⟩
    · change (b.place _ _ _ _).2.accepted = _
      rw [haccepted]
      congr 1
      ext x
      rw [Set.mem_sdiff, Set.mem_sdiff, hpoints]
      tauto
    · intro hfits
      have hkept := hexact.2 (.inl hfits)
      simp only
      omega

theorem write_counts {b : RangeBuffer} (hb : b.Wf) (offset : ℕ) (bytes : List UInt8)
    (policy : OverlapPolicy) :
    b.Accounted (b.write offset bytes policy).1 (b.write offset bytes policy).2 ∧
    (offset + bytes.length ≤ u64Max →
      (b.write offset bytes policy).2.accepted + (b.write offset bytes policy).2.overlapped +
        (b.write offset bytes policy).2.refused + (b.write offset bytes policy).2.beforeWindow =
          bytes.length) := by
  unfold write
  split_ifs with hempty hbehind hoff
  · exact ⟨Accounted.of_same b rfl rfl, fun _ => by simp_all⟩
  · exact ⟨Accounted.of_same b rfl rfl, fun _ => by simp⟩
  · obtain ⟨⟨hkept, haccepted, hconflicting⟩, _, htotal⟩ :=
      writeFrom_counts hb le_rfl (bytes.drop (b.base - offset)) policy
    refine ⟨⟨hkept, haccepted, hconflicting⟩, ?_⟩
    intro hfits
    simp only [satAdd] at hbehind
    rw [List.length_drop] at htotal
    have := htotal (by omega)
    simp only
    omega
  · obtain ⟨haccounted, hbefore, htotal⟩ := writeFrom_counts hb (not_lt.1 hoff) bytes policy
    refine ⟨haccounted, ?_⟩
    intro hfits
    rw [hbefore, Nat.add_zero]
    exact htotal hfits

theorem Wf.bufferedBytes_le {b : RangeBuffer} (hb : b.Wf) : b.bufferedBytes ≤ b.byteLimit := by
  have hmeasure : b.bufferedBytes ≤ b.windowEnd - b.base :=
    measure_le hb.separated hb.start_ge hb.stop_le
  have hend : b.windowEnd ≤ b.base + b.byteLimit := min_le_left _ _
  omega

theorem drain_counts {b : RangeBuffer} (hb : b.Wf) (limit : ℕ) :
    (b.drainContiguousUpto limit).1.bufferedBytes + (b.drainContiguousUpto limit).2.length =
      b.bufferedBytes ∧
    (b.drainContiguousUpto limit).1.base = b.base + (b.drainContiguousUpto limit).2.length := by
  obtain ⟨stop, hstop, hdrain⟩ := drain_cases b limit hb
  have hbase := hb.base_le_contiguousEnd
  have hcov := hb.contiguousEnd_le_coveredEnd
  have hdata := hb.data_length
  have hmoved : (b.data.take (stop - b.base)).length = stop - b.base := by
    rw [List.length_take]
    omega
  have htrim : measure (trim stop b.covered) + (stop - b.base) = measure b.covered :=
    measure_trim hb.separated hb.start_ge (show stop ≤ b.contiguousEnd by omega)
  rw [hdrain]
  simp only [hmoved, consume, Nat.add_sub_of_le (show b.base ≤ stop by omega), and_true]
  exact htrim

end CyberSentinel.RangeBuffer
