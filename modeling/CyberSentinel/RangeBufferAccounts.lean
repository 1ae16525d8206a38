import CyberSentinel.RangeBufferChecked

/-!
# What becomes of the bytes of a write

Of the offsets of a write that are covered already, `conflicts` are those whose stored byte is
another one. The outcome of a write counts them exactly, and counts each of its bytes once: stored,
landed on a covered offset, refused, or before the window. The bytes that are counted nowhere are
those from `u64::MAX` on of a write that is stored up to there.
-/

namespace CyberSentinel.RangeBuffer

open Spans Bytes

theorem countP_zip_ne (u v : List UInt8) (h : u.length = v.length) :
    (u.zip v).countP (fun p => p.1 != p.2) =
      ((Finset.range u.length).filter (fun i => u[i]? ≠ v[i]?)).card := by
  rw [← Nat.count_eq_card_filter_range]
  induction u generalizing v with
  | nil => rfl
  | cons x u ih =>
    cases v with
    | nil => exact absurd h (Nat.succ_ne_zero _)
    | cons y v =>
      rw [List.zip_cons_cons, List.countP_cons, List.length_cons, Nat.count_succ',
        ih v (Nat.succ.inj h)]
      simp

theorem countDiffering_eq_card (b : RangeBuffer) {lo hi offset : ℕ} {bytes : List UInt8}
    (hbase : b.base ≤ offset) (hoff : offset ≤ lo) (hdata : hi - b.base ≤ b.data.length)
    (hbytes : hi - offset ≤ bytes.length) :
    b.countDiffering lo hi offset bytes =
      ((Finset.Ico lo hi).filter (fun x => b.data[x - b.base]? ≠ bytes[x - offset]?)).card := by
  have hlength : (slice b.data (lo - b.base) (hi - b.base)).length =
      (slice bytes (lo - offset) (hi - offset)).length := by
    rw [length_slice _ hdata, length_slice _ hbytes]
    omega
  have hat (i : ℕ) (hi' : i < hi - lo) :
      (slice b.data (lo - b.base) (hi - b.base))[i]? = b.data[i + lo - b.base]? ∧
        (slice bytes (lo - offset) (hi - offset))[i]? = bytes[i + lo - offset]? := by
    rw [getElem?_slice, getElem?_slice, if_pos (by omega), if_pos (by omega),
      show lo - b.base + i = i + lo - b.base by
        omega, show lo - offset + i = i + lo - offset by omega]
    exact ⟨rfl, rfl⟩
  rw [countDiffering, countP_zip_ne _ _ hlength, length_slice _ hdata]
  apply Finset.card_nbij' (fun i => i + lo) (fun x => x - lo)
  · intro i hmem
    obtain ⟨hlt, hne⟩ := Finset.mem_filter.1 hmem
    rw [Finset.mem_range] at hlt
    obtain ⟨hold, hnew⟩ := hat i (by omega)
    rw [hold, hnew] at hne
    exact Finset.mem_filter.2 ⟨Finset.mem_Ico.2 ⟨Nat.le_add_left _ _, show i + lo < hi by
      omega⟩, hne⟩
  · intro x hmem
    obtain ⟨hrange, hne⟩ := Finset.mem_filter.1 hmem
    rw [Finset.mem_Ico] at hrange
    obtain ⟨hold, hnew⟩ := hat (x - lo) (by omega)
    rw [Nat.sub_add_cancel hrange.1] at hold hnew
    rw [← hold, ← hnew] at hne
    have hlt : x - lo < hi - b.base - (lo - b.base) := by omega
    exact Finset.mem_filter.2 ⟨Finset.mem_range.2 hlt, hne⟩
  · intro i _
    exact Nat.add_sub_cancel i lo
  · intro x hmem
    exact Nat.sub_add_cancel (Finset.mem_Ico.1 (Finset.mem_filter.1 hmem).1).1

/-- From one point of the walk to another, `n` bytes differed from the ones they landed on. -/
structure Walk.Disagrees (policy : OverlapPolicy) (w w' : Walk) (n : ℕ) : Prop where
  conflicting : w'.outcome.conflicting = w.outcome.conflicting + n
  replaced : w'.outcome.replaced = w.outcome.replaced + if policy = .last then n else 0

theorem Walk.Disagrees.refl (policy : OverlapPolicy) (w : Walk) : w.Disagrees policy w 0 :=
  ⟨rfl, by rw [ite_self, Nat.add_zero]⟩

theorem Walk.Disagrees.trans {policy : OverlapPolicy} {w w' w'' : Walk} {n n' : ℕ}
    (h : w.Disagrees policy w' n) (h' : w'.Disagrees policy w'' n') :
    w.Disagrees policy w'' (n + n') where
  conflicting := by rw [h'.conflicting, h.conflicting, Nat.add_assoc]
  replaced := by
    rw [h'.replaced, h.replaced]
    split_ifs <;> omega

/-- The covered offsets that satisfy `P` between the cursor and the end, before and after one range.
-/
theorem card_held_cons {existing : Span} {rest : List Span} {cursor stop : ℕ} (P : ℕ → Prop)
    [DecidablePred P] (hgap : ∀ s ∈ rest, existing.stop < s.start)
    (hcur : cursor < existing.stop) :
    ((Finset.Ico cursor stop).filter (fun x => x ∈ points (existing :: rest) ∧ P x)).card =
      ((Finset.Ico (max cursor existing.start) (min existing.stop stop)).filter P).card +
        ((Finset.Ico (min existing.stop stop) stop).filter (fun x =>
        x ∈ points rest ∧ P x)).card := by
  rw [← Finset.card_union_of_disjoint]
  · congr 1
    ext x
    have hout : x ≤ existing.stop → x ∉ points rest :=
      fun hx => not_mem_points_of_lt_starts (fun s hs => hx.trans_lt (hgap s hs))
    simp only [Finset.mem_filter, Finset.mem_union, Finset.mem_Ico, mem_points_cons]
    by_cases hP : P x
    · by_cases hx : x ≤ existing.stop
      · simp only [hout hx, hP, or_false, and_true, and_false, or_false]
        omega
      · simp only [hP, and_true]
        by_cases hmem : x ∈ points rest
        · simp only [hmem, or_true, and_true]
          omega
        · simp only [hmem, or_false, and_false]
          omega
    · simp only [hP, and_false, or_false]
  · rw [Finset.disjoint_left]
    intro x hx hx'
    have hlt := (Finset.mem_Ico.1 (Finset.mem_filter.1 hx).1).2
    have hge := (Finset.mem_Ico.1 (Finset.mem_filter.1 hx').1).1
    omega

section Walk

variable {offset stop : ℕ} {bytes : List UInt8} {b : RangeBuffer} {w : Walk}

theorem fillGap_disagrees (policy : OverlapPolicy) (existing : Span) :
    w.Disagrees policy (fillGap offset stop bytes existing w) 0 := by
  unfold fillGap
  split_ifs
  · exact ⟨rfl, by rw [ite_self, Nat.add_zero]⟩
  · exact Walk.Disagrees.refl policy w

theorem fillTail_disagrees (policy : OverlapPolicy) :
    w.Disagrees policy (fillTail offset stop bytes w) 0 := by
  unfold fillTail
  split_ifs
  · exact ⟨rfl, by rw [ite_self, Nat.add_zero]⟩
  · exact Walk.Disagrees.refl policy w

def Walk.Differs (offset : ℕ) (bytes : List UInt8) (b : RangeBuffer) (w : Walk) (x : ℕ) : Prop :=
  w.byte b x ≠ bytes[x - offset]?

instance (offset : ℕ) (bytes : List UInt8) (b : RangeBuffer) (w : Walk) :
    DecidablePred (w.Differs offset bytes b) :=
  fun x => inferInstanceAs (Decidable (w.byte b x ≠ bytes[x - offset]?))

theorem resolveOverlap_disagrees (policy : OverlapPolicy) (h : w.Over offset stop bytes b)
    (existing : Span) :
    w.Disagrees policy (resolveOverlap offset stop bytes policy existing w)
      ((Finset.Ico w.cursor (min existing.stop stop)).filter (w.Differs offset bytes b)).card := by
  have hdata := h.data_le
  have hbytes := h.bytes_le
  have hcount : w.buffer.countDiffering w.cursor (min existing.stop stop) offset bytes =
      ((Finset.Ico w.cursor (min existing.stop stop)).filter (w.Differs offset bytes b)).card := by
    rw [countDiffering_eq_card _ (h.base_eq ▸ h.base_le) h.offset_le]
    · simp only [h.base_eq]
      rfl
    · rw [h.base_eq, h.length_eq]
      omega
    · omega
  simp only [resolveOverlap, hcount]
  split_ifs with hlt hpolicy
  · exact ⟨rfl, by rw [if_pos hpolicy]⟩
  · exact ⟨rfl, by rw [if_neg hpolicy, Nat.add_zero]⟩
  · rw [Finset.Ico_eq_empty hlt, Finset.filter_empty, Finset.card_empty]
    exact Walk.Disagrees.refl policy w

/-- Over one range the bytes that differ are counted from where the range or the cursor begins. -/
theorem meet_disagrees (policy : OverlapPolicy) (h : w.Over offset stop bytes b) (existing : Span)
    (hstart : existing.start < stop) :
    w.Disagrees policy
      (resolveOverlap offset stop bytes policy existing (fillGap offset stop bytes existing w))
      ((Finset.Ico (max w.cursor existing.start) (min existing.stop stop)).filter
        (w.Differs offset bytes b)).card := by
  have hbase : b.base ≤ w.cursor := h.base_le.trans h.offset_le
  obtain ⟨hover, hcursor, hbyte⟩ := fillGap_spec h existing hstart
  have hall := (fillGap_disagrees policy existing).trans
    (resolveOverlap_disagrees policy hover existing)
  have hheld : (Finset.Ico (max w.cursor existing.start) (min existing.stop stop)).filter
      ((fillGap offset stop bytes existing w).Differs offset bytes b) =
      (Finset.Ico (max w.cursor existing.start) (min existing.stop stop)).filter
        (w.Differs offset bytes b) := by
    apply Finset.filter_congr
    intro x hx
    rw [Finset.mem_Ico] at hx
    rw [Walk.Differs, Walk.Differs, hbyte x (by omega), if_neg (by omega)]
  rw [hcursor, hheld, Nat.zero_add] at hall
  exact hall

theorem meet_spec (policy : OverlapPolicy) (h : w.Over offset stop bytes b) (existing : Span)
    (hstart : existing.start < stop) (hcur : w.cursor < existing.stop)
    (hne : existing.start < existing.stop) :
    let met := resolveOverlap offset stop bytes policy existing
      (fillGap offset stop bytes existing w)
    met.Over offset stop bytes b ∧ met.cursor = min existing.stop stop ∧
      ∀ x, min existing.stop stop ≤ x → met.byte b x = w.byte b x := by
  intro met
  have hbase : b.base ≤ w.cursor := h.base_le.trans h.offset_le
  have hcursor_le := h.cursor_le
  obtain ⟨hgapOver, hgapCursor, hgapByte⟩ := fillGap_spec h existing hstart
  obtain ⟨hover, hcursor, hbyte⟩ := resolveOverlap_spec policy hgapOver existing
    (by rw [hgapCursor]; omega)
  refine ⟨hover, hcursor, ?_⟩
  intro x hx
  rw [hbyte x (by omega), if_neg (by omega), hgapByte x (by omega), if_neg (by omega)]

/-- From the cursor on, the bytes that differ are counted as the walk meets them: what it has
changed lies behind it. -/
theorem walk_disagrees (policy : OverlapPolicy) (l : List Span) (hl : Separated l)
    (h : w.Over offset stop bytes b) :
    w.Disagrees policy (fillTail offset stop bytes (walk offset stop bytes policy l w))
      ((Finset.Ico w.cursor stop).filter
        (fun x => x ∈ points l ∧ w.Differs offset bytes b x)).card := by
  have hbase : b.base ≤ w.cursor := h.base_le.trans h.offset_le
  induction l generalizing w with
  | nil =>
    simp only [points_nil, Set.mem_empty_iff_false, false_and, Finset.filter_false,
      Finset.card_empty]
    exact fillTail_disagrees policy
  | cons existing rest ih =>
    obtain ⟨hne, hgap, hrest⟩ := separated_cons.1 hl
    unfold walk
    split_ifs with hskip hbreak
    · have hsame : (Finset.Ico w.cursor stop).filter
          (fun x => x ∈ points (existing :: rest) ∧ w.Differs offset bytes b x) =
          (Finset.Ico w.cursor stop).filter (fun x =>
          x ∈ points rest ∧ w.Differs offset bytes b x) := by
        apply Finset.filter_congr
        intro x hx
        rw [Finset.mem_Ico] at hx
        rw [mem_points_cons, or_iff_right (by omega)]
      rw [hsame]
      exact ih hrest h hbase
    · -- every later range starts past the write as well
      have hnone : (Finset.Ico w.cursor stop).filter
          (fun x => x ∈ points (existing :: rest) ∧ w.Differs offset bytes b x) = ∅ := by
        apply Finset.filter_false_of_mem
        intro x hx
        rw [Finset.mem_Ico] at hx
        rintro ⟨hmem, -⟩
        apply not_mem_points_of_lt_starts _ hmem
        intro s hs
        rcases List.mem_cons.1 hs with rfl | hs
        · exact hx.2.trans_le hbreak
        · have := hgap s hs
          omega
      rw [hnone, Finset.card_empty]
      exact fillTail_disagrees policy
    · obtain ⟨hover, hcursor, hbyte⟩ :=
        meet_spec policy h existing (not_le.1 hbreak) (not_le.1 hskip) hne
      have hcursor_le := h.cursor_le
      have hlater := ih hrest hover (by rw [hcursor]; omega)
      have hsame : (Finset.Ico (min existing.stop stop) stop).filter (fun x => x ∈ points rest ∧
            (resolveOverlap offset stop bytes policy existing
              (fillGap offset stop bytes existing w)).Differs offset bytes b x) =
          (Finset.Ico (min existing.stop stop) stop).filter
            (fun x => x ∈ points rest ∧ w.Differs offset bytes b x) := by
        apply Finset.filter_congr
        intro x hx
        rw [Walk.Differs, Walk.Differs, hbyte x (Finset.mem_Ico.1 hx).1]
      rw [hcursor, hsame] at hlater
      rw [card_held_cons (w.Differs offset bytes b) hgap (not_le.1 hskip)]
      exact (meet_disagrees policy h existing (not_le.1 hbreak)).trans hlater

end Walk

def conflicts (b : RangeBuffer) (offset : ℕ) (bytes : List UInt8) : Finset ℕ :=
  (Finset.Ico offset (offset + bytes.length)).filter
    (fun x => x ∈ points b.covered ∧ b.byteAt x ≠ bytes[x - offset]?)

theorem place_disagrees {b : RangeBuffer} (hb : b.Wf) {offset stop : ℕ} (hbase : b.base ≤ offset)
    (hlt : offset < stop) {bytes : List UInt8} (hbytes : stop - offset ≤ bytes.length)
    (policy : OverlapPolicy) :
    (b.place offset stop bytes policy).2.conflicting =
        ((Finset.Ico offset stop).filter
          (fun x => x ∈ points b.covered ∧ b.byteAt x ≠ bytes[x - offset]?)).card ∧
      (b.place offset stop bytes policy).2.replaced =
        if policy = .last then (b.place offset stop bytes policy).2.conflicting else 0 := by
  have hwalk := walk_disagrees policy b.covered hb.separated (over_start hbase hlt hbytes)
  have hsame : (Finset.Ico offset stop).filter (fun x => x ∈ points b.covered ∧
        Walk.Differs offset bytes { b with data := growTo b.data (stop - b.base) 0 }
          ⟨offset, { b with data := growTo b.data (stop - b.base) 0 }, {}⟩ x) =
      (Finset.Ico offset stop).filter
        (fun x => x ∈ points b.covered ∧ b.byteAt x ≠ bytes[x - offset]?) := by
    apply Finset.filter_congr
    intro x _
    apply and_congr_right
    intro hx
    -- growing leaves the covered bytes alone
    rw [Walk.Differs, Walk.byte, byteAt_of_mem b hx, getElem?_growTo_of_lt _ _ _ (hb.index_lt hx)]
  obtain ⟨hconflicting, hreplaced⟩ := hwalk
  simp only [hsame, Nat.zero_add] at hconflicting hreplaced
  have htotal : (b.place offset stop bytes policy).2.conflicting =
      ((Finset.Ico offset stop).filter
        (fun x => x ∈ points b.covered ∧ b.byteAt x ≠ bytes[x - offset]?)).card := hconflicting
  rw [htotal]
  exact ⟨rfl, hreplaced⟩

/-- The outcome of a write that is stored: the counts of storing its interval inside the window, and
what of its bytes is not among the kept ones. -/
structure Stored (b : RangeBuffer) (offset : ℕ) (bytes : List UInt8) (policy : OverlapPolicy)
    (lo hi : ℕ) (kept : List UInt8) : Prop where
  long : hi - lo ≤ kept.length
  exact_iff : kept.length = hi - lo ↔ offset + bytes.length ≤ u64Max ∨ b.windowEnd < u64Max
  bytes_eq : ∀ x, lo ≤ x → x < hi → kept[x - lo]? = bytes[x - offset]?
  buffer_eq : (b.write offset bytes policy).1 = (b.place lo hi kept policy).1
  accepted : (b.write offset bytes policy).2.accepted = (b.place lo hi kept policy).2.accepted
  overlapped : (b.write offset bytes policy).2.overlapped = (b.place lo hi kept policy).2.overlapped
  conflicting : (b.write offset bytes policy).2.conflicting =
    (b.place lo hi kept policy).2.conflicting
  replaced : (b.write offset bytes policy).2.replaced = (b.place lo hi kept policy).2.replaced
  rest : kept.length + (b.write offset bytes policy).2.refused +
    (b.write offset bytes policy).2.beforeWindow = bytes.length

/-- A write stores the bytes of its interval inside the window, or it stores nothing and says so. -/
theorem write_outcome {b : RangeBuffer} (hb : b.Wf) (offset : ℕ) (bytes : List UInt8)
    (policy : OverlapPolicy) {lo hi : ℕ} (hlo : lo = max offset b.base)
    (hhi : hi = min (offset + bytes.length) b.windowEnd) :
    (¬ b.Admits lo hi ∧ ∃ refused before, refused + before = bytes.length ∧
      b.write offset bytes policy = (b, { refused := refused, beforeWindow := before })) ∨
    (b.Admits lo hi ∧ ∃ kept, b.Stored offset bytes policy lo hi kept) := by
  have hend := hb.base_le_windowEnd
  have hbase := hb.base_le
  by_cases hempty : bytes = []
  · left
    refine ⟨fun h => ?_, 0, 0, by rw [hempty, List.length_nil], by simp [write, hempty]⟩
    have := h.1
    simp only [hempty, List.length_nil, Nat.add_zero] at hhi
    omega
  by_cases hbehind : satAdd offset bytes.length ≤ b.base
  · left
    refine ⟨fun h => ?_, 0, bytes.length, Nat.zero_add _, by simp [write, hempty, hbehind]⟩
    have := h.1
    simp only [satAdd, windowEnd] at hbehind hhi hend
    omega
  by_cases hoff : offset < b.base
  · have hlo' : lo = b.base := by omega
    subst hlo'
    have hskip : b.base + (bytes.drop (b.base - offset)).length = offset + bytes.length := by
      simp only [satAdd] at hbehind
      rw [List.length_drop]
      omega
    have hwrite : b.write offset bytes policy =
        ((b.writeFrom b.base (bytes.drop (b.base - offset)) policy).1,
          { (b.writeFrom b.base (bytes.drop (b.base - offset)) policy).2 with
            beforeWindow := b.base - offset }) := by
      simp [write, hempty, hbehind, hoff]
    rcases writeFrom_cases policy (hskip ▸ hhi) with
      ⟨hno, heq⟩ | ⟨hadm, kept, refused, hlen, hsum, hexact, hget, heq⟩
    · left
      refine ⟨hno, (bytes.drop (b.base - offset)).length, b.base - offset, by omega, ?_⟩
      rw [hwrite, heq]
    · right
      rw [heq] at hwrite
      rw [hskip] at hexact
      refine ⟨hadm, kept, ⟨hlen, hexact, ?_, ?_, ?_, ?_, ?_, ?_, ?_⟩⟩
      · intro x hx hx'
        rw [hget _ (by omega), List.getElem?_drop]
        congr 1
        omega
      all_goals rw [hwrite]
      simp only
      omega
  · have hlo' : lo = offset := by omega
    subst hlo'
    have hwrite : b.write lo bytes policy = b.writeFrom lo bytes policy := by
      simp [write, hempty, hbehind, hoff]
    rcases writeFrom_cases policy hhi with
      ⟨hno, heq⟩ | ⟨hadm, kept, refused, hlen, hsum, hexact, hget, heq⟩
    · left
      exact ⟨hno, bytes.length, 0, Nat.add_zero _, by rw [hwrite, heq]⟩
    · right
      rw [heq] at hwrite
      refine ⟨hadm, kept, ⟨hlen, hexact, fun x _ _ => hget _ (by omega), ?_, ?_, ?_, ?_, ?_, ?_⟩⟩
      all_goals rw [hwrite]
      have hbefore := (place_counts kept policy hb hadm.1).2.2.2
      simp only [hbefore]
      omega

theorem admits_of_covered {b : RangeBuffer} {lo hi x : ℕ} (hx : x ∈ points b.covered) (hlo : lo ≤ x)
    (hhi : x < hi) : b.Admits lo hi := by
  obtain ⟨s, hs, hstart, hstop⟩ := hx
  exact ⟨hlo.trans_lt hhi, .inl ⟨s, hs, hlo.trans hstop.le, hstart.trans hhi.le⟩⟩

theorem covered_iff {b : RangeBuffer} (hb : b.Wf) {offset lo hi : ℕ} {bytes : List UInt8}
    (hlo : lo = max offset b.base) (hhi : hi = min (offset + bytes.length) b.windowEnd) {x : ℕ}
    (hx : x ∈ points b.covered) :
    x ∈ Finset.Ico offset (offset + bytes.length) ↔ x ∈ Finset.Ico lo hi := by
  have hbase := hb.base_le_of_mem hx
  obtain ⟨s, hs, _, hstop⟩ := hx
  have hend := hb.stop_le s hs
  rw [Finset.mem_Ico, Finset.mem_Ico]
  omega

theorem conflicts_eq {b : RangeBuffer} (hb : b.Wf) {offset lo hi : ℕ} {bytes kept : List UInt8}
    (hlo : lo = max offset b.base) (hhi : hi = min (offset + bytes.length) b.windowEnd)
    (hget : ∀ x, lo ≤ x → x < hi → kept[x - lo]? = bytes[x - offset]?) :
    b.conflicts offset bytes = (Finset.Ico lo hi).filter
      (fun x => x ∈ points b.covered ∧ b.byteAt x ≠ kept[x - lo]?) := by
  ext x
  rw [conflicts, Finset.mem_filter, Finset.mem_filter]
  constructor
  · rintro ⟨hrange, hx, hne⟩
    have hinside := (covered_iff hb hlo hhi hx).1 hrange
    obtain ⟨hge, hlt⟩ := Finset.mem_Ico.1 hinside
    exact ⟨hinside, hx, by rwa [hget x hge hlt]⟩
  · rintro ⟨hinside, hx, hne⟩
    obtain ⟨hge, hlt⟩ := Finset.mem_Ico.1 hinside
    exact ⟨(covered_iff hb hlo hhi hx).2 hinside, hx, by rwa [hget x hge hlt] at hne⟩

structure Counted (b : RangeBuffer) (offset : ℕ) (bytes : List UInt8) (policy : OverlapPolicy) :
    Prop where
  accepted : (b.write offset bytes policy).1.bufferedBytes =
    b.bufferedBytes + (b.write offset bytes policy).2.accepted
  conflicting : (b.write offset bytes policy).2.conflicting = (b.conflicts offset bytes).card
  replaced : (b.write offset bytes policy).2.replaced =
    if policy = .last then (b.write offset bytes policy).2.conflicting else 0
  unchanged : bytes.length ≤ (b.write offset bytes policy).2.refused +
    (b.write offset bytes policy).2.beforeWindow → (b.write offset bytes policy).1 = b

theorem write_counted {b : RangeBuffer} (hb : b.Wf) (offset : ℕ) (bytes : List UInt8)
    (policy : OverlapPolicy) : b.Counted offset bytes policy := by
  have haccepted := (write_counts hb offset bytes policy).1.buffered hb
    (write_wf hb offset bytes policy).1
  rcases write_outcome hb offset bytes policy rfl rfl with
    ⟨hno, refused, before, hsum, heq⟩ | ⟨hadm, kept, hstored⟩
  · have hnone : b.conflicts offset bytes = ∅ := by
      rw [Finset.eq_empty_iff_forall_notMem]
      intro x hx
      obtain ⟨hrange, hcovered, -⟩ := Finset.mem_filter.1 hx
      obtain ⟨hge, hlt⟩ := Finset.mem_Ico.1 ((covered_iff hb rfl rfl hcovered).1 hrange)
      exact hno (admits_of_covered hcovered hge hlt)
    constructor
    · exact haccepted
    · rw [heq, hnone, Finset.card_empty]
    · rw [heq, ite_self]
    · intro _
      rw [heq]
  · obtain ⟨hconflicting, hreplaced⟩ :=
      place_disagrees hb (le_max_right _ _) hadm.1 hstored.long policy
    constructor
    · exact haccepted
    · rw [hstored.conflicting, hconflicting, conflicts_eq hb rfl rfl hstored.bytes_eq]
    · rw [hstored.replaced, hstored.conflicting, hreplaced]
    · intro hall
      -- a byte that was kept is neither refused nor before the window
      have hrest := hstored.rest
      have hlong := hstored.long
      have hlt := hadm.1
      omega

theorem write_total_iff {b : RangeBuffer} (hb : b.Wf) (offset : ℕ) (bytes : List UInt8)
    (policy : OverlapPolicy) :
    (b.write offset bytes policy).2.accepted + (b.write offset bytes policy).2.overlapped +
        (b.write offset bytes policy).2.refused + (b.write offset bytes policy).2.beforeWindow =
      bytes.length ↔
    offset + bytes.length ≤ u64Max ∨ b.windowEnd < u64Max ∨
      ¬ b.Admits (max offset b.base) u64Max := by
  have hmax := b.windowEnd_le
  rcases write_outcome hb offset bytes policy rfl rfl with
    ⟨hno, refused, before, hsum, heq⟩ | ⟨hadm, kept, hstored⟩
  · rw [heq]
    apply iff_of_true
    · simp only
      omega
    · by_cases hfits : offset + bytes.length ≤ u64Max ∨ b.windowEnd < u64Max
      · exact hfits.imp_right .inl
      · have htop : min (offset + bytes.length) b.windowEnd = u64Max := by omega
        rw [htop] at hno
        exact .inr (.inr hno)
  · have hplaced := (place_counts kept policy hb hadm.1).2.1
    have hrest := hstored.rest
    rw [hstored.accepted, hstored.overlapped]
    have hexact : (b.place (max offset b.base) (min (offset + bytes.length) b.windowEnd) kept
          policy).2.accepted +
          (b.place (max offset b.base) (min (offset + bytes.length) b.windowEnd)
          kept policy).2.overlapped + (b.write offset bytes policy).2.refused +
          (b.write offset bytes policy).2.beforeWindow = bytes.length ↔
        kept.length = min (offset + bytes.length) b.windowEnd - max offset b.base := by
      omega
    rw [hexact, hstored.exact_iff]
    constructor
    · exact fun h => h.imp_right .inl
    · rintro (hfits | hwindow | hno)
      · exact .inl hfits
      · exact .inr hwindow
      · by_contra hover
        have htop : min (offset + bytes.length) b.windowEnd = u64Max := by omega
        rw [htop] at hadm
        exact hno hadm

/-- In every reachable buffer a write counts what it stores, what it stores over and what it
overwrites exactly, and changes nothing when it counts all of its bytes as refused or before the
window. Its counts add up to its bytes unless it goes past the last offset, the window reaches
there, and the write is admitted. -/
theorem write_accounts_iff (base : UInt64) (byteLimit rangeLimit : ℕ) (ops : List BufferOp)
    (offset : UInt64) (bytes : List UInt8) (policy : OverlapPolicy) :
    (after base byteLimit rangeLimit ops).Counted offset.toNat bytes policy ∧
      let b := after base byteLimit rangeLimit ops
      let outcome := (b.write offset.toNat bytes policy).2
      (outcome.accepted + outcome.overlapped + outcome.refused + outcome.beforeWindow =
        bytes.length ↔
        offset.toNat + bytes.length ≤ u64Max ∨ b.windowEnd < u64Max ∨
          ¬ b.Admits (max offset.toNat b.base) u64Max) := by
  obtain ⟨hb, -, -⟩ := after_wf base byteLimit rangeLimit ops
  exact ⟨write_counted hb offset.toNat bytes policy, write_total_iff hb offset.toNat bytes policy⟩

/-- Four bytes at the last offset but one: one is stored, and the others are counted nowhere. -/
theorem bytes_past_top_uncounted :
    (after 0xFFFFFFFFFFFFFFF5 100 8 []).windowEnd = u64Max ∧
      let outcome :=
        ((after 0xFFFFFFFFFFFFFFF5 100 8 []).write 0xFFFFFFFFFFFFFFFE [1, 2, 3, 4] .first).2
      outcome.accepted + outcome.overlapped + outcome.refused + outcome.beforeWindow = 1 ∧
        outcome.accepted + outcome.overlapped + outcome.refused + outcome.beforeWindow ≠
          [1, 2, 3, 4].length := by
  decide +kernel

end CyberSentinel.RangeBuffer
