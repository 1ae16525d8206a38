import CyberSentinel.RangeBuffer

/-!
# What one operation does to a range buffer

`Wf` is the representation invariant. Under it, `write_cases` says that a write either changes
nothing or stores exactly the part of its bytes inside the window, and `place_spec` says what
storing does: the covered points grow by the written interval, and every byte is the old one or the
written one by policy. `drain_spec` does the same for the contiguous prefix. Nothing here assumes
that `offset + bytes.length` fits in 64 bits.
-/

namespace CyberSentinel.RangeBuffer

open Spans Bytes

structure Wf (b : RangeBuffer) : Prop where
  base_le : b.base ≤ u64Max
  separated : Separated b.covered
  start_ge : ∀ s ∈ b.covered, b.base ≤ s.start
  stop_le : ∀ s ∈ b.covered, s.stop ≤ b.windowEnd
  length_le : b.covered.length ≤ b.rangeLimit
  data_length : b.data.length = b.coveredEnd - b.base
  byteLimit_pos : 1 ≤ b.byteLimit
  rangeLimit_pos : 1 ≤ b.rangeLimit

theorem wf_new (base byteLimit rangeLimit : ℕ) (h : base ≤ u64Max) :
    (new base byteLimit rangeLimit).Wf where
  base_le := h
  separated := separated_nil
  start_ge := by simp [new]
  stop_le := by simp [new]
  length_le := by simp [new]
  data_length := by simp [new, coveredEnd]
  byteLimit_pos := le_max_right _ _
  rangeLimit_pos := le_max_right _ _

theorem wf_reset {b : RangeBuffer} (hb : b.Wf) (base : ℕ) (h : base ≤ u64Max) :
    (b.reset base).Wf where
  base_le := h
  separated := separated_nil
  start_ge := by simp [reset]
  stop_le := by simp [reset]
  length_le := by simp [reset]
  data_length := by simp [reset, coveredEnd]
  byteLimit_pos := hb.byteLimit_pos
  rangeLimit_pos := hb.rangeLimit_pos

theorem windowEnd_le (b : RangeBuffer) : b.windowEnd ≤ u64Max := min_le_right _ _

theorem Wf.base_le_windowEnd {b : RangeBuffer} (hb : b.Wf) : b.base ≤ b.windowEnd :=
  le_min (Nat.le_add_right _ _) hb.base_le

theorem Wf.coveredEnd_le {b : RangeBuffer} (hb : b.Wf) : b.coveredEnd ≤ b.windowEnd :=
  lastStop_le hb.base_le_windowEnd hb.stop_le

theorem Wf.base_le_contiguousEnd {b : RangeBuffer} (hb : b.Wf) : b.base ≤ b.contiguousEnd :=
  le_firstHole hb.separated b.base

theorem Wf.contiguousEnd_le_coveredEnd {b : RangeBuffer} (hb : b.Wf) :
    b.contiguousEnd ≤ b.coveredEnd := firstHole_le_lastStop hb.separated hb.start_ge

theorem Wf.base_le_of_mem {b : RangeBuffer} (hb : b.Wf) {x : ℕ} (hx : x ∈ points b.covered) :
    b.base ≤ x := by
  obtain ⟨s, hs, hlo, _⟩ := hx
  exact (hb.start_ge s hs).trans hlo

theorem Wf.index_lt {b : RangeBuffer} (hb : b.Wf) {x : ℕ} (hx : x ∈ points b.covered) :
    x - b.base < b.data.length := by
  have hbase := hb.base_le_of_mem hx
  obtain ⟨s, hs, _, hhi⟩ := hx
  have hlast : s.stop ≤ b.coveredEnd := stop_le_lastStop hb.separated b.base hs
  rw [hb.data_length]
  omega

theorem finish_foldl_inserted (l out : List Span) (m : Span) (h : ∀ s ∈ l, m.stop < s.start)
    (hm : m.start ≤ m.stop) (hl : Separated l) :
    (l.foldl mergeStep ⟨m, out, true⟩).finish = out ++ l := by
  induction l generalizing out with
  | nil => simp [Merge.finish]
  | cons r rest ih =>
    obtain ⟨hr, _, hrest⟩ := separated_cons.1 hl
    have hgap := h r (by simp)
    have hstep : mergeStep ⟨m, out, true⟩ r = ⟨m, out ++ [r], true⟩ := by
      simp only [mergeStep, if_neg (show ¬ r.stop < m.start by omega), if_pos hgap, if_true]
    rw [List.foldl_cons, hstep, ih _ (fun s hs => h s (by simp [hs])) hrest]
    simp

theorem finish_foldl_mergeStep (l out : List Span) (m : Span) (hl : Separated l)
    (hm : m.start ≤ m.stop) :
    (l.foldl mergeStep ⟨m, out, false⟩).finish = out ++ absorb m l := by
  induction l generalizing out m with
  | nil => simp [Merge.finish, absorb]
  | cons r rest ih =>
    obtain ⟨hr, hgap, hrest⟩ := separated_cons.1 hl
    rw [List.foldl_cons]
    unfold absorb
    split_ifs with hbefore hafter
    · have hstep : mergeStep ⟨m, out, false⟩ r = ⟨m, out ++ [r], false⟩ := by
        simp only [mergeStep, if_pos hbefore]
      rw [hstep, ih _ _ hrest hm]
      simp
    · have hstep : mergeStep ⟨m, out, false⟩ r = ⟨m, out ++ [m, r], true⟩ := by
        simp [mergeStep, hbefore, hafter]
      have hlater : ∀ s ∈ rest, m.stop < s.start := by
        intro s hs
        have := hgap s hs
        omega
      rw [hstep, finish_foldl_inserted rest _ m hlater hm hrest]
      simp
    · have hstep : mergeStep ⟨m, out, false⟩ r =
          ⟨⟨min m.start r.start, max m.stop r.stop⟩, out, false⟩ := by
        simp only [mergeStep, if_neg hbefore, if_neg hafter]
      rw [hstep, ih _ _ hrest (by simp only; omega)]

theorem markCovered_covered (b : RangeBuffer) (start stop : ℕ) (hb : Separated b.covered)
    (h : start ≤ stop) : (b.markCovered start stop).covered = absorb ⟨start, stop⟩ b.covered := by
  simpa [markCovered] using finish_foldl_mergeStep b.covered [] ⟨start, stop⟩ hb h

theorem touchesExisting_iff (b : RangeBuffer) (start stop : ℕ) :
    b.touchesExisting start stop = true ↔ Touches ⟨start, stop⟩ b.covered := by
  simp [touchesExisting, Touches]

theorem copyIn_data_length (b : RangeBuffer) {lo hi offset : ℕ} (bytes : List UInt8)
    (hbase : b.base ≤ offset) (hoff : offset ≤ lo) (hle : lo ≤ hi)
    (hdata : hi - b.base ≤ b.data.length) (hbytes : hi - offset ≤ bytes.length) :
    (b.copyIn lo hi offset bytes).data.length = b.data.length := by
  apply length_overwrite
  · omega
  · exact hdata
  · rw [length_slice _ hbytes]
    omega

theorem copyIn_getElem? (b : RangeBuffer) {lo hi offset x : ℕ} (bytes : List UInt8)
    (hbase : b.base ≤ offset) (hoff : offset ≤ lo) (hle : lo ≤ hi)
    (hdata : hi - b.base ≤ b.data.length) (hbytes : hi - offset ≤ bytes.length)
    (hx : b.base ≤ x) :
    (b.copyIn lo hi offset bytes).data[x - b.base]? =
      if lo ≤ x ∧ x < hi then bytes[x - offset]? else b.data[x - b.base]? := by
  have hlen : (slice bytes (lo - offset) (hi - offset)).length = hi - b.base - (lo - b.base) := by
    rw [length_slice _ hbytes]
    omega
  simp only [copyIn, getElem?_overwrite b.data _ (show lo - b.base ≤ hi - b.base by
    omega) hdata hlen]
  by_cases h : lo ≤ x ∧ x < hi
  · rw [if_pos (by omega), if_pos h, getElem?_slice, if_pos (by omega)]
    congr 1
    omega
  · rw [if_neg (by omega), if_neg h]

structure Walk.Over (offset stop : ℕ) (bytes : List UInt8) (b : RangeBuffer) (w : Walk) : Prop where
  base_eq : w.buffer.base = b.base
  covered_eq : w.buffer.covered = b.covered
  byteLimit_eq : w.buffer.byteLimit = b.byteLimit
  rangeLimit_eq : w.buffer.rangeLimit = b.rangeLimit
  length_eq : w.buffer.data.length = b.data.length
  base_le : b.base ≤ offset
  offset_le : offset ≤ w.cursor
  cursor_le : w.cursor ≤ stop
  data_le : stop - b.base ≤ b.data.length
  bytes_le : stop - offset ≤ bytes.length

section Walk

variable {offset stop : ℕ} {bytes : List UInt8} {b : RangeBuffer} {w : Walk}

/-- The byte the walk holds at absolute offset `x`. -/
def Walk.byte (b : RangeBuffer) (w : Walk) (x : ℕ) : Option UInt8 := w.buffer.data[x - b.base]?

theorem Walk.Over.copy (h : w.Over offset stop bytes b) (hi : ℕ) (hle : w.cursor ≤ hi)
    (hstop : hi ≤ stop) (cursor : ℕ) (hcur : w.cursor ≤ cursor) (hcur' : cursor ≤ stop)
    (outcome : WriteOutcome) :
    Walk.Over offset stop bytes b ⟨cursor, w.buffer.copyIn w.cursor hi offset bytes, outcome⟩ ∧
    ∀ x, b.base ≤ x →
      Walk.byte b ⟨cursor, w.buffer.copyIn w.cursor hi offset bytes, outcome⟩ x =
        if w.cursor ≤ x ∧ x < hi then bytes[x - offset]? else w.byte b x := by
  have hbase : w.buffer.base ≤ offset := h.base_eq ▸ h.base_le
  have hdata : hi - w.buffer.base ≤ w.buffer.data.length := by
    have := h.data_le
    rw [h.base_eq, h.length_eq]
    omega
  have hbytes : hi - offset ≤ bytes.length := by
    have := h.bytes_le
    omega
  refine ⟨⟨h.base_eq, h.covered_eq, h.byteLimit_eq, h.rangeLimit_eq, ?_, h.base_le,
    h.offset_le.trans hcur, hcur', h.data_le, h.bytes_le⟩, ?_⟩
  · rw [copyIn_data_length _ _ hbase h.offset_le hle hdata hbytes, h.length_eq]
  · intro x hx
    have hget := copyIn_getElem? w.buffer bytes hbase h.offset_le hle hdata hbytes (x := x)
      (h.base_eq ▸ hx)
    rw [h.base_eq] at hget
    exact hget

theorem fillGap_spec (h : w.Over offset stop bytes b) (existing : Span)
    (hstart : existing.start < stop) :
    (fillGap offset stop bytes existing w).Over offset stop bytes b ∧
    (fillGap offset stop bytes existing w).cursor = max w.cursor existing.start ∧
    ∀ x, b.base ≤ x → (fillGap offset stop bytes existing w).byte b x =
      if w.cursor ≤ x ∧ x < existing.start then bytes[x - offset]? else w.byte b x := by
  unfold fillGap
  split_ifs with hgap
  · have hmin : min existing.start stop = existing.start := min_eq_left hstart.le
    obtain ⟨hover, hbyte⟩ := h.copy existing.start hgap.le hstart.le existing.start hgap.le
      hstart.le { w.outcome with accepted := w.outcome.accepted + (existing.start - w.cursor) }
    simp only [hmin]
    exact ⟨hover, (max_eq_right hgap.le).symm, hbyte⟩
  · refine ⟨h, (max_eq_left (not_lt.1 hgap)).symm, ?_⟩
    intro x hx
    rw [if_neg (by omega)]

theorem resolveOverlap_spec (policy : OverlapPolicy) (h : w.Over offset stop bytes b)
    (existing : Span)
    (hcur : w.cursor ≤ min existing.stop stop) :
    (resolveOverlap offset stop bytes policy existing w).Over offset stop bytes b ∧
    (resolveOverlap offset stop bytes policy existing w).cursor = min existing.stop stop ∧
    ∀ x, b.base ≤ x → (resolveOverlap offset stop bytes policy existing w).byte b x =
      if (w.cursor ≤ x ∧ x < min existing.stop stop) ∧ policy = .last
      then bytes[x - offset]? else w.byte b x := by
  simp only [resolveOverlap]
  split_ifs with hlt hpolicy
  · obtain ⟨hover, hbyte⟩ := h.copy _ hcur (min_le_right _ _) (min existing.stop stop) hcur
      (min_le_right _ _) { w.outcome with
        overlapped := w.outcome.overlapped + (min existing.stop stop - w.cursor)
        conflicting := w.outcome.conflicting +
          w.buffer.countDiffering w.cursor (min existing.stop stop) offset bytes
        replaced := w.outcome.replaced +
          w.buffer.countDiffering w.cursor (min existing.stop stop) offset bytes }
    refine ⟨hover, rfl, ?_⟩
    intro x hx
    rw [hbyte x hx]
    simp [hpolicy]
  · refine ⟨⟨h.base_eq, h.covered_eq, h.byteLimit_eq, h.rangeLimit_eq, h.length_eq, h.base_le,
      h.offset_le.trans hcur, min_le_right _ _, h.data_le, h.bytes_le⟩, rfl, ?_⟩
    intro x _
    rw [if_neg (by simp [hpolicy])]
    rfl
  · refine ⟨h, by omega, ?_⟩
    intro x _
    rw [if_neg (by omega)]

theorem fillTail_spec (h : w.Over offset stop bytes b) :
    (fillTail offset stop bytes w).Over offset stop bytes b ∧
    ∀ x, b.base ≤ x → (fillTail offset stop bytes w).byte b x =
      if w.cursor ≤ x ∧ x < stop then bytes[x - offset]? else w.byte b x := by
  unfold fillTail
  split_ifs with hlt
  · exact h.copy stop hlt.le le_rfl w.cursor le_rfl hlt.le
      { w.outcome with accepted := w.outcome.accepted + (stop - w.cursor) }
  · refine ⟨h, ?_⟩
    intro x _
    rw [if_neg (by omega)]

/-- From the cursor to the end of the write, every uncovered offset takes the written byte, and a
covered one takes it exactly when the policy is `last`. -/
theorem walk_spec (policy : OverlapPolicy) (l : List Span) (hl : Separated l)
    (h : w.Over offset stop bytes b) :
    (fillTail offset stop bytes (walk offset stop bytes policy l w)).Over offset stop bytes b ∧
    ∀ x, b.base ≤ x →
      (fillTail offset stop bytes (walk offset stop bytes policy l w)).byte b x =
        if (w.cursor ≤ x ∧ x < stop) ∧ (policy = .last ∨ x ∉ points l)
        then bytes[x - offset]? else w.byte b x := by
  induction l generalizing w with
  | nil =>
    obtain ⟨hover, hbyte⟩ := fillTail_spec h
    refine ⟨hover, ?_⟩
    intro x hx
    rw [walk, hbyte x hx]
    simp
  | cons existing rest ih =>
    obtain ⟨hne, hgap, hrest⟩ := separated_cons.1 hl
    unfold walk
    split_ifs with hskip hbreak
    · obtain ⟨hover, hbyte⟩ := ih hrest h
      refine ⟨hover, ?_⟩
      intro x hx
      rw [hbyte x hx]
      congr 1
      simp only [mem_points_cons, eq_iff_iff]
      constructor <;> rintro ⟨hrange, hpolicy⟩ <;> refine ⟨hrange, hpolicy.imp_right ?_⟩
      · exact fun hout hmem => hmem.elim (fun h' => by omega) hout
      · exact fun hout hmem => hout (Or.inr hmem)
    · -- every later range starts past the write as well
      obtain ⟨hover, hbyte⟩ := fillTail_spec h
      refine ⟨hover, ?_⟩
      intro x hx
      rw [hbyte x hx]
      congr 1
      simp only [eq_iff_iff]
      constructor
      · intro hrange
        refine ⟨hrange, Or.inr (not_mem_points_of_lt_starts ?_)⟩
        intro s hs
        rcases List.mem_cons.1 hs with rfl | hs
        · omega
        · have := hgap s hs
          omega
      · exact And.left
    · obtain ⟨hgapOver, hgapCursor, hgapByte⟩ := fillGap_spec h existing (not_le.1 hbreak)
      have hcur := h.cursor_le
      obtain ⟨hresOver, hresCursor, hresByte⟩ := resolveOverlap_spec policy hgapOver
        existing (by rw [hgapCursor]; omega)
      obtain ⟨hover, hbyte⟩ := ih hrest hresOver
      refine ⟨hover, ?_⟩
      intro x hx
      rw [hbyte x hx, hresByte x hx, hgapByte x hx, hresCursor, hgapCursor]
      have hout : x ≤ existing.stop → x ∉ points rest :=
        fun hx' => not_mem_points_of_lt_starts (fun s hs => hx'.trans_lt (hgap s hs))
      simp only [mem_points_cons]
      by_cases hpast : existing.stop ≤ x
      · have h1 : ¬ (max w.cursor existing.start ≤ x ∧ x < min existing.stop stop) := by omega
        have h2 : ¬ (w.cursor ≤ x ∧ x < existing.start) := by omega
        have h3 : ¬ (existing.start ≤ x ∧ x < existing.stop) := by omega
        have h4 : (min existing.stop stop ≤ x ∧ x < stop) ↔ (w.cursor ≤ x ∧ x < stop) := by omega
        simp only [h1, h2, h3, h4, false_and, if_false, false_or]
      · have h1 : ¬ (min existing.stop stop ≤ x ∧ x < stop) := by omega
        simp only [h1, hout (by omega), false_and, if_false, or_false]
        by_cases hlow : x < existing.start
        · have h2 : ¬ (max w.cursor existing.start ≤ x ∧ x < min existing.stop stop) := by omega
          have h3 : ¬ (existing.start ≤ x ∧ x < existing.stop) := by omega
          have h4 : (w.cursor ≤ x ∧ x < existing.start) ↔ (w.cursor ≤ x ∧ x < stop) := by omega
          simp only [h2, h3, h4, false_and, if_false, not_false_iff, or_true, and_true]
        · have h2 : ¬ (w.cursor ≤ x ∧ x < existing.start) := by omega
          have h3 : existing.start ≤ x ∧ x < existing.stop := by omega
          have h4 : (max w.cursor existing.start ≤ x ∧ x < min existing.stop stop) ↔
              (w.cursor ≤ x ∧ x < stop) := by omega
          simp only [h2, h3, h4, if_false, not_true, or_false, and_self]

end Walk

/-- The byte stored at absolute offset `x`, if `x` is covered. -/
def byteAt (b : RangeBuffer) (x : ℕ) : Option UInt8 :=
  if x ∈ points b.covered then b.data[x - b.base]? else none

theorem byteAt_of_mem (b : RangeBuffer) {x : ℕ} (hx : x ∈ points b.covered) :
    b.byteAt x = b.data[x - b.base]? := if_pos hx

theorem Wf.byteAt_isSome_iff {b : RangeBuffer} (hb : b.Wf) (x : ℕ) :
    (b.byteAt x).isSome = true ↔ x ∈ points b.covered := by
  unfold byteAt
  split_ifs with hx
  · simp [hx, List.getElem?_eq_getElem (hb.index_lt hx)]
  · simp [hx]

theorem Wf.byteAt_eq_none_iff {b : RangeBuffer} (hb : b.Wf) (x : ℕ) :
    b.byteAt x = none ↔ x ∉ points b.covered := by
  rw [← hb.byteAt_isSome_iff, Option.not_isSome_iff_eq_none]

section Place

variable {offset stop : ℕ} {bytes : List UInt8} {b : RangeBuffer}

theorem over_start (hbase : b.base ≤ offset) (hlt : offset < stop)
    (hbytes : stop - offset ≤ bytes.length) :
    Walk.Over offset stop bytes { b with data := growTo b.data (stop - b.base) 0 }
      ⟨offset, { b with data := growTo b.data (stop - b.base) 0 }, {}⟩ where
  base_eq := rfl
  covered_eq := rfl
  byteLimit_eq := rfl
  rangeLimit_eq := rfl
  length_eq := rfl
  base_le := hbase
  offset_le := le_rfl
  cursor_le := hlt.le
  data_le := by
    rw [length_growTo]
    exact le_max_right _ _
  bytes_le := hbytes

theorem place_wf (policy : OverlapPolicy) (hb : b.Wf) (hbase : b.base ≤ offset)
    (hlt : offset < stop)
    (hstop : stop ≤ b.windowEnd) (hbytes : stop - offset ≤ bytes.length)
    (hroom : Touches ⟨offset, stop⟩ b.covered ∨ b.covered.length < b.rangeLimit) :
    (b.place offset stop bytes policy).1.Wf ∧
    (b.place offset stop bytes policy).1.base = b.base ∧
    (b.place offset stop bytes policy).1.byteLimit = b.byteLimit ∧
    (b.place offset stop bytes policy).1.rangeLimit = b.rangeLimit ∧
    (b.place offset stop bytes policy).1.covered = absorb ⟨offset, stop⟩ b.covered := by
  obtain ⟨hover, _⟩ := walk_spec policy b.covered hb.separated
    (over_start hbase hlt hbytes)
  have hcovered : (b.place offset stop bytes policy).1.covered =
      absorb ⟨offset, stop⟩ b.covered := by
    have hsep := hover.covered_eq ▸ hb.separated
    exact (markCovered_covered _ offset stop hsep hlt.le).trans (by rw [hover.covered_eq])
  have hbase' : (b.place offset stop bytes policy).1.base = b.base := hover.base_eq
  have hlimit : (b.place offset stop bytes policy).1.byteLimit = b.byteLimit := hover.byteLimit_eq
  have hrange : (b.place offset stop bytes policy).1.rangeLimit = b.rangeLimit :=
    hover.rangeLimit_eq
  have hend : (b.place offset stop bytes policy).1.windowEnd = b.windowEnd := by
    simp only [windowEnd, hbase', hlimit]
  refine ⟨⟨?_, ?_, ?_, ?_, ?_, ?_, ?_, ?_⟩, hbase', hlimit, hrange, hcovered⟩
  · exact hbase' ▸ hb.base_le
  · rw [hcovered]
    exact separated_absorb _ _ hb.separated hlt
  · rw [hcovered, hbase']
    exact absorb_start_ge _ _ hb.start_ge hbase
  · rw [hcovered, hend]
    exact absorb_stop_le _ _ hb.stop_le hstop
  · rw [hcovered, hrange]
    rcases hroom with htouch | hfree
    · exact (length_absorb_of_touches _ _ hb.separated htouch).trans hb.length_le
    · exact (length_absorb_le _ _).trans hfree
  · have hlen : (b.place offset stop bytes policy).1.data.length =
        max b.data.length (stop - b.base) := hover.length_eq.trans (length_growTo _ _ _)
    rw [hlen, hb.data_length, coveredEnd, coveredEnd, hcovered, hbase',
      lastStop_absorb _ _ _ hb.separated hlt]
    simp only
    cases hc : b.covered with
    | nil => simp only [lastStop_nil]; omega
    | cons r rest => rw [lastStop_cons, lastStop_cons]; omega
  · exact hlimit ▸ hb.byteLimit_pos
  · exact hrange ▸ hb.rangeLimit_pos

theorem place_byteAt (policy : OverlapPolicy) (hb : b.Wf) (hbase : b.base ≤ offset)
    (hlt : offset < stop) (hstop : stop ≤ b.windowEnd) (hbytes : stop - offset ≤ bytes.length)
    (hroom : Touches ⟨offset, stop⟩ b.covered ∨ b.covered.length < b.rangeLimit) (x : ℕ) :
    (b.place offset stop bytes policy).1.byteAt x =
      if (offset ≤ x ∧ x < stop) ∧ (policy = .last ∨ b.byteAt x = none)
      then bytes[x - offset]? else b.byteAt x := by
  obtain ⟨_, hbase', _, _, hcovered⟩ := place_wf policy hb hbase hlt hstop hbytes hroom
  obtain ⟨_, hbyte⟩ := walk_spec policy b.covered hb.separated
    (over_start hbase hlt hbytes)
  have hmem : x ∈ points (b.place offset stop bytes policy).1.covered ↔
      x ∈ points b.covered ∨ (offset ≤ x ∧ x < stop) := by
    rw [hcovered]
    exact mem_points_absorb _ _ (fun s hs => (hb.separated.nonempty s hs).le) hlt.le x
  simp only [hb.byteAt_eq_none_iff]
  by_cases hx : x ∈ points b.covered ∨ (offset ≤ x ∧ x < stop)
  · have hxb : b.base ≤ x := hx.elim hb.base_le_of_mem (fun h => hbase.trans h.1)
    rw [byteAt_of_mem _ (hmem.2 hx), hbase']
    apply (hbyte x hxb).trans
    split_ifs with hnew
    · rfl
    · -- the byte kept from before lies in the old data, which growing left alone
      have hold : x ∈ points b.covered := by tauto
      rw [byteAt_of_mem _ hold]
      exact getElem?_growTo_of_lt _ _ _ (hb.index_lt hold)
  · have hout : x ∉ points (b.place offset stop bytes policy).1.covered := fun h => hx (hmem.1 h)
    rw [byteAt, if_neg hout, if_neg (fun h => hx (Or.inr h.1)), byteAt,
      if_neg (fun h => hx (Or.inl h))]

end Place

/-- The interval `[lo, hi)` is not empty, and it either extends a covered range or may open one. -/
def Admits (b : RangeBuffer) (lo hi : ℕ) : Prop :=
  lo < hi ∧ (Touches ⟨lo, hi⟩ b.covered ∨ b.covered.length < b.rangeLimit)

/-- An interval is admitted if the runs it would leave are no more than the limit. -/
theorem admits_of_ranges_le {b : RangeBuffer} (hb : b.Wf) {lo hi : ℕ} (hlt : lo < hi)
    (h : (runStarts {x | x ∈ points b.covered ∨ (lo ≤ x ∧ x < hi)}).ncard ≤ b.rangeLimit) :
    b.Admits lo hi := by
  refine ⟨hlt, ?_⟩
  by_contra hno
  obtain ⟨hnot, hfull⟩ := not_or.1 hno
  rw [ncard_ranges hb.separated hlt, length_absorb_of_not_touches b.covered ⟨lo, hi⟩ hnot] at h
  omega

theorem writeFrom_cases {b : RangeBuffer} {offset : ℕ} {bytes : List UInt8} (policy : OverlapPolicy)
    {hi : ℕ} (hhi : hi = min (offset + bytes.length) b.windowEnd) :
    (¬ b.Admits offset hi ∧ b.writeFrom offset bytes policy = (b, { refused := bytes.length })) ∨
    (b.Admits offset hi ∧ ∃ kept : List UInt8, ∃ refused : ℕ, hi - offset ≤ kept.length ∧
      kept.length + refused = bytes.length ∧
      (kept.length = hi - offset ↔ offset + bytes.length ≤ u64Max ∨ b.windowEnd < u64Max) ∧
      (∀ i < hi - offset, kept[i]? = bytes[i]?) ∧
      b.writeFrom offset bytes policy = ((b.place offset hi kept policy).1,
        { (b.place offset hi kept policy).2 with refused := refused })) := by
  have hmax := b.windowEnd_le
  by_cases hpast : b.windowEnd ≤ offset
  · left
    exact ⟨fun h => by have := h.1; omega, by simp [writeFrom, hpast]⟩
  obtain ⟨kept, refused, hkept, hlen, hsum, hexact, hget⟩ : ∃ kept : List UInt8, ∃ refused : ℕ,
      (if b.windowEnd < satAdd offset bytes.length then
        (bytes.take (b.windowEnd - offset), bytes.length - (b.windowEnd - offset))
      else (bytes, 0)) = (kept, refused) ∧ hi = satAdd offset kept.length ∧
      kept.length + refused = bytes.length ∧
      (kept.length = hi - offset ↔ offset + bytes.length ≤ u64Max ∨ b.windowEnd < u64Max) ∧
      (∀ i < hi - offset, kept[i]? = bytes[i]?) := by
    split_ifs with hover
    · simp only [satAdd] at hover
      refine ⟨_, _, rfl, ?_, ?_, ?_, ?_⟩
      · simp only [satAdd, List.length_take]
        omega
      · rw [List.length_take]
        omega
      · rw [List.length_take]
        omega
      · intro i hi'
        exact List.getElem?_take_of_lt (by omega)
    · simp only [satAdd] at hover
      refine ⟨_, _, rfl, ?_, Nat.add_zero _, ?_, fun _ _ => rfl⟩
      · simp only [satAdd]
        omega
      · omega
  have hhilo : offset < hi ↔ kept ≠ [] := by
    rw [hlen, satAdd, ← List.length_pos_iff]
    omega
  unfold writeFrom
  simp only [if_neg hpast, hkept]
  by_cases hempty : kept = []
  · left
    rw [hempty, List.length_nil, Nat.zero_add] at hsum
    exact ⟨fun h => hhilo.1 h.1 hempty, by simp [hempty, hsum]⟩
  · rw [if_neg (by simpa using hempty), ← hlen]
    by_cases hcap : b.rangeLimit ≤ b.covered.length ∧ b.touchesExisting offset hi = false
    · left
      refine ⟨?_, by simp [hcap, ← hsum, Nat.add_comm]⟩
      rintro ⟨_, htouch | hfree⟩
      · simp [(touchesExisting_iff b offset hi).2 htouch] at hcap
      · omega
    · right
      refine ⟨⟨hhilo.2 hempty, ?_⟩, kept, refused, ?_, hsum, hexact, hget, by simp [hcap]⟩
      · by_contra hno
        simp only [not_or, not_lt, ← touchesExisting_iff, Bool.not_eq_true] at hno
        exact hcap ⟨hno.2, hno.1⟩
      · rw [hlen, satAdd]
        omega

/-- A write changes nothing, or it places exactly the bytes of its interval inside the window. -/
theorem write_cases {b : RangeBuffer} (hb : b.Wf) (offset : ℕ) (bytes : List UInt8)
    (policy : OverlapPolicy) {lo hi : ℕ} (hlo : lo = max offset b.base)
    (hhi : hi = min (offset + bytes.length) b.windowEnd) :
    (¬ b.Admits lo hi ∧ (b.write offset bytes policy).1 = b) ∨
    (b.Admits lo hi ∧ ∃ kept : List UInt8, hi - lo ≤ kept.length ∧
      (∀ x, lo ≤ x → x < hi → kept[x - lo]? = bytes[x - offset]?) ∧
      (b.write offset bytes policy).1 = (b.place lo hi kept policy).1) := by
  have hend := hb.base_le_windowEnd
  have hbase := hb.base_le
  by_cases hempty : bytes = []
  · left
    refine ⟨fun h => ?_, by simp [write, hempty]⟩
    have := h.1
    simp only [hempty, List.length_nil, Nat.add_zero] at hhi
    omega
  by_cases hbehind : satAdd offset bytes.length ≤ b.base
  · left
    refine ⟨fun h => ?_, by simp [write, hempty, hbehind]⟩
    have := h.1
    simp only [satAdd, windowEnd] at hbehind hhi hend
    omega
  by_cases hoff : offset < b.base
  · have hlo' : lo = b.base := by omega
    subst hlo'
    have hhi' : hi = min (b.base + (bytes.drop (b.base - offset)).length) b.windowEnd := by
      simp only [satAdd] at hbehind
      rw [List.length_drop]
      omega
    have hwrite : (b.write offset bytes policy).1 =
        (b.writeFrom b.base (bytes.drop (b.base - offset)) policy).1 := by
      simp [write, hempty, hbehind, hoff]
    rw [hwrite]
    apply (writeFrom_cases policy hhi').imp (And.imp_right (congrArg Prod.fst))
    rintro ⟨hadm, kept, _, hlen, _, _, hget, heq⟩
    refine ⟨hadm, kept, hlen, ?_, by rw [heq]⟩
    intro x hx hx'
    rw [hget _ (by omega), List.getElem?_drop]
    congr 1
    omega
  · have hlo' : lo = offset := by omega
    subst hlo'
    have hwrite : (b.write lo bytes policy).1 = (b.writeFrom lo bytes policy).1 := by
      simp [write, hempty, hbehind, hoff]
    rw [hwrite]
    apply (writeFrom_cases policy hhi).imp (And.imp_right (congrArg Prod.fst))
    rintro ⟨hadm, kept, _, hlen, _, _, hget, heq⟩
    exact ⟨hadm, kept, hlen, fun x _ _ => hget _ (by omega), by rw [heq]⟩

theorem write_wf {b : RangeBuffer} (hb : b.Wf) (offset : ℕ) (bytes : List UInt8)
    (policy : OverlapPolicy) :
    (b.write offset bytes policy).1.Wf ∧ (b.write offset bytes policy).1.base = b.base ∧
    (b.write offset bytes policy).1.byteLimit = b.byteLimit ∧
    (b.write offset bytes policy).1.rangeLimit = b.rangeLimit := by
  rcases write_cases hb offset bytes policy rfl rfl with ⟨_, heq⟩ | ⟨hadm, kept, hlen, _, heq⟩
  · rw [heq]
    exact ⟨hb, rfl, rfl, rfl⟩
  · obtain ⟨hwf, hbase, hlimit, hrange, _⟩ := place_wf policy hb (le_max_right _ _)
      hadm.1 (min_le_right _ _) hlen hadm.2
    rw [heq]
    exact ⟨hwf, hbase, hlimit, hrange⟩

theorem write_byteAt_of_not_admits {b : RangeBuffer} (hb : b.Wf) (offset : ℕ) (bytes : List UInt8)
    (policy : OverlapPolicy)
    (h : ¬ b.Admits (max offset b.base) (min (offset + bytes.length) b.windowEnd)) :
    (b.write offset bytes policy).1 = b := by
  rcases write_cases hb offset bytes policy rfl rfl with ⟨_, heq⟩ | ⟨hadm, _⟩
  · exact heq
  · exact absurd hadm h

theorem write_byteAt_of_admits {b : RangeBuffer} (hb : b.Wf) (offset : ℕ) (bytes : List UInt8)
    (policy : OverlapPolicy)
    (h : b.Admits (max offset b.base) (min (offset + bytes.length) b.windowEnd)) (x : ℕ) :
    (b.write offset bytes policy).1.byteAt x =
      if (max offset b.base ≤ x ∧ x < min (offset + bytes.length) b.windowEnd) ∧
        (policy = .last ∨ b.byteAt x = none) then bytes[x - offset]? else b.byteAt x := by
  rcases write_cases hb offset bytes policy rfl rfl with ⟨hno, _⟩ | ⟨hadm, kept, hlen, hget, heq⟩
  · exact absurd h hno
  · rw [heq, place_byteAt policy hb (le_max_right _ _) hadm.1 (min_le_right _ _) hlen hadm.2]
    split_ifs with hx
    · exact hget x hx.1.1 hx.1.2
    · rfl

/-- An admitted write covers its interval inside the window in addition. -/
theorem write_points_of_admits {b : RangeBuffer} (hb : b.Wf) (offset : ℕ) (bytes : List UInt8)
    (policy : OverlapPolicy)
    (h : b.Admits (max offset b.base) (min (offset + bytes.length) b.windowEnd)) (x : ℕ) :
    x ∈ points (b.write offset bytes policy).1.covered ↔ x ∈ points b.covered ∨
      (max offset b.base ≤ x ∧ x < min (offset + bytes.length) b.windowEnd) := by
  rcases write_cases hb offset bytes policy rfl rfl with ⟨hno, _⟩ | ⟨hadm, kept, hlen, _, heq⟩
  · exact absurd h hno
  · obtain ⟨_, _, _, _, hcovered⟩ := place_wf policy hb (le_max_right _ _) hadm.1 (min_le_right _ _)
      hlen hadm.2
    rw [heq, hcovered]
    exact mem_points_absorb _ _ (fun s hs => (hb.separated.nonempty s hs).le) hadm.1.le x

theorem drain_cases (b : RangeBuffer) (limit : ℕ) (hb : b.Wf) :
    ∃ stop, stop = max b.base (min b.contiguousEnd limit) ∧
      b.drainContiguousUpto limit = (b.consume (stop - b.base), b.data.take (stop - b.base)) := by
  have hbase := hb.base_le_contiguousEnd
  by_cases hnone : min b.contiguousEnd limit ≤ b.base
  · refine ⟨b.base, by omega, ?_⟩
    have htrim : trim b.base b.covered = b.covered := by
      apply trim_eq_self
      exact fun s hs => ⟨hb.start_ge s hs, (hb.start_ge s hs).trans_lt (hb.separated.nonempty s hs)⟩
    simp [drainContiguousUpto, hnone, consume, htrim]
  · refine ⟨min b.contiguousEnd limit, by omega, ?_⟩
    simp only [drainContiguousUpto, if_neg hnone]

theorem consume_wf {b : RangeBuffer} (hb : b.Wf) {stop : ℕ} (hlo : b.base ≤ stop)
    (hhi : stop ≤ b.contiguousEnd) : (b.consume (stop - b.base)).Wf := by
  have hstop : b.base + (stop - b.base) = stop := by omega
  have hcov : stop ≤ b.coveredEnd := hhi.trans hb.contiguousEnd_le_coveredEnd
  have hmono : b.windowEnd ≤ (b.consume (stop - b.base)).windowEnd := by
    simp only [windowEnd, satAdd, consume]
    omega
  constructor
  · have := hb.coveredEnd_le
    have := b.windowEnd_le
    simp only [consume]
    omega
  · exact separated_trim _ hb.separated
  · exact trim_start_ge _ _
  · exact fun s hs => (trim_stop_le hb.stop_le s hs).trans hmono
  · exact (length_trim_le _ _).trans hb.length_le
  · have hlast : lastStop stop (trim stop b.covered) = b.coveredEnd :=
      lastStop_trim hb.separated hlo hcov
    simp only [consume, coveredEnd, hstop, hlast, List.length_drop, hb.data_length]
    omega
  · exact hb.byteLimit_pos
  · exact hb.rangeLimit_pos

theorem consume_contiguousEnd {b : RangeBuffer} (hb : b.Wf) {stop : ℕ} (hlo : b.base ≤ stop)
    (hhi : stop ≤ b.contiguousEnd) :
    (b.consume (stop - b.base)).contiguousEnd = b.contiguousEnd := by
  have hstop : b.base + (stop - b.base) = stop := by omega
  simp only [contiguousEnd, consume, hstop]
  exact firstHole_trim hb.separated hb.start_ge hlo hhi

theorem consume_byteAt {b : RangeBuffer} {stop : ℕ} (hlo : b.base ≤ stop) (x : ℕ) :
    (b.consume (stop - b.base)).byteAt x = if stop ≤ x then b.byteAt x else none := by
  have hstop : b.base + (stop - b.base) = stop := by omega
  simp only [byteAt, consume, hstop, mem_points_trim, List.getElem?_drop]
  by_cases hx : stop ≤ x
  · simp only [hx, and_true, if_true, show stop - b.base + (x - stop) = x - b.base by omega]
  · simp only [hx, and_false, if_false]

/-- The bytes taken are those stored from `base` on, one for each offset below `stop`. -/
theorem take_data_eq {b : RangeBuffer} (hb : b.Wf) {stop : ℕ} (hhi : stop ≤ b.contiguousEnd) :
    (b.data.take (stop - b.base)).map some =
      (List.range' b.base (stop - b.base)).map b.byteAt := by
  have hlen : stop - b.base ≤ b.data.length := by
    have := hb.contiguousEnd_le_coveredEnd
    rw [hb.data_length]
    omega
  apply List.ext_getElem?
  intro i
  by_cases hi : i < stop - b.base
  · have hmem : b.base + i ∈ points b.covered :=
      mem_points_of_lt_firstHole (Nat.le_add_right _ _)
        (lt_of_lt_of_le (show b.base + i < stop by omega) hhi)
    simp [hi, byteAt_of_mem b hmem, List.getElem?_eq_getElem (show i < b.data.length by omega)]
  · simp [hi]

end CyberSentinel.RangeBuffer
