import CyberSentinel.ByteMap
import CyberSentinel.Crashes
import CyberSentinel.RangeBufferCounts

/-!
# A range buffer never indexes out of bounds

Each operation of the buffer a second time, with the checks of its differences, sums and slices,
under its name with a question mark. On a well-formed buffer none of the checks fails and the answer
is that of the plain operation, so every run returns, and ends in a well-formed buffer.
-/

namespace CyberSentinel.RangeBuffer

open Spans Bytes Crashes

def bufferedBytes? (b : RangeBuffer) : Option ℕ :=
  (b.covered.mapM (fun r => sub? r.stop r.start)).map List.sum

def copyIn? (b : RangeBuffer) (lo hi writeOffset : ℕ) (bytes : List UInt8) :
    Option RangeBuffer := do
  let sourceStart ← sub? lo writeOffset
  let sourceEnd ← sub? hi writeOffset
  let targetStart ← sub? lo b.base
  let targetEnd ← sub? hi b.base
  let source ← slice? bytes sourceStart sourceEnd
  let data ← copy? b.data targetStart targetEnd source
  some { b with data }

def countDiffering? (b : RangeBuffer) (lo hi writeOffset : ℕ) (bytes : List UInt8) : Option ℕ := do
  let sourceStart ← sub? lo writeOffset
  let sourceEnd ← sub? hi writeOffset
  let targetStart ← sub? lo b.base
  let targetEnd ← sub? hi b.base
  let target ← slice? b.data targetStart targetEnd
  let source ← slice? bytes sourceStart sourceEnd
  some ((target.zip source).countP (fun p => p.1 != p.2))

def fillGap? (offset stop : ℕ) (bytes : List UInt8) (existing : Span) (w : Walk) : Option Walk :=
  if w.cursor < existing.start then do
    let gapEnd := min existing.start stop
    let buffer ← w.buffer.copyIn? w.cursor gapEnd offset bytes
    let stored ← sub? gapEnd w.cursor
    some
      { cursor := gapEnd
        buffer
        outcome := { w.outcome with accepted := w.outcome.accepted + stored } }
  else some w

def resolveOverlap? (offset stop : ℕ) (bytes : List UInt8) (policy : OverlapPolicy)
    (existing : Span) (w : Walk) : Option Walk :=
  let overlapEnd := min existing.stop stop
  if w.cursor < overlapEnd then do
    let differing ← w.buffer.countDiffering? w.cursor overlapEnd offset bytes
    let landed ← sub? overlapEnd w.cursor
    let outcome := { w.outcome with
      overlapped := w.outcome.overlapped + landed
      conflicting := w.outcome.conflicting + differing }
    if policy = .last then do
      let buffer ← w.buffer.copyIn? w.cursor overlapEnd offset bytes
      some
        { cursor := overlapEnd
          buffer
          outcome := { outcome with replaced := outcome.replaced + differing } }
    else some { w with cursor := overlapEnd, outcome := outcome }
  else some w

def walk? (offset stop : ℕ) (bytes : List UInt8) (policy : OverlapPolicy) :
    List Span → Walk → Option Walk
  | [], w => some w
  | existing :: rest, w =>
    if existing.stop ≤ w.cursor then walk? offset stop bytes policy rest w
    else if stop ≤ existing.start then some w
    else do
      let w ← fillGap? offset stop bytes existing w
      let w ← resolveOverlap? offset stop bytes policy existing w
      walk? offset stop bytes policy rest w

def fillTail? (offset stop : ℕ) (bytes : List UInt8) (w : Walk) : Option Walk :=
  if w.cursor < stop then do
    let buffer ← w.buffer.copyIn? w.cursor stop offset bytes
    let stored ← sub? stop w.cursor
    some
      { w with
        buffer
        outcome := { w.outcome with accepted := w.outcome.accepted + stored } }
  else some w

def place? (b : RangeBuffer) (offset stop : ℕ) (bytes : List UInt8) (policy : OverlapPolicy) :
    Option (RangeBuffer × WriteOutcome) := do
  let needed ← sub? stop b.base
  let grown := { b with data := growTo b.data needed 0 }
  let w ← walk? offset stop bytes policy b.covered ⟨offset, grown, {}⟩
  let w ← fillTail? offset stop bytes w
  some (w.buffer.markCovered offset stop, w.outcome)

def cap? (b : RangeBuffer) (offset : ℕ) (bytes : List UInt8) : Option (List UInt8 × ℕ) :=
  if b.windowEnd < satAdd offset bytes.length then do
    let keep ← sub? b.windowEnd offset
    let refused ← sub? bytes.length keep
    let kept ← slice? bytes 0 keep
    some (kept, refused)
  else some (bytes, 0)

def writeFrom? (b : RangeBuffer) (offset : ℕ) (bytes : List UInt8) (policy : OverlapPolicy) :
    Option (RangeBuffer × WriteOutcome) :=
  if b.windowEnd ≤ offset then some (b, { refused := bytes.length })
  else
    (b.cap? offset bytes).bind fun capped =>
      if capped.1.isEmpty then some (b, { refused := capped.2 })
      else
        let stop := satAdd offset capped.1.length
        if b.rangeLimit ≤ b.covered.length ∧ b.touchesExisting offset stop = false then
          some (b, { refused := capped.2 + capped.1.length })
        else
          (b.place? offset stop capped.1 policy).map fun placed =>
            (placed.1, { placed.2 with refused := capped.2 })

def write? (b : RangeBuffer) (offset : ℕ) (bytes : List UInt8) (policy : OverlapPolicy) :
    Option (RangeBuffer × WriteOutcome) :=
  if bytes.isEmpty then some (b, {})
  else if satAdd offset bytes.length ≤ b.base then some (b, { beforeWindow := bytes.length })
  else if offset < b.base then do
    let skip ← sub? b.base offset
    let rest ← slice? bytes skip bytes.length
    let written ← b.writeFrom? b.base rest policy
    some (written.1, { written.2 with beforeWindow := skip })
  else b.writeFrom? offset bytes policy

def consume? (b : RangeBuffer) (count : ℕ) : Option RangeBuffer := do
  let data ← slice? b.data count b.data.length
  let base ← add? u64Max b.base count
  some { b with data, base, covered := trim base b.covered }

def drainContiguousUpto? (b : RangeBuffer) (limit : ℕ) : Option (RangeBuffer × List UInt8) :=
  let stop := min b.contiguousEnd limit
  if stop ≤ b.base then some (b, [])
  else do
    let count ← sub? stop b.base
    let out ← slice? b.data 0 count
    let rest ← b.consume? count
    some (rest, out)

def peekContiguous? (b : RangeBuffer) : Option (List UInt8) := do
  let count ← sub? b.contiguousEnd b.base
  slice? b.data 0 (min count b.data.length)

def step? (b : RangeBuffer) : BufferOp → Option (RangeBuffer × List UInt8)
  | .write offset bytes policy =>
    (b.write? offset.toNat bytes policy).map (fun written => (written.1, []))
  | .drainUpto limit => b.drainContiguousUpto? limit.toNat
  | .drain => b.drainContiguousUpto? u64Max
  | .reset base => some (b.reset base.toNat, [])

section Copying

variable {b : RangeBuffer} {lo hi offset : ℕ} {bytes : List UInt8} (hbase : b.base ≤ offset)
  (hoff : offset ≤ lo) (hle : lo ≤ hi) (hdata : hi - b.base ≤ b.data.length)
  (hbytes : hi - offset ≤ bytes.length)
include hbase hoff hle hdata hbytes

theorem copyIn?_eq : b.copyIn? lo hi offset bytes = some (b.copyIn lo hi offset bytes) := by
  have hsource : slice? bytes (lo - offset) (hi - offset) =
      some (slice bytes (lo - offset) (hi - offset)) := slice?_of_le (by omega) hbytes
  have hcopy : copy? b.data (lo - b.base) (hi - b.base) (slice bytes (lo - offset) (hi - offset)) =
      some (overwrite b.data (lo - b.base) (hi - b.base)
      (slice bytes (lo - offset) (hi - offset))) :=
    copy?_of_le (by omega) hdata (by rw [length_slice _ hbytes]; omega)
  simp only [copyIn?, sub?_of_le hoff, sub?_of_le (hoff.trans hle), sub?_of_le (hbase.trans hoff),
    sub?_of_le (hbase.trans (hoff.trans hle)), Option.bind_eq_bind, Option.bind_some,
    hsource, hcopy]
  rfl

theorem countDiffering?_eq :
    b.countDiffering? lo hi offset bytes = some (b.countDiffering lo hi offset bytes) := by
  have hsource : slice? bytes (lo - offset) (hi - offset) =
      some (slice bytes (lo - offset) (hi - offset)) := slice?_of_le (by omega) hbytes
  have htarget : slice? b.data (lo - b.base) (hi - b.base) =
      some (slice b.data (lo - b.base) (hi - b.base)) := slice?_of_le (by omega) hdata
  simp only [countDiffering?, sub?_of_le hoff, sub?_of_le (hoff.trans hle),
    sub?_of_le (hbase.trans hoff), sub?_of_le (hbase.trans (hoff.trans hle)), Option.bind_eq_bind,
    Option.bind_some, hsource, htarget]
  rfl

end Copying

section Walk

variable {offset stop : ℕ} {bytes : List UInt8} {b : RangeBuffer} {w : Walk}

theorem Walk.Over.copyIn?_eq (h : w.Over offset stop bytes b) {hi : ℕ} (hle : w.cursor ≤ hi)
    (hstop : hi ≤ stop) :
    w.buffer.copyIn? w.cursor hi offset bytes =
      some (w.buffer.copyIn w.cursor hi offset bytes) := by
  have hdata := h.data_le
  have hbytes := h.bytes_le
  apply RangeBuffer.copyIn?_eq (h.base_eq ▸ h.base_le) h.offset_le hle
  · rw [h.base_eq, h.length_eq]
    omega
  · omega

theorem Walk.Over.countDiffering?_eq (h : w.Over offset stop bytes b) {hi : ℕ} (hle : w.cursor ≤ hi)
    (hstop : hi ≤ stop) :
    w.buffer.countDiffering? w.cursor hi offset bytes =
      some (w.buffer.countDiffering w.cursor hi offset bytes) := by
  have hdata := h.data_le
  have hbytes := h.bytes_le
  apply RangeBuffer.countDiffering?_eq (h.base_eq ▸ h.base_le) h.offset_le hle
  · rw [h.base_eq, h.length_eq]
    omega
  · omega

theorem fillGap?_eq (h : w.Over offset stop bytes b) (existing : Span)
    (hstart : existing.start < stop) :
    fillGap? offset stop bytes existing w = some (fillGap offset stop bytes existing w) := by
  unfold fillGap? fillGap
  split_ifs with hgap
  · have hle : w.cursor ≤ min existing.start stop := le_min hgap.le (hgap.le.trans hstart.le)
    simp only [h.copyIn?_eq hle (min_le_right _ _), sub?_of_le hle, Option.bind_eq_bind,
      Option.bind_some]
  · rfl

theorem resolveOverlap?_eq (policy : OverlapPolicy) (h : w.Over offset stop bytes b)
    (existing : Span) :
    resolveOverlap? offset stop bytes policy existing w =
      some (resolveOverlap offset stop bytes policy existing w) := by
  simp only [resolveOverlap?, resolveOverlap]
  by_cases hlt : w.cursor < min existing.stop stop
  · simp only [if_pos hlt, h.countDiffering?_eq hlt.le (min_le_right _ _), sub?_of_le hlt.le,
      h.copyIn?_eq hlt.le (min_le_right _ _), Option.bind_eq_bind, Option.bind_some]
    split_ifs <;> rfl
  · rw [if_neg hlt, if_neg hlt]

theorem fillTail?_eq (h : w.Over offset stop bytes b) :
    fillTail? offset stop bytes w = some (fillTail offset stop bytes w) := by
  unfold fillTail? fillTail
  split_ifs with hlt
  · simp only [h.copyIn?_eq hlt.le le_rfl, sub?_of_le hlt.le, Option.bind_eq_bind, Option.bind_some]
  · rfl

/-- From one range to the next the walk stays over the buffer it started from, so that none of its
copies leaves the data or the write. -/
theorem walk?_eq (policy : OverlapPolicy) (l : List Span) (hl : ∀ s ∈ l, s.start < s.stop)
    (h : w.Over offset stop bytes b) :
    walk? offset stop bytes policy l w = some (walk offset stop bytes policy l w) ∧
      (walk offset stop bytes policy l w).Over offset stop bytes b := by
  induction l generalizing w with
  | nil => exact ⟨rfl, h⟩
  | cons existing rest ih =>
    have hne := hl existing List.mem_cons_self
    have hrest : ∀ s ∈ rest, s.start < s.stop := fun s hs => hl s (List.mem_cons_of_mem _ hs)
    unfold walk? walk
    split_ifs with hskip hbreak
    · exact ih hrest h
    · exact ⟨rfl, h⟩
    · obtain ⟨hgap, hcursor, _⟩ := fillGap_spec h existing (not_le.1 hbreak)
      have hcur : (fillGap offset stop bytes existing w).cursor ≤ min existing.stop stop := by
        have := h.cursor_le
        rw [hcursor]
        omega
      obtain ⟨hover, _⟩ := resolveOverlap_spec policy hgap existing hcur
      simp only [fillGap?_eq h existing (not_le.1 hbreak), resolveOverlap?_eq policy hgap existing,
        Option.bind_eq_bind, Option.bind_some]
      exact ih hrest hover

theorem place?_eq (policy : OverlapPolicy) (hb : b.Wf) (hbase : b.base ≤ offset)
    (hlt : offset < stop)
    (hbytes : stop - offset ≤ bytes.length) :
    b.place? offset stop bytes policy = some (b.place offset stop bytes policy) := by
  obtain ⟨hwalk, hover⟩ := walk?_eq policy b.covered hb.separated.nonempty
    (over_start hbase hlt hbytes)
  simp only [place?, sub?_of_le (hbase.trans hlt.le), hwalk, fillTail?_eq hover,
    Option.bind_eq_bind,
    Option.bind_some]
  rfl

end Walk

theorem cap?_eq {b : RangeBuffer} {offset : ℕ} (hin : offset < b.windowEnd) (bytes : List UInt8) :
    b.cap? offset bytes = some (if b.windowEnd < satAdd offset bytes.length then
      (bytes.take (b.windowEnd - offset), bytes.length - (b.windowEnd - offset)) else
      (bytes, 0)) := by
  unfold cap?
  split_ifs with hover
  · have hkeep : b.windowEnd - offset ≤ bytes.length := by
      rw [satAdd] at hover
      omega
    simp only [sub?_of_le hin.le, sub?_of_le hkeep, slice?_take hkeep, Option.bind_eq_bind,
      Option.bind_some]
  · rfl

theorem writeFrom?_eq {b : RangeBuffer} (hb : b.Wf) {offset : ℕ} (hbase : b.base ≤ offset)
    (bytes : List UInt8) (policy : OverlapPolicy) :
    b.writeFrom? offset bytes policy = some (b.writeFrom offset bytes policy) := by
  unfold writeFrom? writeFrom
  by_cases hpast : b.windowEnd ≤ offset
  · rw [if_pos hpast, if_pos hpast]
  · rw [if_neg hpast, if_neg hpast, cap?_eq (not_le.1 hpast), Option.bind_some]
    generalize (if b.windowEnd < satAdd offset bytes.length then
      (bytes.take (b.windowEnd - offset), bytes.length - (b.windowEnd - offset))
      else (bytes, 0)) = capped
    obtain ⟨kept, refused⟩ := capped
    dsimp only
    split_ifs with hempty hcap
    · rfl
    · rfl
    · have hpos : 0 < kept.length := by
        rw [List.length_pos_iff]
        exact fun hnil => hempty (List.isEmpty_iff.2 hnil)
      have hmax := b.windowEnd_le
      have hlt : offset < satAdd offset kept.length := by
        rw [satAdd]
        omega
      have hbytes : satAdd offset kept.length - offset ≤ kept.length := by
        rw [satAdd]
        omega
      rw [place?_eq policy hb hbase hlt hbytes, Option.map_some]

theorem write?_eq {b : RangeBuffer} (hb : b.Wf) (offset : ℕ) (bytes : List UInt8)
    (policy : OverlapPolicy) :
    b.write? offset bytes policy = some (b.write offset bytes policy) := by
  unfold write? write
  split_ifs with hempty hbehind hoff
  · rfl
  · rfl
  · have hskip : b.base - offset ≤ bytes.length := by
      rw [satAdd] at hbehind
      have := hb.base_le
      omega
    simp only [sub?_of_le hoff.le, slice?_drop hskip, writeFrom?_eq hb le_rfl, Option.bind_eq_bind,
      Option.bind_some]
  · exact writeFrom?_eq hb (not_lt.1 hoff) bytes policy

theorem consume?_eq {b : RangeBuffer} (hb : b.Wf) {count : ℕ} (hcount : count ≤ b.data.length) :
    b.consume? count = some (b.consume count) := by
  have hsum : b.base + count ≤ u64Max := by
    have := hb.coveredEnd_le
    have := b.windowEnd_le
    have := hb.base_le
    have := hb.data_length
    omega
  simp only [consume?, slice?_drop hcount, add?_of_le hsum, Option.bind_eq_bind, Option.bind_some]
  rfl

theorem drainContiguousUpto?_eq {b : RangeBuffer} (hb : b.Wf) (limit : ℕ) :
    b.drainContiguousUpto? limit = some (b.drainContiguousUpto limit) := by
  simp only [drainContiguousUpto?, drainContiguousUpto]
  split_ifs with hnone
  · rfl
  · have hcount : min b.contiguousEnd limit - b.base ≤ b.data.length := by
      have := hb.contiguousEnd_le_coveredEnd
      have := hb.data_length
      omega
    simp only [sub?_of_le (not_le.1 hnone).le, slice?_take hcount, consume?_eq hb hcount,
      Option.bind_eq_bind, Option.bind_some]

theorem peekContiguous?_eq {b : RangeBuffer} (hb : b.Wf) :
    b.peekContiguous? = some b.peekContiguous := by
  simp only [peekContiguous?, sub?_of_le hb.base_le_contiguousEnd, slice?_take (min_le_right _ _),
    Option.bind_eq_bind, Option.bind_some]
  rfl

theorem bufferedBytes?_eq {b : RangeBuffer} (hb : b.Wf) :
    b.bufferedBytes? = some b.bufferedBytes := by
  have hlengths : ∀ l : List Span, (∀ s ∈ l, s.start < s.stop) →
      l.mapM (fun r => sub? r.stop r.start) = some (l.map (fun r => r.stop - r.start)) := by
    intro l hl
    induction l with
    | nil => rfl
    | cons r rest ih =>
      rw [List.mapM_cons, sub?_of_le (hl r List.mem_cons_self).le,
        ih (fun s hs => hl s (List.mem_cons_of_mem _ hs))]
      rfl
  rw [bufferedBytes?, hlengths b.covered hb.separated.nonempty, Option.map_some, bufferedBytes]

theorem step?_eq {b : RangeBuffer} (hb : b.Wf) (op : BufferOp) : b.step? op = some (b.step op) := by
  cases op with
  | write offset bytes policy => rw [step?, write?_eq hb, Option.map_some, step]
  | drainUpto limit => exact drainContiguousUpto?_eq hb limit.toNat
  | drain => exact drainContiguousUpto?_eq hb u64Max
  | reset base => rfl

/-- A step keeps a buffer well formed and its limits what they are. -/
theorem step_wf {b : RangeBuffer} (hb : b.Wf) (op : BufferOp) :
    (b.step op).1.Wf ∧ (b.step op).1.byteLimit = b.byteLimit ∧
      (b.step op).1.rangeLimit = b.rangeLimit := by
  have hdrain (limit : ℕ) : (b.drainContiguousUpto limit).1.Wf ∧
      (b.drainContiguousUpto limit).1.byteLimit = b.byteLimit ∧
      (b.drainContiguousUpto limit).1.rangeLimit = b.rangeLimit := by
    obtain ⟨stop, hstop, heq⟩ := drain_cases b limit hb
    have hbase := hb.base_le_contiguousEnd
    rw [heq]
    exact ⟨consume_wf hb (by omega) (by omega), rfl, rfl⟩
  cases op with
  | write offset bytes policy =>
    obtain ⟨hwf, _, hbytes, hranges⟩ := write_wf hb offset.toNat bytes policy
    exact ⟨hwf, hbytes, hranges⟩
  | drainUpto limit => exact hdrain limit.toNat
  | drain => exact hdrain u64Max
  | reset base => exact ⟨wf_reset hb base.toNat (Nat.le_pred_of_lt base.toNat_lt), rfl, rfl⟩

def after (base : UInt64) (byteLimit rangeLimit : ℕ) (ops : List BufferOp) : RangeBuffer :=
  (Runs.run step (new base.toNat byteLimit rangeLimit) ops).1

theorem after_wf (base : UInt64) (byteLimit rangeLimit : ℕ) (ops : List BufferOp) :
    (after base byteLimit rangeLimit ops).Wf ∧
      (after base byteLimit rangeLimit ops).byteLimit = max byteLimit 1 ∧
      (after base byteLimit rangeLimit ops).rangeLimit = max rangeLimit 1 := by
  apply Runs.invariant step (fun b => b.Wf ∧ b.byteLimit = max byteLimit 1 ∧
    b.rangeLimit = max rangeLimit 1)
  · rintro b op ⟨hb, hbytes, hranges⟩
    obtain ⟨hwf, hbytes', hranges'⟩ := step_wf hb op
    exact ⟨hwf, hbytes'.trans hbytes, hranges'.trans hranges⟩
  · exact ⟨wf_new _ _ _ (Nat.le_pred_of_lt base.toNat_lt), rfl, rfl⟩

theorem attempt_eq_run (base : UInt64) (byteLimit rangeLimit : ℕ) (ops : List BufferOp) :
    Runs.attempt step? (new base.toNat byteLimit rangeLimit) ops =
      some (Runs.run step (new base.toNat byteLimit rangeLimit) ops) :=
  Runs.attempt_eq_run Wf (fun _ op hb => step?_eq hb op) (fun _ op hb => (step_wf hb op).1)
    (wf_new _ _ _ (Nat.le_pred_of_lt base.toNat_lt)) ops

theorem Wf.length_data_le {b : RangeBuffer} (hb : b.Wf) : b.data.length ≤ b.byteLimit := by
  have hend := hb.coveredEnd_le
  have hwindow : b.windowEnd ≤ b.base + b.byteLimit := min_le_left _ _
  rw [hb.data_length]
  omega

theorem points_markCovered {b : RangeBuffer} (hb : b.Wf) {start stop : ℕ} (hle : start ≤ stop) :
    points (b.markCovered start stop).covered = points b.covered ∪ Set.Ico start stop := by
  ext x
  rw [markCovered_covered b start stop hb.separated hle]
  exact mem_points_absorb b.covered ⟨start, stop⟩ (fun s hs =>
    (hb.separated.nonempty s hs).le) hle x

/-- Every run of writes, drains and resets returns, and the covered ranges of the buffer it ends in
are sorted, not empty, apart from each other, inside the window and within the range limit. The data
reaches as far as they do, within the byte limit. No difference or slice of the next operation
fails, and marking an interval adds exactly its offsets. -/
theorem run_keeps_invariant (base : UInt64) (byteLimit rangeLimit : ℕ) (ops : List BufferOp) :
    Runs.attempt step? (new base.toNat byteLimit rangeLimit) ops =
        some (Runs.run step (new base.toNat byteLimit rangeLimit) ops) ∧
      let b := after base byteLimit rangeLimit ops
      b.byteLimit = max byteLimit 1 ∧ b.rangeLimit = max rangeLimit 1 ∧
      b.covered.Pairwise (fun r s => r.stop < s.start) ∧
      (∀ r ∈ b.covered, r.start < r.stop ∧ b.base ≤ r.start ∧ r.stop ≤ satAdd b.base b.byteLimit) ∧
      b.covered.length ≤ b.rangeLimit ∧ b.data.length = b.coveredEnd - b.base ∧
      b.data.length ≤ b.byteLimit ∧ b.bufferedBytes ≤ b.byteLimit ∧
      b.bufferedBytes? = some b.bufferedBytes ∧ b.peekContiguous? = some b.peekContiguous ∧
      (∀ op, b.step? op = some (b.step op)) ∧
      ∀ start stop, start ≤ stop →
        points (b.markCovered start stop).covered = points b.covered ∪ Set.Ico start stop := by
  apply And.intro (attempt_eq_run base byteLimit rangeLimit ops)
  intro b
  obtain ⟨hb, hbytes, hranges⟩ := after_wf base byteLimit rangeLimit ops
  exact ⟨hbytes, hranges, hb.separated.gaps,
    fun r hr => ⟨hb.separated.nonempty r hr, hb.start_ge r hr, hb.stop_le r hr⟩, hb.length_le,
    hb.data_length, hb.length_data_le, hb.bufferedBytes_le, bufferedBytes?_eq hb,
    peekContiguous?_eq hb, fun op => step?_eq hb op, fun _ _ hle => points_markCovered hb hle⟩

end CyberSentinel.RangeBuffer
