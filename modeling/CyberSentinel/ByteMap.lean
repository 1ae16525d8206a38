import CyberSentinel.RangeBufferWrite
import CyberSentinel.Runs

/-!
# A range buffer is a bounded byte map

`ByteMap` says what a range buffer is for, with no ranges and no storage: a partial map from
absolute offsets to bytes, a base, and two limits. A write keeps its bytes inside the window, an
offset that has a byte keeps it or takes the new one by policy, and a write that would open one
range too many is refused whole. `runEnd` is the end of the unbroken stretch of bytes at the base.
Every run of the buffer and the same run of the map cover the same offsets, hold the same bytes and
drain the same bytes.
-/

namespace CyberSentinel

open Spans

structure ByteMap where
  base : ℕ
  byte : ℕ → Option UInt8
  byteLimit : ℕ
  rangeLimit : ℕ

namespace ByteMap

def new (base byteLimit rangeLimit : ℕ) : ByteMap :=
  { base, byte := fun _ => none, byteLimit := max byteLimit 1, rangeLimit := max rangeLimit 1 }

def windowEnd (m : ByteMap) : ℕ := min (m.base + m.byteLimit) u64Max

def coverage (m : ByteMap) : Set ℕ := {x | m.base ≤ x ∧ (m.byte x).isSome}

noncomputable def ranges (m : ByteMap) : ℕ := (runStarts m.coverage).ncard

/-- `[lo, hi)` overlaps a covered offset or is next to one. -/
def Touches (m : ByteMap) (lo hi : ℕ) : Prop := ∃ x ∈ m.coverage, lo ≤ x + 1 ∧ x ≤ hi

open scoped Classical in
noncomputable def write (m : ByteMap) (offset : ℕ) (bytes : List UInt8) (policy : OverlapPolicy) :
    ByteMap :=
  let lo := max offset m.base
  let hi := min (offset + bytes.length) m.windowEnd
  if lo < hi ∧ (m.Touches lo hi ∨ m.ranges < m.rangeLimit) then
    { m with
      byte := fun x =>
        if (lo ≤ x ∧ x < hi) ∧ (policy = .last ∨ m.byte x = none)
        then bytes[x - offset]? else m.byte x }
  else m

/-- Every offset from the base up to `stop` holds a byte. -/
def Unbroken (m : ByteMap) (stop : ℕ) : Prop := ∀ x, m.base ≤ x → x < stop → (m.byte x).isSome

open scoped Classical in
/-- The end of the longest unbroken stretch at the base that does not pass `limit`. -/
noncomputable def runEnd (m : ByteMap) (limit : ℕ) : ℕ :=
  max m.base (Nat.findGreatest m.Unbroken limit)

noncomputable def drainUpto (m : ByteMap) (limit : ℕ) : ByteMap × List UInt8 :=
  ({ m with base := m.runEnd limit },
    (List.range' m.base (m.runEnd limit - m.base)).filterMap m.byte)

def reset (m : ByteMap) (base : ℕ) : ByteMap := { m with base, byte := fun _ => none }

end ByteMap

/-- One call on a range buffer, with the arguments a caller can pass. -/
inductive BufferOp
  | write (offset : UInt64) (bytes : List UInt8) (policy : OverlapPolicy)
  | drainUpto (limit : UInt64)
  | drain
  | reset (base : UInt64)

def RangeBuffer.step (b : RangeBuffer) : BufferOp → RangeBuffer × List UInt8
  | .write offset bytes policy => ((b.write offset.toNat bytes policy).1, [])
  | .drainUpto limit => b.drainContiguousUpto limit.toNat
  | .drain => b.drainContiguous
  | .reset base => (b.reset base.toNat, [])

noncomputable def ByteMap.step (m : ByteMap) : BufferOp → ByteMap × List UInt8
  | .write offset bytes policy => (m.write offset.toNat bytes policy, [])
  | .drainUpto limit => m.drainUpto limit.toNat
  | .drain => m.drainUpto u64Max
  | .reset base => (m.reset base.toNat, [])

structure Refines (b : RangeBuffer) (m : ByteMap) : Prop where
  wf : b.Wf
  base_eq : m.base = b.base
  byteLimit_eq : m.byteLimit = b.byteLimit
  rangeLimit_eq : m.rangeLimit = b.rangeLimit
  byte_eq : ∀ x, b.base ≤ x → b.byteAt x = m.byte x

namespace Refines

variable {b : RangeBuffer} {m : ByteMap}

theorem windowEnd_eq (h : Refines b m) : m.windowEnd = b.windowEnd := by
  simp only [ByteMap.windowEnd, RangeBuffer.windowEnd, satAdd, h.base_eq, h.byteLimit_eq]

theorem coverage_eq (h : Refines b m) : points b.covered = m.coverage := by
  ext x
  simp only [ByteMap.coverage, Set.mem_ofPred_eq, h.base_eq]
  constructor
  · intro hx
    have hbase := h.wf.base_le_of_mem hx
    exact ⟨hbase, h.byte_eq x hbase ▸ (h.wf.byteAt_isSome_iff x).2 hx⟩
  · rintro ⟨hbase, hsome⟩
    exact (h.wf.byteAt_isSome_iff x).1 (h.byte_eq x hbase ▸ hsome)

theorem ranges_eq (h : Refines b m) : m.ranges = b.covered.length := by
  rw [ByteMap.ranges, ← h.coverage_eq, ← length_eq_ncard_runStarts h.wf.separated]

theorem admits_iff (h : Refines b m) (lo hi : ℕ) :
    b.Admits lo hi ↔ lo < hi ∧ (m.Touches lo hi ∨ m.ranges < m.rangeLimit) := by
  rw [RangeBuffer.Admits, h.ranges_eq, h.rangeLimit_eq]
  refine and_congr_right (fun hlt => or_congr_left ?_)
  rw [touches_iff _ _ h.wf.separated hlt.le, h.coverage_eq]
  rfl

theorem write (h : Refines b m) (offset : ℕ) (bytes : List UInt8) (policy : OverlapPolicy) :
    Refines (b.write offset bytes policy).1 (m.write offset bytes policy) := by
  obtain ⟨hwf, hbase, hlimit, hrange⟩ := RangeBuffer.write_wf h.wf offset bytes policy
  have hadm := h.admits_iff (max offset b.base) (min (offset + bytes.length) b.windowEnd)
  by_cases hin : b.Admits (max offset b.base) (min (offset + bytes.length) b.windowEnd)
  · have hm := hadm.1 hin
    rw [← h.base_eq, ← h.windowEnd_eq] at hm
    simp only [ByteMap.write, if_pos hm]
    refine ⟨hwf, h.base_eq.trans hbase.symm, h.byteLimit_eq.trans hlimit.symm,
      h.rangeLimit_eq.trans hrange.symm, ?_⟩
    intro x hx
    rw [hbase] at hx
    rw [RangeBuffer.write_byteAt_of_admits h.wf offset bytes policy hin x, h.base_eq,
      h.windowEnd_eq]
    simp only [h.byte_eq x hx]
  · have hm := mt hadm.2 hin
    rw [← h.base_eq, ← h.windowEnd_eq] at hm
    rw [RangeBuffer.write_byteAt_of_not_admits h.wf offset bytes policy hin]
    simp only [ByteMap.write, if_neg hm]
    exact h

theorem unbroken_iff (h : Refines b m) (stop : ℕ) : m.Unbroken stop ↔ stop ≤ b.contiguousEnd := by
  constructor
  · intro hun
    by_contra hpast
    have hbase := h.wf.base_le_contiguousEnd
    have hsome := hun b.contiguousEnd (h.base_eq ▸ hbase) (by omega)
    rw [← h.byte_eq _ hbase, h.wf.byteAt_isSome_iff] at hsome
    exact firstHole_not_mem h.wf.separated h.wf.start_ge hsome
  · intro hle x hx hx'
    rw [h.base_eq] at hx
    rw [← h.byte_eq x hx, h.wf.byteAt_isSome_iff]
    exact mem_points_of_lt_firstHole hx (lt_of_lt_of_le hx' hle)

theorem runEnd_eq (h : Refines b m) (limit : ℕ) :
    m.runEnd limit = max b.base (min b.contiguousEnd limit) := by
  classical
  rw [ByteMap.runEnd, h.base_eq]
  congr 1
  rw [Nat.findGreatest_eq_iff]
  refine ⟨min_le_right _ _, fun _ => (h.unbroken_iff _).2 (min_le_left _ _), ?_⟩
  intro k hk hk' hun
  have := (h.unbroken_iff k).1 hun
  omega

theorem drain (h : Refines b m) (limit : ℕ) :
    Refines (b.drainContiguousUpto limit).1 (m.drainUpto limit).1 ∧
      (b.drainContiguousUpto limit).2 = (m.drainUpto limit).2 := by
  obtain ⟨stop, hstop, hdrain⟩ := RangeBuffer.drain_cases b limit h.wf
  have hbase := h.wf.base_le_contiguousEnd
  have hlo : b.base ≤ stop := by omega
  have hhi : stop ≤ b.contiguousEnd := by omega
  have hend : m.runEnd limit = stop := (h.runEnd_eq limit).trans hstop.symm
  rw [hdrain]
  simp only [ByteMap.drainUpto, hend]
  refine ⟨⟨RangeBuffer.consume_wf h.wf hlo hhi, ?_, h.byteLimit_eq, h.rangeLimit_eq, ?_⟩, ?_⟩
  · simp only [RangeBuffer.consume]
    omega
  · intro x hx
    simp only [RangeBuffer.consume] at hx
    rw [RangeBuffer.consume_byteAt hlo, if_pos (by omega), h.byte_eq x (by omega)]
  · have hmap := RangeBuffer.take_data_eq h.wf hhi
    have hbyte : (List.range' b.base (stop - b.base)).map b.byteAt =
        (List.range' b.base (stop - b.base)).map m.byte := by
      apply List.map_congr_left
      intro x hx
      exact h.byte_eq x (by rw [List.mem_range'_1] at hx; omega)
    calc
      b.data.take (stop - b.base)
          = ((b.data.take (stop - b.base)).map some).filterMap id := by simp [List.filterMap_map]
      _ = ((List.range' b.base (stop - b.base)).map m.byte).filterMap id := by rw [hmap, hbyte]
      _ = (List.range' m.base (stop - m.base)).filterMap m.byte := by
          rw [List.filterMap_map, h.base_eq, Function.id_comp]

theorem step (h : Refines b m) (op : BufferOp) :
    Refines (b.step op).1 (m.step op).1 ∧ (b.step op).2 = (m.step op).2 := by
  cases op with
  | write offset bytes policy => exact ⟨h.write offset.toNat bytes policy, rfl⟩
  | drainUpto limit => exact h.drain limit.toNat
  | drain => exact h.drain u64Max
  | reset base =>
    have hle : base.toNat ≤ u64Max := Nat.le_pred_of_lt base.toNat_lt
    refine ⟨⟨RangeBuffer.wf_reset h.wf base.toNat hle, rfl, h.byteLimit_eq, h.rangeLimit_eq, ?_⟩,
      rfl⟩
    intro x _
    simp [RangeBuffer.step, RangeBuffer.reset, RangeBuffer.byteAt, ByteMap.step, ByteMap.reset]

theorem new (base : UInt64) (byteLimit rangeLimit : ℕ) :
    Refines (RangeBuffer.new base.toNat byteLimit rangeLimit)
      (ByteMap.new base.toNat byteLimit rangeLimit) where
  wf := RangeBuffer.wf_new _ _ _ (Nat.le_pred_of_lt base.toNat_lt)
  base_eq := rfl
  byteLimit_eq := rfl
  rangeLimit_eq := rfl
  byte_eq := by
    intro x _
    simp [RangeBuffer.new, RangeBuffer.byteAt, ByteMap.new]

end Refines

/-- After every run of writes, drains and resets the covered ranges are the offsets the reference
map holds from the base on, each covered byte is the map's, and the drained bytes are the map's. -/
theorem run_refines_byteMap (base : UInt64) (byteLimit rangeLimit : ℕ) (ops : List BufferOp) :
    let buffer := Runs.run RangeBuffer.step (RangeBuffer.new base.toNat byteLimit rangeLimit) ops
    let map := Runs.run ByteMap.step (ByteMap.new base.toNat byteLimit rangeLimit) ops
    points buffer.1.covered = {x | buffer.1.base ≤ x ∧ (map.1.byte x).isSome} ∧
      (∀ x ∈ points buffer.1.covered, buffer.1.data[x - buffer.1.base]? = map.1.byte x) ∧
      buffer.1.base = map.1.base ∧ buffer.2 = map.2 := by
  obtain ⟨href, hout⟩ := Runs.simulation Refines (fun b m op h => Refines.step h op)
    (Refines.new base byteLimit rangeLimit) ops
  dsimp only
  refine ⟨?_, ?_, href.base_eq.symm, hout⟩
  · rw [href.coverage_eq, ByteMap.coverage, href.base_eq]
  · intro x hx
    rw [← RangeBuffer.byteAt_of_mem _ hx, href.byte_eq x (href.wf.base_le_of_mem hx)]

end CyberSentinel
