import CyberSentinel.Bytes
import CyberSentinel.Spans

/-!
# The bounded range buffer

`RangeBuffer` stores byte ranges that arrive out of order at absolute 64-bit offsets, resolves
overlaps by policy and hands back the contiguous prefix. Offsets are naturals with the saturating
sums written out. One write is cut in three: `write` trims what lies behind the window,
`writeFrom` applies the byte and range caps, `place` walks the existing ranges and stores the bytes.
-/

namespace CyberSentinel

open Spans Bytes

inductive OverlapPolicy
  | first
  | last
  deriving DecidableEq, Repr

def u64Max : ℕ := 2 ^ 64 - 1

/-- `u64::saturating_add`. -/
def satAdd (a b : ℕ) : ℕ := min (a + b) u64Max

structure WriteOutcome where
  accepted : ℕ := 0
  overlapped : ℕ := 0
  conflicting : ℕ := 0
  replaced : ℕ := 0
  refused : ℕ := 0
  beforeWindow : ℕ := 0
  deriving DecidableEq, Repr

structure RangeBuffer where
  base : ℕ
  data : List UInt8
  covered : List Span
  byteLimit : ℕ
  rangeLimit : ℕ
  deriving DecidableEq, Repr

namespace RangeBuffer

def new (base byteLimit rangeLimit : ℕ) : RangeBuffer :=
  { base, data := [], covered := [], byteLimit := max byteLimit 1, rangeLimit := max rangeLimit 1 }

def bufferedBytes (b : RangeBuffer) : ℕ := (b.covered.map (fun r => r.stop - r.start)).sum

/-- The end of the contiguous run at `base`. -/
def contiguousEnd (b : RangeBuffer) : ℕ := firstHole b.base b.covered

def coveredEnd (b : RangeBuffer) : ℕ := lastStop b.base b.covered

def windowEnd (b : RangeBuffer) : ℕ := satAdd b.base b.byteLimit

def touchesExisting (b : RangeBuffer) (start stop : ℕ) : Bool :=
  b.covered.any (fun range => start ≤ range.stop && range.start ≤ stop)

/-- Copy `[lo, hi)` of the write at `writeOffset` into the buffer. -/
def copyIn (b : RangeBuffer) (lo hi writeOffset : ℕ) (bytes : List UInt8) : RangeBuffer :=
  { b with
    data := overwrite b.data (lo - b.base) (hi - b.base)
      (slice bytes (lo - writeOffset) (hi - writeOffset)) }

/-- How many bytes of `[lo, hi)` differ between the buffer and the write. -/
def countDiffering (b : RangeBuffer) (lo hi writeOffset : ℕ) (bytes : List UInt8) : ℕ :=
  ((slice b.data (lo - b.base) (hi - b.base)).zip
    (slice bytes (lo - writeOffset) (hi - writeOffset))).countP (fun p => p.1 != p.2)

structure Merge where
  merged : Span
  out : List Span
  inserted : Bool

def mergeStep (m : Merge) (range : Span) : Merge :=
  if range.stop < m.merged.start then { m with out := m.out ++ [range] }
  else if m.merged.stop < range.start then
    if m.inserted then { m with out := m.out ++ [range] }
    else { m with out := m.out ++ [m.merged, range], inserted := true }
  else { m with merged := ⟨min m.merged.start range.start, max m.merged.stop range.stop⟩ }

def Merge.finish (m : Merge) : List Span := if m.inserted then m.out else m.out ++ [m.merged]

/-- Insert `[start, stop)` into the coverage list, merging neighbours. -/
def markCovered (b : RangeBuffer) (start stop : ℕ) : RangeBuffer :=
  { b with covered := (b.covered.foldl mergeStep ⟨⟨start, stop⟩, [], false⟩).finish }

structure Walk where
  cursor : ℕ
  buffer : RangeBuffer
  outcome : WriteOutcome

def fillGap (offset stop : ℕ) (bytes : List UInt8) (existing : Span) (w : Walk) : Walk :=
  if w.cursor < existing.start then
    let gapEnd := min existing.start stop
    { cursor := gapEnd
      buffer := w.buffer.copyIn w.cursor gapEnd offset bytes
      outcome := { w.outcome with accepted := w.outcome.accepted + (gapEnd - w.cursor) } }
  else w

/-- The stretch that lands on an existing range, resolved by policy. -/
def resolveOverlap (offset stop : ℕ) (bytes : List UInt8) (policy : OverlapPolicy)
    (existing : Span) (w : Walk) : Walk :=
  let overlapEnd := min existing.stop stop
  if w.cursor < overlapEnd then
    let differing := w.buffer.countDiffering w.cursor overlapEnd offset bytes
    let outcome := { w.outcome with
      overlapped := w.outcome.overlapped + (overlapEnd - w.cursor)
      conflicting := w.outcome.conflicting + differing }
    if policy = .last then
      { cursor := overlapEnd
        buffer := w.buffer.copyIn w.cursor overlapEnd offset bytes
        outcome := { outcome with replaced := outcome.replaced + differing } }
    else { w with cursor := overlapEnd, outcome := outcome }
  else w

/-- The loop of `write` over the ranges covered before it. -/
def walk (offset stop : ℕ) (bytes : List UInt8) (policy : OverlapPolicy) : List Span → Walk → Walk
  | [], w => w
  | existing :: rest, w =>
    if existing.stop ≤ w.cursor then walk offset stop bytes policy rest w
    else if stop ≤ existing.start then w
    else walk offset stop bytes policy rest
      (resolveOverlap offset stop bytes policy existing (fillGap offset stop bytes existing w))

def fillTail (offset stop : ℕ) (bytes : List UInt8) (w : Walk) : Walk :=
  if w.cursor < stop then
    { w with
      buffer := w.buffer.copyIn w.cursor stop offset bytes
      outcome := { w.outcome with accepted := w.outcome.accepted + (stop - w.cursor) } }
  else w

/-- Store `[offset, stop)`, already clipped to the window and admitted by the range cap. -/
def place (b : RangeBuffer) (offset stop : ℕ) (bytes : List UInt8) (policy : OverlapPolicy) :
    RangeBuffer × WriteOutcome :=
  let grown := { b with data := growTo b.data (stop - b.base) 0 }
  let w := fillTail offset stop bytes
    (walk offset stop bytes policy b.covered ⟨offset, grown, {}⟩)
  (w.buffer.markCovered offset stop, w.outcome)

def writeFrom (b : RangeBuffer) (offset : ℕ) (bytes : List UInt8) (policy : OverlapPolicy) :
    RangeBuffer × WriteOutcome :=
  if b.windowEnd ≤ offset then (b, { refused := bytes.length })
  else
    let (kept, refused) :=
      if b.windowEnd < satAdd offset bytes.length then
        (bytes.take (b.windowEnd - offset), bytes.length - (b.windowEnd - offset))
      else (bytes, 0)
    if kept.isEmpty then (b, { refused := refused })
    else
      let stop := satAdd offset kept.length
      if b.rangeLimit ≤ b.covered.length ∧ b.touchesExisting offset stop = false then
        (b, { refused := refused + kept.length })
      else
        let (stored, outcome) := b.place offset stop kept policy
        (stored, { outcome with refused := refused })

/-- Write `bytes` at absolute `offset`, resolving overlaps by `policy`. -/
def write (b : RangeBuffer) (offset : ℕ) (bytes : List UInt8) (policy : OverlapPolicy) :
    RangeBuffer × WriteOutcome :=
  if bytes.isEmpty then (b, {})
  else if satAdd offset bytes.length ≤ b.base then (b, { beforeWindow := bytes.length })
  else if offset < b.base then
    let skip := b.base - offset
    let (stored, outcome) := b.writeFrom b.base (bytes.drop skip) policy
    (stored, { outcome with beforeWindow := skip })
  else b.writeFrom offset bytes policy

/-- Drop `count` bytes from the front of the window. -/
def consume (b : RangeBuffer) (count : ℕ) : RangeBuffer :=
  { b with
    data := b.data.drop count
    base := b.base + count
    covered := trim (b.base + count) b.covered }

/-- Move the contiguous prefix, up to `limit`, out of the buffer. -/
def drainContiguousUpto (b : RangeBuffer) (limit : ℕ) : RangeBuffer × List UInt8 :=
  let stop := min b.contiguousEnd limit
  if stop ≤ b.base then (b, [])
  else (b.consume (stop - b.base), b.data.take (stop - b.base))

def drainContiguous (b : RangeBuffer) : RangeBuffer × List UInt8 := b.drainContiguousUpto u64Max

def reset (b : RangeBuffer) (base : ℕ) : RangeBuffer := { b with data := [], covered := [], base }

def peekContiguous (b : RangeBuffer) : List UInt8 :=
  b.data.take (min (b.contiguousEnd - b.base) b.data.length)

end RangeBuffer
end CyberSentinel
