import CyberSentinel.Bytes
import CyberSentinel.Numerals

/-!
# Words

A number takes a fixed count of bytes, with the byte of the lowest or of the highest value first. A
word is read at a position of a vector of bytes, if it ends in it, as the number that was written
there.
-/

namespace Words

open Bytes Numerals

inductive ByteOrder
  | little
  | big
  deriving DecidableEq, Repr

namespace ByteOrder

def value : ByteOrder → List UInt8 → ℕ
  | little, bytes => ofPlaces 256 (bytes.reverse.map UInt8.toNat)
  | big, bytes => ofPlaces 256 (bytes.map UInt8.toNat)

/-- The `w` lowest bytes of a number. -/
def bytes : ByteOrder → (w n : ℕ) → List UInt8
  | little, w, n => ((places 256 w n).map UInt8.ofNat).reverse
  | big, w, n => (places 256 w n).map UInt8.ofNat

@[simp] theorem length_bytes (order : ByteOrder) (w n : ℕ) : (order.bytes w n).length = w := by
  cases order with
  | little => rw [bytes, List.length_reverse, List.length_map, length_places]
  | big => rw [bytes, List.length_map, length_places]

theorem value_bytes (order : ByteOrder) (w n : ℕ) :
    order.value (order.bytes w n) = n % 256 ^ w := by
  have hdigits : ((places 256 w n).map UInt8.ofNat).map UInt8.toNat = places 256 w n := by
    rw [List.map_map]
    refine (List.map_congr_left fun d hd => ?_).trans (List.map_id _)
    exact UInt8.toNat_ofNat_of_lt' (lt_of_mem_places (by decide) hd)
  cases order with
  | little => rw [bytes, value, List.reverse_reverse, hdigits, ofPlaces_places]
  | big => rw [bytes, value, hdigits, ofPlaces_places]

/-- The word of `w` bytes at a position. -/
def readAt (order : ByteOrder) (w : ℕ) (v : List UInt8) (position : ℕ) : Option ℕ :=
  (slice? v position (position + w)).map order.value

theorem readAt_bytes (order : ByteOrder) (w n : ℕ) (before after : List UInt8) :
    order.readAt w (before ++ (order.bytes w n ++ after)) before.length = some (n % 256 ^ w) := by
  have hslice := slice?_middle before (order.bytes w n) after
  rw [length_bytes] at hslice
  rw [readAt, hslice, Option.map_some, value_bytes]

def layout (order : ByteOrder) (fields : List (ℕ × ℕ)) : List UInt8 :=
  fields.flatMap fun field => order.bytes field.1 field.2

def offset (fields : List (ℕ × ℕ)) (i : ℕ) : ℕ := ((fields.map Prod.fst).take i).sum

theorem offset_add (fields : List (ℕ × ℕ)) (i j : ℕ) :
    offset fields (i + j) = offset fields i + offset (fields.drop i) j := by
  rw [offset, List.take_add, List.sum_append, offset, offset, List.map_drop]

theorem length_layout (order : ByteOrder) (fields : List (ℕ × ℕ)) :
    (order.layout fields).length = (fields.map Prod.fst).sum := by
  induction fields with
  | nil => rfl
  | cons field rest ih =>
    rw [layout, List.flatMap_cons, List.length_append, length_bytes, ← layout, ih, List.map_cons,
      List.sum_cons]

/-- Each word of a layout is read where it begins, whatever comes after the layout. -/
theorem readAt_layout (order : ByteOrder) {fields : List (ℕ × ℕ)} {i w n : ℕ}
    (h : fields[i]? = some (w, n))
    (after : List UInt8) :
    order.readAt w (order.layout fields ++ after) (offset fields i) = some (n % 256 ^ w) := by
  obtain ⟨hi, hfield⟩ := List.getElem?_eq_some_iff.1 h
  have hsplit : fields = fields.take i ++ (w, n) :: fields.drop (i + 1) := by
    rw [← hfield, List.cons_getElem_drop_succ, List.take_append_drop]
  have hbefore : (order.layout (fields.take i)).length = offset fields i := by
    rw [length_layout, offset, List.map_take]
  have hlayout : order.layout fields ++ after = order.layout (fields.take i) ++
      (order.bytes w n ++ (order.layout (fields.drop (i + 1)) ++ after)) := by
    conv_lhs => rw [hsplit]
    simp only [layout, List.flatMap_append, List.flatMap_cons, List.append_assoc]
  rw [hlayout, ← hbefore, readAt_bytes]

end ByteOrder

end Words
