import CyberSentinel.Usn

/-!
# Journal responses as they are written

A response is written as the next number and the records one after the other, each with its name
behind its fields and padding behind its name. Such a response is read back exactly; of any other
bytes each record that is returned comes from a span of its own.
-/

namespace CyberSentinel.Usn

open Bytes Texts Words

/-- The references of the file and of its directory, of 64 bits in the second version and of 128 in
the third. -/
inductive References
  | v2 (file parent : UInt64)
  | v3 (file parent : BitVec 128)

namespace References

def major : References → ℕ
  | v2 _ _ => 2
  | v3 _ _ => 3

def headerLen : References → ℕ
  | v2 _ _ => v2Header
  | v3 _ _ => v3Header

def width : References → ℕ
  | v2 _ _ => 8
  | v3 _ _ => 16

def file : References → BitVec 128
  | v2 file _ => file.toBitVec.setWidth 128
  | v3 file _ => file

def parent : References → BitVec 128
  | v2 _ parent => parent.toBitVec.setWidth 128
  | v3 _ parent => parent

theorem file_lt (references : References) : references.file.toNat < 256 ^ references.width := by
  cases references with
  | v2 first parent =>
    rw [file, width, BitVec.toNat_setWidth]
    exact (Nat.mod_le _ _).trans_lt first.toNat_lt
  | v3 first parent => exact first.isLt

theorem parent_lt (references : References) : references.parent.toNat < 256 ^ references.width := by
  cases references with
  | v2 file second =>
    rw [parent, width, BitVec.toNat_setWidth]
    exact (Nat.mod_le _ _).trans_lt second.toNat_lt
  | v3 file second => exact second.isLt

end References

structure Entry where
  references : References
  minor : UInt16
  usn : Int64
  timestamp : Int64
  reason : UInt32
  sourceInfo : UInt32
  securityId : UInt32
  attributes : UInt32
  name : List UInt16
  padding : List UInt8
  /-- The length of the name is a number of 16 bits. -/
  name_fits : 2 * name.length < 2 ^ 16
  /-- The length of the record is a number of 32 bits. -/
  length_fits : references.headerLen + 2 * name.length + padding.length < 2 ^ 32

namespace Entry

variable (e : Entry)

def length : ℕ := e.references.headerLen + 2 * e.name.length + e.padding.length

def fields : List (ℕ × ℕ) :=
  [(4, e.length), (2, e.references.major), (2, e.minor.toNat),
    (e.references.width, e.references.file.toNat),
    (e.references.width, e.references.parent.toNat), (8, e.usn.toUInt64.toNat),
    (8, e.timestamp.toUInt64.toNat),
    (4, e.reason.toNat), (4, e.sourceInfo.toNat), (4, e.securityId.toNat), (4, e.attributes.toNat),
    (2, 2 * e.name.length), (2, e.references.headerLen)]

def nameBytes : List UInt8 := e.name.flatMap fun unit => ByteOrder.little.bytes 2 unit.toNat

def bytes : List UInt8 := ByteOrder.little.layout e.fields ++ (e.nameBytes ++ e.padding)

def record : UsnRecord where
  usn := e.usn
  fileReference := e.references.file
  parentReference := e.references.parent
  timestamp := e.timestamp
  reason := e.reason
  attributes := e.attributes
  fileName := ((Utf16.decodeLossy e.name).take maxNameChars).map cleanChar
  version := (UInt16.ofNat e.references.major, e.minor)

theorem length_fields : (ByteOrder.little.layout e.fields).length = e.references.headerLen := by
  rw [ByteOrder.length_layout]
  cases hreferences : e.references with
  | v2 file parent => simp [fields, hreferences, References.width, References.headerLen, v2Header]
  | v3 file parent => simp [fields, hreferences, References.width, References.headerLen, v3Header]

theorem length_nameBytes : e.nameBytes.length = 2 * e.name.length := by
  rw [nameBytes]
  induction e.name with
  | nil => rfl
  | cons unit rest ih =>
    rw [List.flatMap_cons, List.length_append, ByteOrder.length_bytes, ih, List.length_cons]
    omega

theorem length_bytes : e.bytes.length = e.length := by
  rw [bytes, List.length_append, List.length_append, length_fields, length_nameBytes, length,
    Nat.add_assoc]

theorem units_nameBytes : units e.nameBytes = e.name := by
  rw [nameBytes]
  induction e.name with
  | nil => rfl
  | cons unit rest ih =>
    have hvalue := ByteOrder.value_bytes .little 2 unit.toNat
    have hunit : unit.toNat % 256 ^ 2 = unit.toNat := Nat.mod_eq_of_lt unit.toNat_lt
    rw [hunit] at hvalue
    change UInt16.ofNat (ByteOrder.little.value (ByteOrder.little.bytes 2 unit.toNat)) ::
      units (rest.flatMap fun unit => ByteOrder.little.bytes 2 unit.toNat) = unit :: rest
    rw [hvalue, UInt16.ofNat_toNat, ih]

/-- Each word is read at its place, whatever comes after the record. -/
theorem readAt_append {i w n position : ℕ} (hfield : e.fields[i]? = some (w, n))
    (hposition : ByteOrder.offset e.fields i = position) (hn : n < 256 ^ w) (after : List UInt8) :
    ByteOrder.little.readAt w (e.bytes ++ after) position = some n := by
  rw [bytes, List.append_assoc, ← hposition, ByteOrder.readAt_layout .little hfield,
    Nat.mod_eq_of_lt hn]

theorem field_eq {i w n position : ℕ} (hfield : e.fields[i]? = some (w, n))
    (hposition : ByteOrder.offset e.fields i = position) (hn : n < 256 ^ w) (len : ℕ) :
    field w e.bytes position len = pure n := by
  have hread := e.readAt_append hfield hposition hn []
  rw [List.append_nil] at hread
  rw [field, hread]

def rest : ℕ := 8 + 2 * e.references.width

theorem parseReferences_eq (declared : ℕ) :
    parseReferences e.bytes e.references.major declared =
      pure (e.references.file.toNat, e.references.parent.toNat, e.rest) := by
  have hfile : field e.references.width e.bytes 8 declared = pure e.references.file.toNat :=
    e.field_eq (i := 3) rfl rfl e.references.file_lt declared
  have hparent : field e.references.width e.bytes (ByteOrder.offset e.fields 4) declared =
      pure e.references.parent.toNat := e.field_eq (i := 4) rfl rfl e.references.parent_lt declared
  have hplace : ByteOrder.offset e.fields 4 = 8 + e.references.width :=
    ByteOrder.offset_add e.fields 3 1
  rw [hplace] at hparent
  rw [rest, parseReferences]
  cases hreferences : e.references with
  | v2 file parent =>
    rw [hreferences] at hfile hparent
    rw [References.width] at hfile hparent
    rw [References.major, if_pos rfl, hfile, pure_bind, hparent, pure_bind]
    rfl
  | v3 file parent =>
    rw [hreferences] at hfile hparent
    rw [References.width] at hfile hparent
    rw [References.major, if_neg (by decide), hfile, pure_bind, hparent, pure_bind]
    rfl

theorem headerLen_eq (minor : ℕ) :
    headerLen e.references.major minor = pure e.references.headerLen := by
  cases e.references with
  | v2 file parent => rfl
  | v3 file parent => rfl

theorem v2Header_le : v2Header ≤ e.references.headerLen := by
  cases e.references with
  | v2 file parent => exact le_rfl
  | v3 file parent => exact (by decide : v2Header ≤ v3Header)

theorem headerLen_lt : e.references.headerLen < 2 ^ 16 := by
  cases e.references with
  | v2 file parent => exact (by decide : v2Header < 2 ^ 16)
  | v3 file parent => exact (by decide : v3Header < 2 ^ 16)

theorem major_lt : e.references.major < 2 ^ 16 := by
  cases e.references with
  | v2 file parent => exact (by decide : 2 < 2 ^ 16)
  | v3 file parent => exact (by decide : 3 < 2 ^ 16)

theorem length_lt : e.length < 2 ^ 32 := e.length_fits

theorem index_name : index e.bytes e.references.headerLen
    (e.references.headerLen + 2 * e.name.length) =
    pure e.nameBytes := by
  have hslice := slice?_middle (ByteOrder.little.layout e.fields) e.nameBytes e.padding
  rw [length_fields, length_nameBytes] at hslice
  rw [index, bytes, hslice]
  rfl

theorem field_rest {i w n position : ℕ} (hfield : e.fields[5 + i]? = some (w, n))
    (hposition : ByteOrder.offset (e.fields.drop 5) i = position) (hn : n < 256 ^ w) (len : ℕ) :
    field w e.bytes (e.rest + position) len = pure n := by
  have hrest : ByteOrder.offset e.fields 5 = e.rest := by
    simp only [ByteOrder.offset, fields, rest, List.map_cons, List.take_succ_cons, List.take_zero,
      List.sum_cons,
      List.sum_nil]
    omega
  refine e.field_eq hfield ?_ hn len
  rw [ByteOrder.offset_add, hrest, hposition]

theorem parseFields_eq :
    parseFields e.bytes e.references.major e.minor.toNat e.references.headerLen e.length =
      pure e.record := by
  have husn : field 8 e.bytes e.rest e.length = pure e.usn.toUInt64.toNat :=
    e.field_rest (i := 0) rfl rfl e.usn.toUInt64.toNat_lt e.length
  have htimestamp : field 8 e.bytes (e.rest + 8) e.length = pure e.timestamp.toUInt64.toNat :=
    e.field_rest (i := 1) rfl rfl e.timestamp.toUInt64.toNat_lt e.length
  have hreason : field 4 e.bytes (e.rest + 16) e.length = pure e.reason.toNat :=
    e.field_rest (i := 2) rfl rfl e.reason.toNat_lt e.length
  have hattributes : field 4 e.bytes (e.rest + 28) e.length = pure e.attributes.toNat :=
    e.field_rest (i := 5) rfl rfl e.attributes.toNat_lt e.length
  have hnameLen : field 2 e.bytes (e.rest + 32) e.length = pure (2 * e.name.length) :=
    e.field_rest (i := 6) rfl rfl e.name_fits e.length
  have hnameOffset : field 2 e.bytes (e.rest + 34) e.length = pure e.references.headerLen :=
    e.field_rest (i := 7) rfl rfl e.headerLen_lt e.length
  have hwithin : ¬(e.references.headerLen < e.references.headerLen ∨
      e.length < e.references.headerLen + 2 * e.name.length) := by
    rw [length]
    omega
  have heven : ¬2 * e.name.length % 2 ≠ 0 := by omega
  rw [parseFields, parseReferences_eq, pure_bind]
  dsimp only
  rw [husn, pure_bind, htimestamp, pure_bind, hreason, pure_bind, hattributes, pure_bind,
    hnameLen, pure_bind,
    hnameOffset, pure_bind, if_neg heven, if_neg hwithin, index_name, pure_bind, decodeName,
    units_nameBytes]
  simp only [record, signed, UInt64.ofNat_toNat, UInt32.ofNat_toNat, UInt16.ofNat_toNat,
    BitVec.ofNat_toNat,
    BitVec.setWidth_eq]

theorem parseRecord_bytes : parseRecord e.bytes = pure e.record := by
  have hlength : field 4 e.bytes 0 e.bytes.length = pure e.length :=
    e.field_eq (i := 0) rfl rfl e.length_lt e.bytes.length
  have hmajor : field 2 e.bytes 4 e.bytes.length = pure e.references.major :=
    e.field_eq (i := 1) rfl rfl e.major_lt e.bytes.length
  have hminor : field 2 e.bytes 6 e.bytes.length = pure e.minor.toNat :=
    e.field_eq (i := 2) rfl rfl e.minor.toNat_lt e.bytes.length
  have hbounds : ¬(e.length < e.references.headerLen ∨ e.bytes.length < e.length) := by
    rw [length_bytes, length]
    omega
  have hwhole : index e.bytes 0 e.length = pure e.bytes := by
    rw [index, ← length_bytes, slice?_drop (Nat.zero_le _)]
    rfl
  rw [parseRecord, hlength, pure_bind, hmajor, pure_bind, hminor, pure_bind,
    headerLen_eq, pure_bind,
    if_neg hbounds, hwhole, pure_bind, parseFields_eq]

theorem fileName_record {text : Text} (h : e.name = Utf16.encode text) :
    e.record.fileName = (text.take maxNameChars).map cleanChar := by
  rw [record, h, Utf16.decodeLossy_encode]

end Entry

theorem walk_step {buffer remaining bytes : List UInt8} {offset declared : ℕ} {record : UsnRecord}
    (response : ReadResponse) (hlt : offset < buffer.length)
    (hremaining : slice? buffer offset buffer.length = some remaining)
    (hdeclared : ByteOrder.little.readAt 4 remaining 0 = some declared)
    (hbounds : ¬(declared < v2Header ∨ remaining.length < declared))
    (hbytes : slice? remaining 0 declared = some bytes)
    (hparse : parseRecord bytes = pure record) :
    walk buffer offset response =
      walk buffer (offset + declared)
        { response with records := response.records ++ [record] } := by
  have hrun : (parseRecord bytes).run = some (.ok record) := by
    rw [hparse]
    rfl
  rw [walk, if_pos hlt]
  simp only [hremaining, hdeclared, if_neg hbounds, hbytes, hrun]

theorem walk_entries (entries : List Entry) (before : List UInt8) (response : ReadResponse) :
    walk (before ++ entries.flatMap Entry.bytes) before.length response =
      some { response with records := response.records ++ entries.map Entry.record } := by
  induction entries generalizing before response with
  | nil =>
    rw [walk, if_neg (by simp), List.map_nil, List.append_nil]
  | cons e rest ih =>
    have hheader := e.v2Header_le
    have hpos : 0 < v2Header := by decide
    have hle : e.references.headerLen ≤ e.length := by
      rw [Entry.length]
      omega
    have hlt : before.length < (before ++ (e :: rest).flatMap Entry.bytes).length := by
      rw [List.length_append, List.flatMap_cons, List.length_append, e.length_bytes]
      omega
    have hremaining : slice? (before ++ (e :: rest).flatMap Entry.bytes) before.length
        (before ++ (e :: rest).flatMap Entry.bytes).length =
        some (e.bytes ++ rest.flatMap Entry.bytes) := by
      rw [slice?_drop hlt.le, List.drop_left, List.flatMap_cons]
    have hdeclared : ByteOrder.little.readAt 4 (e.bytes ++ rest.flatMap Entry.bytes) 0 =
        some e.length :=
      e.readAt_append (i := 0) rfl rfl e.length_lt _
    have hbounds : ¬(e.length < v2Header ∨
        (e.bytes ++ rest.flatMap Entry.bytes).length < e.length) := by
      rw [List.length_append, e.length_bytes]
      omega
    have hbytes : slice? (e.bytes ++ rest.flatMap Entry.bytes) 0 e.length = some e.bytes := by
      have hslice := slice?_middle [] e.bytes (rest.flatMap Entry.bytes)
      rwa [List.nil_append, List.length_nil, Nat.zero_add, e.length_bytes] at hslice
    rw [walk_step response hlt hremaining hdeclared hbounds hbytes e.parseRecord_bytes]
    have hnext := ih (before ++ e.bytes) { response with records := response.records ++ [e.record] }
    rw [List.length_append, e.length_bytes, List.append_assoc, ← List.flatMap_cons] at hnext
    rw [hnext, List.append_assoc, List.map_cons, List.singleton_append]

def responseBytes (nextUsn : Int64) (entries : List Entry) : List UInt8 :=
  ByteOrder.little.bytes 8 nextUsn.toUInt64.toNat ++ entries.flatMap Entry.bytes

theorem parseReadResponse_entries (nextUsn : Int64) (entries : List Entry) :
    parseReadResponse (responseBytes nextUsn entries) =
      some { nextUsn := nextUsn, records := entries.map Entry.record } := by
  have hread := ByteOrder.readAt_bytes .little 8 nextUsn.toUInt64.toNat []
    (entries.flatMap Entry.bytes)
  have hword : nextUsn.toUInt64.toNat % 256 ^ 8 = nextUsn.toUInt64.toNat :=
    Nat.mod_eq_of_lt nextUsn.toUInt64.toNat_lt
  rw [List.nil_append, List.length_nil, hword] at hread
  have hwalk := walk_entries entries (ByteOrder.little.bytes 8 nextUsn.toUInt64.toNat)
    { nextUsn := nextUsn }
  rw [ByteOrder.length_bytes] at hwalk
  rw [parseReadResponse, responseBytes, hread]
  simp only [signed, UInt64.ofNat_toNat]
  exact hwalk

/-- Records that are written one after the other are read back exactly, in order and without a
rejection. Any bytes at all have a result; each record returned comes from the bytes of a span of
its own, its name from among them, and the spans lie in the bytes one after the other. -/
theorem journal_reads_back :
    (∀ (nextUsn : Int64) (entries : List Entry), parseReadResponse (responseBytes nextUsn entries) =
      some { nextUsn := nextUsn, records := entries.map Entry.record, rejected := 0 }) ∧
    ∀ buffer : List UInt8, ∃ response spans, parseReadResponse buffer = some response ∧
      List.Forall₂ (ReadFrom buffer) spans response.records ∧
        InOrder spans nextUsnPrefix buffer.length := by
  refine ⟨parseReadResponse_entries, fun buffer => ?_⟩
  rw [parseReadResponse]
  cases ByteOrder.little.readAt 8 buffer 0 with
  | none => exact ⟨{}, [], rfl, List.Forall₂.nil, InOrder.nil _ _⟩
  | some nextUsn =>
    obtain ⟨after, spans, found, hwalk, hrecords, hread, horder⟩ :=
      walk_reads buffer nextUsnPrefix { nextUsn := signed nextUsn }
    rw [List.nil_append] at hrecords
    exact ⟨after, spans, hwalk, hrecords ▸ hread, horder⟩

/-- A record of the second version, padded to a multiple of eight bytes. -/
def renamedEntry : Entry where
  references := .v2 0x0005000000000023 0x0001000000000005
  minor := 0
  usn := 1024
  timestamp := 133500000000000000
  reason := 0x2000
  sourceInfo := 0
  securityId := 0
  attributes := 0x20
  name := Utf16.encode "a.txt".toList
  padding := [0, 0]
  name_fits := by decide
  length_fits := by decide

def surrogateEntry : Entry where
  references := .v3 0x10000000000000000000000007 5
  minor := 0
  usn := 1096
  timestamp := -1
  reason := 0x80000200
  sourceInfo := 0
  securityId := 0
  attributes := 0x20
  name := [0xd800]
  padding := [0, 0]
  name_fits := by decide
  length_fits := by decide

example : parseReadResponse (responseBytes 1176 [renamedEntry, surrogateEntry]) =
    some { nextUsn := 1176, records := [renamedEntry.record, surrogateEntry.record] } := by
  decide +kernel

end CyberSentinel.Usn
