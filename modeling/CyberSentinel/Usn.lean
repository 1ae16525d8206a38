import CyberSentinel.Spans
import CyberSentinel.Texts
import CyberSentinel.Utf16
import CyberSentinel.Words

/-!
# The change journal of NTFS

A response of the journal is the number to read from next and a run of records, each of which has
its own length and says where its name is. A record that does not hold together is counted and
stepped over; where a length cannot be that of a record, the walk ends. A parse is a function to
errors and records that has no result where the code would index past the end of its bytes.
-/

namespace CyberSentinel.Usn

open Bytes Texts Words

def v2Header : ℕ := 60

def v3Header : ℕ := 76

def nextUsnPrefix : ℕ := 8

def maxNameChars : ℕ := 255

structure UsnRecord where
  usn : Int64
  fileReference : BitVec 128
  parentReference : BitVec 128
  timestamp : Int64
  reason : UInt32
  attributes : UInt32
  fileName : Text
  version : UInt16 × UInt16
  deriving DecidableEq

inductive RecordError
  | tooShort (len : ℕ)
  | unsupportedVersion (major minor : UInt16)
  | lengthMismatch (declared available : ℕ)
  | nameOutOfBounds (offset len record : ℕ)
  | oddNameLength (len : ℕ)
  deriving DecidableEq, Repr

abbrev Parse := ExceptT RecordError Option

/-- `read_int!`, and the error where the bytes end before. -/
def field (w : ℕ) (bytes : List UInt8) (position len : ℕ) : Parse ℕ :=
  match ByteOrder.little.readAt w bytes position with
  | some n => pure n
  | none => throw (.tooShort len)

/-- `&bytes[start..stop]` -/
def index (bytes : List UInt8) (start stop : ℕ) : Parse (List UInt8) :=
  ExceptT.lift (slice? bytes start stop)

def signed (n : ℕ) : Int64 := Int64.ofUInt64 (UInt64.ofNat n)

/-- The units of a name; a byte left over is dropped. -/
def units : List UInt8 → List UInt16
  | low :: high :: rest => UInt16.ofNat (ByteOrder.little.value [low, high]) :: units rest
  | _ => []

def decodeName (bytes : List UInt8) : Text :=
  ((Utf16.decodeLossy (units bytes)).take maxNameChars).map cleanChar

def headerLen (major minor : ℕ) : Parse ℕ :=
  if major = 2 then pure v2Header
  else if major = 3 then pure v3Header
  else throw (.unsupportedVersion (UInt16.ofNat major) (UInt16.ofNat minor))

/-- The references of the file and of its directory, and where the fields after them begin. -/
def parseReferences (record : List UInt8) (major declared : ℕ) : Parse (ℕ × ℕ × ℕ) :=
  if major = 2 then do
    let fileReference ← field 8 record 8 declared
    let parentReference ← field 8 record 16 declared
    return (fileReference, parentReference, 24)
  else do
    let fileReference ← field 16 record 8 declared
    let parentReference ← field 16 record 24 declared
    return (fileReference, parentReference, 40)

def parseFields (record : List UInt8) (major minor header declared : ℕ) : Parse UsnRecord := do
  let (fileReference, parentReference, rest) ← parseReferences record major declared
  let usn ← field 8 record rest declared
  let timestamp ← field 8 record (rest + 8) declared
  let reason ← field 4 record (rest + 16) declared
  let attributes ← field 4 record (rest + 28) declared
  let nameLen ← field 2 record (rest + 32) declared
  let nameOffset ← field 2 record (rest + 34) declared
  if nameLen % 2 ≠ 0 then throw (.oddNameLength nameLen)
  -- two numbers of 16 bits have a sum
  else if nameOffset < header ∨ declared < nameOffset + nameLen then
    throw (.nameOutOfBounds nameOffset nameLen declared)
  else do
    let name ← index record nameOffset (nameOffset + nameLen)
    return {
      usn := signed usn
      fileReference := BitVec.ofNat 128 fileReference
      parentReference := BitVec.ofNat 128 parentReference
      timestamp := signed timestamp
      reason := UInt32.ofNat reason
      attributes := UInt32.ofNat attributes
      fileName := decodeName name
      version := (UInt16.ofNat major, UInt16.ofNat minor) }

/-- One record from the start of the bytes, of which only as many are read as it declares. -/
def parseRecord (bytes : List UInt8) : Parse UsnRecord := do
  let declared ← field 4 bytes 0 bytes.length
  let major ← field 2 bytes 4 bytes.length
  let minor ← field 2 bytes 6 bytes.length
  let header ← headerLen major minor
  if declared < header ∨ bytes.length < declared then throw (.lengthMismatch declared bytes.length)
  else do
    let record ← index bytes 0 declared
    parseFields record major minor header declared

structure ReadResponse where
  nextUsn : Int64 := 0
  records : List UsnRecord := []
  rejected : ℕ := 0
  deriving DecidableEq

def walk (buffer : List UInt8) (offset : ℕ) (response : ReadResponse) : Option ReadResponse :=
  if offset < buffer.length then
    match slice? buffer offset buffer.length with
    | none => none
    | some remaining =>
      match ByteOrder.little.readAt 4 remaining 0 with
      | none => some { response with rejected := response.rejected + 1 }
      | some declared =>
        -- a length that is not that of a record says nothing about where the next one begins
        if declared < v2Header ∨ remaining.length < declared then
          some { response with rejected := response.rejected + 1 }
        else
          match slice? remaining 0 declared with
          | none => none
          | some bytes =>
            match (parseRecord bytes).run with
            | none => none
            | some (.ok record) =>
              walk buffer (offset + declared)
                { response with records := response.records ++ [record] }
            | some (.error _) => walk buffer (offset +
              declared) { response with rejected := response.rejected + 1 }
  else some response
termination_by buffer.length - offset
decreasing_by
  all_goals
    simp only [v2Header] at *
    omega

def parseReadResponse (buffer : List UInt8) : Option ReadResponse :=
  match ByteOrder.little.readAt 8 buffer 0 with
  | none => some {}
  | some nextUsn => walk buffer nextUsnPrefix { nextUsn := signed nextUsn }

section Returns

variable {α β : Type}

def Returns (x : Parse α) (Q : α → Prop) : Prop :=
  ∃ result, x.run = some result ∧ ∀ a, result = .ok a → Q a

theorem returns_pure {Q : α → Prop} {a : α} (h : Q a) : Returns (pure a) Q :=
  ⟨.ok a, rfl, fun b hb => by cases hb; exact h⟩

theorem returns_throw {Q : α → Prop} (e : RecordError) : Returns (throw e) Q :=
  ⟨.error e, rfl, fun b hb => by cases hb⟩

theorem returns_bind {x : Parse α} {f : α → Parse β} {P : α → Prop} {Q : β → Prop}
    (hx : Returns x P)
    (hf : ∀ a, P a → Returns (f a) Q) : Returns (x >>= f) Q := by
  obtain ⟨result, hrun, hresult⟩ := hx
  cases result with
  | error e => exact ⟨.error e, by rw [ExceptT.run_bind, hrun]; rfl, fun b hb => by cases hb⟩
  | ok a =>
    obtain ⟨next, hnext, hlast⟩ := hf a (hresult a rfl)
    exact ⟨next, by rw [ExceptT.run_bind, hrun]; exact hnext, hlast⟩

theorem returns_field (w : ℕ) (bytes : List UInt8) (position len : ℕ) :
    Returns (field w bytes position len) fun _ => True := by
  rw [field]
  split
  · exact returns_pure trivial
  · exact returns_throw _

theorem returns_index {bytes : List UInt8} {start stop : ℕ} (h : start ≤ stop)
    (hv : stop ≤ bytes.length) :
    Returns (index bytes start stop) (· = slice bytes start stop) :=
  ⟨.ok (slice bytes start stop), by
    rw [index, slice?_of_le h hv]; rfl, fun b hb => by cases hb; rfl⟩

end Returns

/-- The name of the record is read between two places of the bytes, past the fields. -/
def NamedWithin (bytes : List UInt8) (record : UsnRecord) : Prop :=
  ∃ start stop, v2Header ≤ start ∧ start ≤ stop ∧ stop ≤ bytes.length ∧
    record.fileName = decodeName (slice bytes start stop)

theorem returns_headerLen (major minor : ℕ) : Returns (headerLen major minor) (v2Header ≤ ·) := by
  rw [headerLen]
  split_ifs
  · exact returns_pure le_rfl
  · exact returns_pure (by decide)
  · exact returns_throw _

theorem returns_parseReferences (record : List UInt8) (major declared : ℕ) :
    Returns (parseReferences record major declared) fun _ => True := by
  rw [parseReferences]
  split_ifs
  · exact returns_bind (returns_field _ _ _ _) fun _ _ =>
      returns_bind (returns_field _ _ _ _) fun _ _ =>
      returns_pure trivial
  · exact returns_bind (returns_field _ _ _ _) fun _ _ =>
      returns_bind (returns_field _ _ _ _) fun _ _ =>
      returns_pure trivial

theorem returns_parseFields {record : List UInt8} (major minor : ℕ) {header : ℕ}
    (hheader : v2Header ≤ header) :
    Returns (parseFields record major minor header record.length) (NamedWithin record) := by
  rw [parseFields]
  refine returns_bind (returns_parseReferences _ _ _) fun ⟨fileReference, parentReference,
    rest⟩ _ => ?_
  refine returns_bind (returns_field _ _ _ _) fun usn _ => ?_
  refine returns_bind (returns_field _ _ _ _) fun timestamp _ => ?_
  refine returns_bind (returns_field _ _ _ _) fun reason _ => ?_
  refine returns_bind (returns_field _ _ _ _) fun attributes _ => ?_
  refine returns_bind (returns_field _ _ _ _) fun nameLen _ => ?_
  refine returns_bind (returns_field _ _ _ _) fun nameOffset _ => ?_
  split_ifs with hodd hbounds
  · exact returns_throw _
  · exact returns_throw _
  · rw [not_or, not_lt, not_lt] at hbounds
    refine returns_bind (returns_index (Nat.le_add_right _ _) hbounds.2) fun name hname =>
      returns_pure ?_
    exact ⟨nameOffset, nameOffset + nameLen, hheader.trans hbounds.1,
      Nat.le_add_right _ _, hbounds.2,
      congrArg decodeName hname⟩

theorem returns_parseRecord (bytes : List UInt8) :
    Returns (parseRecord bytes) (NamedWithin bytes) := by
  rw [parseRecord]
  refine returns_bind (returns_field _ _ _ _) fun declared _ => ?_
  refine returns_bind (returns_field _ _ _ _) fun major _ => ?_
  refine returns_bind (returns_field _ _ _ _) fun minor _ => ?_
  refine returns_bind (returns_headerLen _ _) fun header hheader => ?_
  split_ifs with hbounds
  · exact returns_throw _
  · rw [not_or, not_lt, not_lt] at hbounds
    refine returns_bind (returns_index (Nat.zero_le _) hbounds.2) fun record hrecord => ?_
    have hlength : record.length = declared := by
      rw [hrecord, length_slice bytes hbounds.2, Nat.sub_zero]
    obtain ⟨result, hrun, hresult⟩ := @returns_parseFields record major minor _ hheader
    rw [hlength] at hrun
    refine ⟨result, hrun, fun found hfound => ?_⟩
    obtain ⟨start, stop, hstart, hle, hstop, hname⟩ := hresult found hfound
    refine ⟨start, stop, hstart, hle, hstop.trans (hlength.le.trans hbounds.2), ?_⟩
    have hslice : slice record start stop = slice bytes start stop := by
      rw [hrecord, slice, slice, slice, List.drop_zero, List.take_take,
        min_eq_left (hstop.trans hlength.le)]
    rw [hname, hslice]

/-- The record is what the bytes of the span are parsed to, and its name lies among them. -/
structure ReadFrom (buffer : List UInt8) (span : Spans.Span) (record : UsnRecord) : Prop where
  parsed : (parseRecord (slice buffer span.start span.stop)).run = some (.ok record)
  named : NamedWithin (slice buffer span.start span.stop) record

structure InOrder (spans : List Spans.Span) (start stop : ℕ) : Prop where
  disjoint : spans.Pairwise fun a b => a.stop ≤ b.start
  within : ∀ span ∈ spans, start ≤ span.start ∧ span.start < span.stop ∧ span.stop ≤ stop

theorem InOrder.nil (start stop : ℕ) : InOrder [] start stop :=
  ⟨List.Pairwise.nil, fun _ hspan => absurd hspan List.not_mem_nil⟩

theorem InOrder.cons {span : Spans.Span} {spans : List Spans.Span} {start stop : ℕ}
    (h : InOrder spans span.stop stop) (hstart : start ≤ span.start)
    (hspan : span.start < span.stop)
    (hstop : span.stop ≤ stop) : InOrder (span :: spans) start stop := by
  refine ⟨List.pairwise_cons.2 ⟨fun other hother => (h.within other hother).1, h.disjoint⟩,
    fun other hother => ?_⟩
  rcases List.mem_cons.1 hother with rfl | hother
  · exact ⟨hstart, hspan, hstop⟩
  · obtain ⟨hbegins, hother, hends⟩ := h.within other hother
    exact ⟨by omega, hother, hends⟩

theorem InOrder.mono {spans : List Spans.Span} {start later stop : ℕ} (h : InOrder spans later stop)
    (hle : start ≤ later) : InOrder spans start stop :=
  ⟨h.disjoint, fun span hspan =>
    ⟨hle.trans (h.within span hspan).1, (h.within span hspan).2.1, (h.within span hspan).2.2⟩⟩

theorem slice_rest {buffer remaining bytes : List UInt8} {offset declared : ℕ}
    (hremaining : slice? buffer offset buffer.length = some remaining)
    (hbytes : slice? remaining 0 declared = some bytes) :
    bytes = slice buffer offset (offset + declared) ∧ offset + declared ≤ buffer.length := by
  obtain ⟨⟨hle, -⟩, rfl⟩ := slice?_eq_some hremaining
  obtain ⟨⟨-, hdeclared⟩, rfl⟩ := slice?_eq_some hbytes
  have hrest : slice buffer offset buffer.length = buffer.drop offset := by
    rw [slice, List.take_length]
  rw [hrest, List.length_drop] at hdeclared
  rw [hrest, slice_drop, Nat.add_zero]
  exact ⟨rfl, by omega⟩

/-- A walk has a result, and the records it adds come from spans in order. -/
theorem walk_reads (buffer : List UInt8) (offset : ℕ) (response : ReadResponse) :
    ∃ after spans found, walk buffer offset response = some after ∧
      after.records = response.records ++ found ∧
      List.Forall₂ (ReadFrom buffer) spans found ∧ InOrder spans offset buffer.length := by
  fun_induction walk buffer offset response with
  | case1 offset response hlt hslice =>
    rw [slice?_drop hlt.le] at hslice
    cases hslice
  | case2 offset response =>
    exact ⟨_, [], [], rfl, (List.append_nil _).symm, List.Forall₂.nil, InOrder.nil _ _⟩
  | case3 offset response =>
    exact ⟨_, [], [], rfl, (List.append_nil _).symm, List.Forall₂.nil, InOrder.nil _ _⟩
  | case4 offset response _ remaining _ declared _ hbounds hslice =>
    rw [not_or, not_lt, not_lt] at hbounds
    rw [slice?_of_le (Nat.zero_le _) hbounds.2] at hslice
    cases hslice
  | case5 offset response _ remaining _ declared _ _ bytes _ hparse =>
    obtain ⟨result, hrun, -⟩ := returns_parseRecord bytes
    rw [hrun] at hparse
    cases hparse
  | case6 offset response _ remaining hremaining declared _ hbounds bytes hbytes record hparse ih =>
    obtain ⟨hslice, hstop⟩ := slice_rest hremaining hbytes
    have hpos : 0 < declared := by
      rw [not_or, not_lt] at hbounds
      exact (by decide : 0 < v2Header).trans_le hbounds.1
    obtain ⟨after, spans, found, hwalk, hrecords, hread, horder⟩ := ih
    refine ⟨after, ⟨offset, offset + declared⟩ :: spans, record :: found, hwalk, ?_,
      List.Forall₂.cons ?_ hread,
      InOrder.cons horder le_rfl (Nat.lt_add_of_pos_right hpos) hstop⟩
    · rw [hrecords, List.append_assoc, List.singleton_append]
    · obtain ⟨result, hrun, hnamed⟩ := returns_parseRecord bytes
      have hresult : result = .ok record := Option.some.inj (hrun.symm.trans hparse)
      rw [hslice] at hparse hnamed
      exact ⟨hparse, hnamed record hresult⟩
  | case7 offset response _ remaining hremaining declared _ _ bytes hbytes e _ ih =>
    obtain ⟨after, spans, found, hwalk, hrecords, hread, horder⟩ := ih
    exact ⟨after, spans, found, hwalk, hrecords, hread, horder.mono (Nat.le_add_right _ _)⟩
  | case8 offset response =>
    exact ⟨response, [], [], rfl, (List.append_nil _).symm, List.Forall₂.nil, InOrder.nil _ _⟩

end CyberSentinel.Usn
