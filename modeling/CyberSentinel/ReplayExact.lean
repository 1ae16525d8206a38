import CyberSentinel.Replay

/-!
# Savefiles are replayed exactly

However a savefile was written, wherever it is cut off behind its header and in whatever pieces it
is read, the replay delivers the records that are whole and then ends, and says whether a record was
torn.
-/

namespace CyberSentinel.Replay

open Bytes Words

/-- How a file is written: the order of its bytes, what its timestamps count, and the fields of its
header. -/
structure Format where
  order : ByteOrder
  nanos : Bool
  versionMajor : UInt16
  versionMinor : UInt16
  thiszone : UInt32
  sigfigs : UInt32
  snaplen : UInt32

structure Record (nanos : Bool) where
  seconds : UInt32
  fraction : UInt32
  wireLen : UInt32
  frame : List UInt8
  fraction_lt : fraction.toNat < if nanos then 10 ^ 9 else 10 ^ 6
  frame_le : frame.length ≤ maxFrameLen

namespace Format

variable (F : Format)

def magic : ℕ := if F.nanos then magicNanos else magicMicros

def fields : List (ℕ × ℕ) :=
  [(4, F.magic), (2, F.versionMajor.toNat), (2, F.versionMinor.toNat), (4, F.thiszone.toNat),
    (4, F.sigfigs.toNat), (4, F.snaplen.toNat), (4, LinkType.ethernet.asRaw)]

def headerBytes : List UInt8 := F.order.layout F.fields

def swapped : Bool := F.order = .big

end Format

namespace Record

variable {nanos : Bool} (record : Record nanos)

def fields : List (ℕ × ℕ) :=
  [(4, record.seconds.toNat), (4, record.fraction.toNat), (4, record.frame.length),
    (4, record.wireLen.toNat)]

def bytes (order : ByteOrder) : List UInt8 := order.layout record.fields ++ record.frame

def packet : RawPacket where
  data := record.frame
  originalLen := max record.wireLen.toNat record.frame.length
  timestamp :=
    record.seconds.toNat * nanosPerSecond + record.fraction.toNat * if nanos then 1 else 1000

def captured (name : String) (record : Record nanos) : Except CaptureError Captured :=
  .ok (.frame name record.packet)

end Record

def Format.file (F : Format) (records : List (Record F.nanos)) : List UInt8 :=
  F.headerBytes ++ records.flatMap fun record => record.bytes F.order

/-- However the reads go, unless one fails, as much is read as there is and is wanted. -/
theorem fillFrom_eq {script : List Answer} (h : .failed ∉ script) (read bytes : List UInt8)
    (want : ℕ) :
    ∃ later, .failed ∉ later ∧
      fillFrom script read bytes want =
        (.ok (read ++ bytes.take want), ⟨bytes.drop want, later⟩) := by
  induction script generalizing read bytes want with
  | nil => exact ⟨[], List.not_mem_nil, rfl⟩
  | cons answer script ih =>
    have hrest : .failed ∉ script := fun hmem => h (List.mem_cons_of_mem _ hmem)
    rw [fillFrom.eq_def]
    dsimp only
    split_ifs with hwant
    · refine ⟨answer :: script, h, ?_⟩
      rw [hwant, List.take_zero, List.append_nil, List.drop_zero]
    · cases answer with
      | interrupted => exact ih hrest read bytes want
      | failed => exact absurd List.mem_cons_self h
      | short most =>
        dsimp only
        split_ifs with hnone
        · have hempty : bytes = [] := List.length_eq_zero_iff.1 (by omega)
          refine ⟨script, hrest, ?_⟩
          rw [hempty, List.take_nil, List.append_nil, List.drop_nil]
        · generalize hn : min (most + 1) (min want bytes.length) = n
          have hle : n ≤ want := by omega
          obtain ⟨later, hlater, hfill⟩ := ih hrest (read ++ bytes.take n) (bytes.drop n) (want - n)
          refine ⟨later, hlater, ?_⟩
          have htake : bytes.take n ++ (bytes.drop n).take (want - n) = bytes.take want := by
            rw [← List.take_add, Nat.add_sub_of_le hle]
          rw [hfill, List.append_assoc, htake, List.drop_drop, Nat.add_sub_of_le hle]

theorem fill_eq {reader : Reader} (h : .failed ∉ reader.script) (want : ℕ) (name : String) :
    ∃ later, .failed ∉ later ∧
      fill reader want name = (.ok (reader.bytes.take want), ⟨reader.bytes.drop want, later⟩) := by
  obtain ⟨later, hlater, hfill⟩ := fillFrom_eq h [] reader.bytes want
  refine ⟨later, hlater, ?_⟩
  rw [fill, hfill]
  rfl

theorem Format.orderOf_swapped (F : Format) : orderOf F.swapped = F.order := by
  rw [orderOf, swapped]
  cases F.order with
  | little => rfl
  | big => rfl

theorem wordAt_layout {byteSwapped : Bool} {fields : List (ℕ × ℕ)} {i w n position : ℕ}
    (hfield : fields[i]? = some (w, n)) (hposition : ByteOrder.offset fields i = position)
    (hn : n < 256 ^ w) :
    wordAt byteSwapped w ((orderOf byteSwapped).layout fields) position = n := by
  have hread := (orderOf byteSwapped).readAt_layout hfield []
  rw [List.append_nil, hposition, Nat.mod_eq_of_lt hn, ByteOrder.readAt,
    Option.map_eq_some_iff] at hread
  obtain ⟨part, hpart, hvalue⟩ := hread
  rw [wordAt, ← (slice?_eq_some hpart).2, hvalue]

theorem Format.length_headerBytes (F : Format) : F.headerBytes.length = fileHeaderLen := by
  rw [headerBytes, ByteOrder.length_layout]
  rfl

theorem Format.formatOf_magic (F : Format) :
    formatOf (wordAt false 4 F.headerBytes 0) = some (F.swapped, F.nanos) := by
  have hfirst : slice F.headerBytes 0 4 = F.order.bytes 4 F.magic := by
    have hmiddle := slice_middle [] (F.order.bytes 4 F.magic) (F.order.layout (F.fields.drop 1))
    rw [List.nil_append, List.length_nil, ByteOrder.length_bytes] at hmiddle
    exact hmiddle
  rw [wordAt, hfirst, magic, swapped]
  cases F.order with
  | little =>
    cases F.nanos with
    | false => decide +kernel
    | true => decide +kernel
  | big =>
    cases F.nanos with
    | false => decide +kernel
    | true => decide +kernel

def Format.header (F : Format) : FileHeader where
  versionMajor := F.versionMajor.toNat
  versionMinor := F.versionMinor.toNat
  snaplen := F.snaplen.toNat
  linkType := .ethernet
  nanosecondTimestamps := F.nanos
  byteSwapped := F.swapped

theorem Format.parseFileHeader_headerBytes (F : Format) (name : String) :
    parseFileHeader F.headerBytes name = .ok F.header := by
  have hword {i w n position : ℕ} (hfield : F.fields[i]? = some (w, n))
      (hposition : ByteOrder.offset F.fields i = position) (hn : n < 256 ^ w) :
      wordAt F.swapped w F.headerBytes position = n := by
    rw [headerBytes, ← F.orderOf_swapped]
    exact wordAt_layout hfield hposition hn
  have hmajor : wordAt F.swapped 2 F.headerBytes 4 = F.versionMajor.toNat :=
    hword (i := 1) rfl rfl F.versionMajor.toNat_lt
  have hminor : wordAt F.swapped 2 F.headerBytes 6 = F.versionMinor.toNat :=
    hword (i := 2) rfl rfl F.versionMinor.toNat_lt
  have hsnaplen : wordAt F.swapped 4 F.headerBytes 16 = F.snaplen.toNat :=
    hword (i := 5) rfl rfl F.snaplen.toNat_lt
  have hlink : wordAt F.swapped 4 F.headerBytes 20 = LinkType.ethernet.asRaw :=
    hword (i := 6) rfl rfl (by decide)
  rw [parseFileHeader, F.formatOf_magic]
  simp only [hmajor, hminor, hsnaplen, hlink]
  rfl

namespace Record

variable {nanos : Bool} (record : Record nanos)

theorem length_layout (order : ByteOrder) :
    (order.layout record.fields).length = recordHeaderLen := by
  rw [ByteOrder.length_layout]
  rfl

theorem length_bytes (order : ByteOrder) :
    (record.bytes order).length = recordHeaderLen + record.frame.length := by
  rw [bytes, List.length_append, length_layout]

theorem bytes_ne_nil (order : ByteOrder) : record.bytes order ≠ [] := by
  apply List.ne_nil_of_length_pos
  rw [length_bytes, recordHeaderLen]
  omega

end Record

/-- A replay of a file of the format that is not at its end and has the bytes before it. -/
structure Ready (F : Format) (r : PcapReplay) (bytes : List UInt8) : Prop where
  header : r.header = F.header
  bytes : r.reader.bytes = bytes
  steady : .failed ∉ r.reader.script
  whole : r.truncated = false
  running : r.finished = false

theorem nanosOf_fraction {header : FileHeader} {nanos : Bool}
    (hnanos : header.nanosecondTimestamps = nanos)
    {fraction : ℕ} (h : fraction < if nanos then 10 ^ 9 else 10 ^ 6) :
    PcapReplay.nanosOf header fraction = fraction * if nanos then 1 else 1000 := by
  rw [PcapReplay.nanosOf, hnanos]
  cases nanos with
  | true =>
    simp only [if_true]
    omega
  | false =>
    simp only [Bool.false_eq_true, if_false] at h ⊢
    omega

/-- The words of the header of a record are read as they were written. -/
theorem u32At_fields {F : Format} (record : Record F.nanos) {i n position : ℕ}
    (hfield : record.fields[i]? = some (4, n))
    (hposition : ByteOrder.offset record.fields i = position)
    (hn : n < 256 ^ 4) : F.header.u32At (F.order.layout record.fields) position = n := by
  have hword : wordAt F.swapped 4 ((orderOf F.swapped).layout record.fields) position = n :=
    wordAt_layout hfield hposition hn
  rw [F.orderOf_swapped] at hword
  exact hword

/-- Behind the header of a record the frame is read, as far as there is one. -/
theorem readFrame_fields {F : Format} {r : PcapReplay} (record : Record F.nanos)
    (hheader : r.header = F.header)
    (hsteady : .failed ∉ r.reader.script) :
    ∃ later, .failed ∉ later ∧ r.readFrame (F.order.layout record.fields) =
      (let frame := r.reader.bytes.take record.frame.length
      let r := { r with
        offset := r.offset + recordHeaderLen
        reader := ⟨r.reader.bytes.drop record.frame.length, later⟩ }
      if frame.length < record.frame.length then ({ r with truncated := true }, .ok false)
      else
        ({ r with
            buffer := frame
            offset := r.offset + record.frame.length
            timestamp := record.packet.timestamp
            originalLen := record.packet.originalLen }, .ok true)) := by
  obtain ⟨later, hlater, hfill⟩ := fill_eq hsteady record.frame.length r.name
  have hle := record.frame_le
  have hseconds : r.header.u32At (F.order.layout record.fields) 0 = record.seconds.toNat := by
    rw [hheader]
    exact u32At_fields record (i := 0) rfl rfl record.seconds.toNat_lt
  have hfraction : r.header.u32At (F.order.layout record.fields) 4 = record.fraction.toNat := by
    rw [hheader]
    exact u32At_fields record (i := 1) rfl rfl record.fraction.toNat_lt
  have hcaptured : r.header.u32At (F.order.layout record.fields) 8 = record.frame.length := by
    rw [hheader]
    apply u32At_fields record (i := 2) rfl rfl
    rw [maxFrameLen] at hle
    omega
  have hwire : r.header.u32At (F.order.layout record.fields) 12 = record.wireLen.toNat := by
    rw [hheader]
    exact u32At_fields record (i := 3) rfl rfl record.wireLen.toNat_lt
  have hnanos : PcapReplay.nanosOf r.header record.fraction.toNat =
      record.fraction.toNat * if F.nanos then 1 else 1000 :=
    nanosOf_fraction (congrArg FileHeader.nanosecondTimestamps hheader) record.fraction_lt
  have htimestamp : (record.seconds.toNat : Instant) * nanosPerSecond +
      PcapReplay.nanosOf r.header record.fraction.toNat = record.packet.timestamp := by
    rw [hnanos, Record.packet]
    push_cast
    rfl
  refine ⟨later, hlater, ?_⟩
  rw [PcapReplay.readFrame, hseconds, hfraction, hcaptured, hwire]
  dsimp only
  rw [if_neg (Nat.not_lt.2 hle), hfill]
  dsimp only
  rw [htimestamp]
  rfl

theorem nextPacket_record {F : Format} {r : PcapReplay} (record : Record F.nanos)
    {rest : List UInt8}
    (h : Ready F r (record.bytes F.order ++ rest)) :
    ∃ after, r.nextPacket = (after, record.captured r.name) ∧ Ready F after rest ∧
      after.name = r.name ∧
      after.counters = { r.counters with
        packets := r.counters.packets + 1
        bytes := r.counters.bytes + record.frame.length } := by
  obtain ⟨later, hlater, hfill⟩ := fill_eq h.steady recordHeaderLen r.name
  have hheader : (F.order.layout record.fields).length = recordHeaderLen :=
    record.length_layout F.order
  rw [h.bytes, Record.bytes, List.append_assoc, List.take_left' hheader,
    List.drop_left' hheader] at hfill
  obtain ⟨last, hlast, hframe⟩ :=
    readFrame_fields (r := { r with reader := ⟨record.frame ++ rest, later⟩ }) record
    h.header hlater
  dsimp only at hframe
  rw [List.take_left, List.drop_left, if_neg (lt_irrefl _)] at hframe
  rw [PcapReplay.nextPacket, h.running, PcapReplay.readRecord, hfill]
  dsimp only
  rw [hheader, if_neg (by decide), if_neg (lt_irrefl _), hframe]
  exact ⟨_, rfl, ⟨h.header, rfl, hlast, h.whole, h.running⟩, rfl, rfl⟩

theorem nextPacket_end {F : Format} {r : PcapReplay} (h : Ready F r []) :
    ∃ after, r.nextPacket = (after, .ok .done) ∧ after.finished = true ∧ after.truncated = false ∧
      after.counters = r.counters := by
  obtain ⟨later, -, hfill⟩ := fill_eq h.steady recordHeaderLen r.name
  rw [h.bytes, List.take_nil] at hfill
  rw [PcapReplay.nextPacket, h.running, PcapReplay.readRecord, hfill]
  exact ⟨_, rfl, rfl, h.whole, rfl⟩

theorem nextPacket_torn {F : Format} {r : PcapReplay} (record : Record F.nanos) {torn : List UInt8}
    (h : Ready F r torn) (hne : torn ≠ []) (htorn : torn <+: record.bytes F.order)
    (hpart : torn ≠ record.bytes F.order) :
    ∃ after, r.nextPacket = (after, .ok .done) ∧ after.finished = true ∧ after.truncated = true ∧
      after.counters = r.counters := by
  obtain ⟨later, hlater, hfill⟩ := fill_eq h.steady recordHeaderLen r.name
  have hsome : 0 < torn.length := List.length_pos_iff.2 hne
  have hheader : (F.order.layout record.fields).length = recordHeaderLen :=
    record.length_layout F.order
  rw [h.bytes] at hfill
  rw [PcapReplay.nextPacket, h.running, PcapReplay.readRecord, hfill]
  dsimp only
  rw [List.length_take]
  rcases lt_or_ge torn.length recordHeaderLen with hshort | hlong
  · -- The header of the record is torn.
    have hread : min recordHeaderLen torn.length = torn.length := Nat.min_eq_right hshort.le
    rw [hread, if_neg (Nat.ne_of_gt hsome), if_pos hshort]
    exact ⟨_, rfl, rfl, rfl, rfl⟩
  · -- The header is whole, so the frame is torn.
    obtain ⟨missing, hmissing⟩ := htorn
    have hwhole : torn.take recordHeaderLen = F.order.layout record.fields := by
      have htake := congrArg (List.take recordHeaderLen) hmissing
      rw [Record.bytes, List.take_left' hheader, List.take_append_of_le_length hlong] at htake
      exact htake
    have hlength := congrArg List.length hmissing
    rw [List.length_append, Record.length_bytes] at hlength
    have hlost : 0 < missing.length := by
      refine List.length_pos_iff.2 fun hnil => hpart ?_
      rw [← hmissing, hnil, List.append_nil]
    obtain ⟨last, -, hframe⟩ :=
      readFrame_fields (r := { r with reader := ⟨torn.drop recordHeaderLen, later⟩ }) record
      h.header hlater
    dsimp only at hframe
    rw [List.length_take, List.length_drop, if_pos (by omega)] at hframe
    rw [Nat.min_eq_left hlong, if_neg (by decide), if_neg (lt_irrefl _), hwhole, hframe]
    exact ⟨_, rfl, rfl, rfl, rfl⟩

theorem nextPacket_finished {r : PcapReplay} (h : r.finished = true) :
    r.nextPacket = (r, .ok .done) := by
  rw [PcapReplay.nextPacket, if_pos h]

theorem calls_succ {r after : PcapReplay} {result : Except CaptureError Captured}
    (h : r.nextPacket = (after, result))
    (k : ℕ) : r.calls (k + 1) = (result :: (after.calls k).1, (after.calls k).2) := by
  rw [PcapReplay.calls, h]

def deliveredOf : Except CaptureError Captured → Option RawPacket
  | .ok (.frame _ packet) => some packet
  | _ => none

def delivered (results : List (Except CaptureError Captured)) : List RawPacket :=
  results.filterMap deliveredOf

theorem readFrame_counters (r : PcapReplay) (raw : List UInt8) :
    (r.readFrame raw).1.counters = r.counters := by
  rw [PcapReplay.readFrame]
  dsimp only
  split_ifs with hlarge
  · rfl
  · split
    · rfl
    · split_ifs
      · rfl
      · rfl

theorem readRecord_counters (r : PcapReplay) : r.readRecord.1.counters = r.counters := by
  rw [PcapReplay.readRecord]
  split
  · rfl
  · split_ifs
    · rfl
    · rfl
    · exact readFrame_counters _ _

theorem nextPacket_counters (r : PcapReplay) :
    r.nextPacket.1.counters = { r.counters with
      packets := r.counters.packets + (delivered [r.nextPacket.2]).length
      bytes := r.counters.bytes + ((delivered [r.nextPacket.2]).map fun packet =>
        packet.data.length).sum } := by
  have hrecord := readRecord_counters r
  rw [PcapReplay.nextPacket]
  split_ifs with hfinished
  · rfl
  · revert hrecord
    rcases r.readRecord with ⟨after, error | found⟩
    · exact id
    · intro hrecord
      dsimp only at hrecord
      cases found with
      | false => exact hrecord
      | true =>
        dsimp only
        rw [hrecord]
        rfl

theorem calls_counters (k : ℕ) (r : PcapReplay) :
    (r.calls k).2.counters = { r.counters with
      packets := r.counters.packets + (delivered (r.calls k).1).length
      bytes := r.counters.bytes + ((delivered (r.calls k).1).map fun packet =>
        packet.data.length).sum } := by
  induction k generalizing r with
  | zero => rfl
  | succ k ih =>
    have hone := nextPacket_counters r
    rcases hcall : r.nextPacket with ⟨after, result⟩
    have hdelivered : delivered (result :: (after.calls k).1) =
        delivered [result] ++ delivered (after.calls k).1 :=
      List.filterMap_append (l := [result])
    rw [hcall] at hone
    dsimp only at hone
    rw [calls_succ hcall k, hdelivered, ih, hone, List.map_append, List.sum_append,
      List.length_append, Nat.add_assoc,
      Nat.add_assoc]

theorem calls_finished {r : PcapReplay} (h : r.finished = true) (k : ℕ) :
    r.calls k = (List.replicate k (.ok .done), r) := by
  induction k with
  | zero => rfl
  | succ k ih => rw [calls_succ (nextPacket_finished h), ih, List.replicate_succ]

def Torn (F : Format) (torn : List UInt8) : Prop :=
  torn ≠ [] ∧ ∃ record : Record F.nanos, torn <+: record.bytes F.order ∧ torn ≠ record.bytes F.order

/-- The whole records are delivered one after the other, and behind them the replay ends for ever.
-/
theorem calls_records {F : Format} (records : List (Record F.nanos)) {torn : List UInt8}
    (htorn : torn = [] ∨ Torn F torn) {r : PcapReplay}
    (h : Ready F r ((records.flatMap fun record => record.bytes F.order) ++ torn)) (k : ℕ) :
    (r.calls k).1 =
        (records.map (Record.captured r.name) ++
        List.replicate k (Except.ok Captured.done)).take k ∧
      ((r.calls k).2.isTruncated = true ↔ records.length < k ∧ torn ≠ []) := by
  induction records generalizing r k with
  | nil =>
    cases k with
    | zero =>
      refine ⟨rfl, ?_⟩
      rw [PcapReplay.calls, PcapReplay.isTruncated, h.whole]
      simp
    | succ k =>
      have hlast : ∃ after, r.nextPacket = (after, .ok .done) ∧ after.finished = true ∧
          (after.truncated = true ↔ torn ≠ []) := by
        rcases htorn with rfl | ⟨hne, record, hpart, hproper⟩
        · obtain ⟨after, hcall, hfinished, hwhole, -⟩ := nextPacket_end h
          refine ⟨after, hcall, hfinished, ?_⟩
          rw [hwhole]
          simp
        · obtain ⟨after, hcall, hfinished, hpartial, -⟩ :=
            nextPacket_torn record h hne hpart hproper
          exact ⟨after, hcall, hfinished, iff_of_true hpartial hne⟩
      obtain ⟨after, hcall, hfinished, htruncated⟩ := hlast
      rw [calls_succ hcall, calls_finished hfinished k]
      refine ⟨?_, ?_⟩
      · rw [List.map_nil, List.nil_append, List.take_replicate, Nat.min_self, List.replicate_succ]
      · rw [PcapReplay.isTruncated, htruncated]
        exact (and_iff_right (Nat.succ_pos k)).symm
  | cons record records ih =>
    cases k with
    | zero =>
      refine ⟨rfl, ?_⟩
      rw [PcapReplay.calls, PcapReplay.isTruncated, h.whole]
      simp
    | succ k =>
      rw [List.flatMap_cons, List.append_assoc] at h
      obtain ⟨after, hcall, hready, hname, -⟩ := nextPacket_record record h
      obtain ⟨hresults, htruncated⟩ := ih hready k
      rw [calls_succ hcall]
      refine ⟨?_, ?_⟩
      · rw [hname] at hresults
        have hmore : k - records.length ≤ k := Nat.sub_le k records.length
        rw [hresults, List.map_cons, List.cons_append, List.take_succ_cons, List.take_append,
          List.take_append,
          List.take_replicate, List.take_replicate, List.length_map, Nat.min_eq_left hmore,
          Nat.min_eq_left (hmore.trans (Nat.le_succ k))]
      · rw [List.length_cons, Nat.add_lt_add_iff_right]
        exact htruncated

namespace Format

variable {F : Format} {records : List (Record F.nanos)} {p : List UInt8}

/-- The first `n` records of a file are whole in what there is of it, and no more of them are. -/
structure Holds (F : Format) (records : List (Record F.nanos)) (p : List UInt8) (n : ℕ) : Prop where
  le_length : n ≤ records.length
  whole : F.file (records.take n) <+: p
  most : ∀ m ≤ records.length, F.file (records.take m) <+: p → m ≤ n

def OnBoundary (F : Format) (records : List (Record F.nanos)) (p : List UInt8) : Prop :=
  ∃ m ≤ records.length, p = F.file (records.take m)

theorem file_eq (F : Format) (records : List (Record F.nanos)) :
    F.file records = F.headerBytes ++ (records.map fun record => record.bytes F.order).flatten := by
  rw [file, List.flatMap_def]

theorem file_append (F : Format) (records more : List (Record F.nanos)) :
    F.file (records ++ more) = F.file records ++ more.flatMap fun record =>
      record.bytes F.order := by
  rw [file, file, List.flatMap_append, List.append_assoc]

theorem file_take_succ {n : ℕ} (h : n < records.length) :
    F.file (records.take (n + 1)) = F.file (records.take n) ++ records[n].bytes F.order := by
  rw [List.take_add_one, List.getElem?_eq_getElem h, file_append, Option.toList_some,
    List.flatMap_singleton]

theorem file_take_mono {n m : ℕ} (h : n ≤ m) :
    F.file (records.take n) <+: F.file (records.take m) := by
  obtain ⟨more, hmore⟩ := (List.take_prefix_take_left h : records.take n <+: records.take m)
  rw [← hmore, file_append]
  exact List.prefix_append _ _

/-- A file that is cut off has its header, some whole records and perhaps a torn one. -/
theorem exists_holds (hp : p <+: F.file records) (hlen : fileHeaderLen ≤ p.length) :
    ∃ n torn, p = F.file (records.take n) ++ torn ∧ (torn = [] ∨ Torn F torn) ∧
      F.Holds records p n ∧
      (torn = [] ↔ F.OnBoundary records p) := by
  obtain ⟨cut, rfl⟩ : F.headerBytes <+: p := by
    apply List.prefix_of_prefix_length_le (List.prefix_append _ _) hp
    rw [F.length_headerBytes]
    exact hlen
  rw [file_eq, List.prefix_append_right_inj] at hp
  obtain ⟨n, torn, hn, hcut, htorn⟩ := exists_torn hp
  rw [List.length_map] at hn
  have hsplit : F.headerBytes ++ cut = F.file (records.take n) ++ torn := by
    rw [hcut, file_eq, List.map_take, List.append_assoc]
  have hmost : ∀ m ≤ records.length, F.file (records.take m) <+: F.headerBytes ++ cut → m ≤ n := by
    intro m hm hwhole
    by_contra hlt
    have hnext : n < records.length := by omega
    have hsucc : n + 1 ≤ m := by omega
    -- Then the record behind the whole ones would be a front of the torn one.
    have hfront := (F.file_take_mono hsucc).trans hwhole
    rw [hsplit, file_take_succ hnext, List.prefix_append_right_inj] at hfront
    rcases htorn with hnil | ⟨part, hpart, hback, hproper⟩
    · rw [hnil] at hfront
      exact Record.bytes_ne_nil _ _ (List.prefix_nil.1 hfront)
    · rw [List.getElem?_map, List.getElem?_eq_getElem hnext, Option.map_some,
        Option.some.injEq] at hpart
      subst hpart
      exact hproper (List.IsPrefix.eq_of_length_le hback hfront.length_le)
  refine ⟨n, torn, hsplit, ?_, ⟨hn, ?_, hmost⟩, ?_⟩
  · rcases htorn with hnil | ⟨part, hpart, hfront, hproper⟩
    · exact Or.inl hnil
    · rw [List.getElem?_map, Option.map_eq_some_iff] at hpart
      obtain ⟨record, -, rfl⟩ := hpart
      by_cases hnil : torn = []
      · exact Or.inl hnil
      · exact Or.inr ⟨hnil, record, hfront, hproper⟩
  · rw [hsplit]
    exact List.prefix_append _ _
  · refine ⟨fun hnil => ⟨n, hn, ?_⟩, ?_⟩
    · rw [hsplit, hnil, List.append_nil]
    · rintro ⟨m, hm, heq⟩
      have hle := hmost m hm (heq ▸ List.prefix_rfl)
      have hlength := (file_take_mono hle : F.file (records.take m) <+: F.file
        (records.take n)).length_le
      rw [← heq, hsplit, List.length_append] at hlength
      exact List.length_eq_zero_iff.1 (by omega)

end Format

theorem fromReader_ready {F : Format} {reader : Reader} {rest : List UInt8}
    (hbytes : reader.bytes = F.headerBytes ++ rest) (hsteady : .failed ∉ reader.script)
    (name : String) :
    ∃ replay, PcapReplay.fromReader reader name = .ok replay ∧ Ready F replay rest ∧
      replay.name = name ∧
      replay.counters = {} := by
  obtain ⟨later, hlater, hfill⟩ := fill_eq hsteady fileHeaderLen name
  rw [hbytes, List.take_left' F.length_headerBytes, List.drop_left' F.length_headerBytes] at hfill
  refine ⟨{ reader := ⟨rest, later⟩, name := name, header := F.header }, ?_,
    ⟨rfl, rfl, hlater, rfl, rfl⟩, rfl, rfl⟩
  rw [PcapReplay.fromReader, hfill]
  dsimp only [bind, Except.bind]
  rw [F.length_headerBytes, if_neg (lt_irrefl _), F.parseFileHeader_headerBytes]
  rfl

/-- Wherever a savefile is cut off behind its header, and in whatever pieces it is read, the calls
deliver the whole records in order and then end for ever; the replay is truncated when its end is
seen and is not behind a record, and the counters are what was delivered. -/
theorem savefile_replayed (F : Format) (records : List (Record F.nanos)) {p : List UInt8}
    (hp : p <+: F.file records)
    (hlen : fileHeaderLen ≤ p.length) {script : List Answer} (hscript : .failed ∉ script)
    (name : String) :
    ∃ replay n, PcapReplay.fromReader ⟨p, script⟩ name = .ok replay ∧ F.Holds records p n ∧
      ∀ k,
        (replay.calls k).1 =
            ((records.take n).map (Record.captured name) ++
            List.replicate k (Except.ok Captured.done)).take k ∧
          ((replay.calls k).2.isTruncated = true ↔ n < k ∧ ¬F.OnBoundary records p) ∧
          (replay.calls k).2.counters.packets = (delivered (replay.calls k).1).length ∧
          (replay.calls k).2.counters.bytes =
            ((delivered (replay.calls k).1).map fun packet => packet.data.length).sum := by
  obtain ⟨n, torn, hsplit, htorn, hholds, hboundary⟩ := Format.exists_holds hp hlen
  have hbytes : p = F.headerBytes ++
      (((records.take n).flatMap fun record => record.bytes F.order) ++ torn) := by
    rw [hsplit, Format.file, List.append_assoc]
  obtain ⟨replay, hopen, hready, hname, hcounters⟩ :=
    @fromReader_ready F ⟨p, script⟩ _ hbytes hscript name
  refine ⟨replay, n, hopen, hholds, fun k => ?_⟩
  obtain ⟨hresults, htruncated⟩ := calls_records (records.take n) htorn hready k
  have hcounted := calls_counters k replay
  rw [List.length_take, Nat.min_eq_left hholds.le_length] at htruncated
  rw [hcounters] at hcounted
  refine ⟨?_, ?_, ?_, ?_⟩
  · rw [hresults, hname]
  · rw [htruncated, ← hboundary]
  · rw [hcounted]
    exact Nat.zero_add _
  · rw [hcounted]
    exact Nat.zero_add _

def sampleFormat : Format where
  order := .big
  nanos := true
  versionMajor := 2
  versionMinor := 4
  thiszone := 0
  sigfigs := 0
  snaplen := 65535

/-- A frame without bytes and a frame of four of the sixty that were on the wire. -/
def sampleRecords : List (Record sampleFormat.nanos) :=
  [⟨1, 999999999, 0, [], by decide, by decide⟩, ⟨2, 5, 60, [1, 2, 3, 4], by decide, by decide⟩]

theorem savefile_replayed_torn :
    ∃ replay n,
      PcapReplay.fromReader ⟨(sampleFormat.file sampleRecords).take 58,
        [.short 2, .interrupted, .short 0]⟩
          "capture.pcap" = .ok replay ∧
        sampleFormat.Holds sampleRecords ((sampleFormat.file sampleRecords).take 58) n ∧
        (replay.calls 3).1 =
          ((sampleRecords.take n).map (Record.captured "capture.pcap") ++
            List.replicate 3 (Except.ok Captured.done)).take 3 := by
  obtain ⟨replay, n, hopen, hholds, hcalls⟩ :=
    savefile_replayed sampleFormat sampleRecords (List.take_prefix 58 _) (by decide +kernel)
      (by decide : Answer.failed ∉ [.short 2, .interrupted, .short 0]) "capture.pcap"
  exact ⟨replay, n, hopen, hholds, (hcalls 3).1⟩

end CyberSentinel.Replay
