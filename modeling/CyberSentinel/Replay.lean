import CyberSentinel.Pipeline
import CyberSentinel.Words

/-!
# Replay of savefiles

A savefile has a header and records, each with its own header and the bytes of a frame. Its numbers
are in the byte order of the machine that wrote it. The reader hands out its bytes in pieces of any
size; how its next reads go is given by a script. A file that ends inside a record ends the replay,
which says so.
-/

namespace CyberSentinel.Replay

open Bytes Words

def fileHeaderLen : ℕ := 24

def recordHeaderLen : ℕ := 16

def maxFrameLen : ℕ := 262144

def magicMicros : ℕ := 0xa1b2c3d4

def magicMicrosSwapped : ℕ := 0xd4c3b2a1

def magicNanos : ℕ := 0xa1b23c4d

def magicNanosSwapped : ℕ := 0x4d3cb2a1

def magicPcapng : ℕ := 0x0a0d0d0a

inductive LinkType
  | ethernet
  | other (raw : ℕ)
  deriving DecidableEq, Repr

namespace LinkType

def fromRaw (value : ℕ) : LinkType := if value = 1 then ethernet else other value

def asRaw : LinkType → ℕ
  | ethernet => 1
  | other raw => raw

end LinkType

inductive CaptureError
  | io (path : String)
  /-- `file header is {read} bytes, expected 24` -/
  | shortHeader (path : String) (read : ℕ)
  /-- ``this is a pcapng file; convert it with `editcap -F pcap` first`` -/
  | pcapng (path : String)
  /-- `unrecognised magic number {magic}` -/
  | badMagic (path : String) (magic : ℕ)
  | unsupportedLinkType (linkType : ℕ) (sourceName : String)
  | recordTooLarge (offset claimed : ℕ)
  deriving DecidableEq, Repr

/-- How a read goes: it is interrupted, it fails, or it gives at most one byte more than the number
says. -/
inductive Answer
  | interrupted
  | failed
  | short (most : ℕ)
  deriving DecidableEq, Repr

/-- What there is to read, and how the next reads go. When the script is over every read gives all
it is asked for. -/
structure Reader where
  bytes : List UInt8
  script : List Answer := []
  deriving DecidableEq

/-- The loop of `fill` over the answers of the script, after the bytes already read. -/
def fillFrom : List Answer → (read bytes : List UInt8) → (want : ℕ) →
    Except Unit (List UInt8) × Reader
  | [], read, bytes, want => (.ok (read ++ bytes.take want), ⟨bytes.drop want, []⟩)
  | answer :: script, read, bytes, want =>
    if want = 0 then (.ok read, ⟨bytes, answer :: script⟩)
    else
      match answer with
      | .interrupted => fillFrom script read bytes want
      | .failed => (.error (), ⟨bytes, script⟩)
      | .short most =>
        let n := min (most + 1) (min want bytes.length)
        if n = 0 then (.ok read, ⟨bytes, script⟩)
        else fillFrom script (read ++ bytes.take n) (bytes.drop n) (want - n)

/-- Read until there is as much as wanted or the reader is exhausted. -/
def fill (reader : Reader) (want : ℕ) (name : String) : Except CaptureError (List UInt8) × Reader :=
  let (result, reader) := fillFrom reader.script [] reader.bytes want
  (result.mapError fun _ => .io name, reader)

structure FileHeader where
  versionMajor : ℕ
  versionMinor : ℕ
  snaplen : ℕ
  linkType : LinkType
  nanosecondTimestamps : Bool
  byteSwapped : Bool
  deriving DecidableEq

/-- The order of the bytes, on a machine that has the lowest first. -/
def orderOf (byteSwapped : Bool) : ByteOrder := if byteSwapped then .big else .little

def wordAt (byteSwapped : Bool) (w : ℕ) (raw : List UInt8) (position : ℕ) : ℕ :=
  (orderOf byteSwapped).value (slice raw position (position + w))

def FileHeader.u32At (header : FileHeader) (raw : List UInt8) (position : ℕ) : ℕ :=
  wordAt header.byteSwapped 4 raw position

/-- What the magic number says of the byte order and the timestamps. -/
def formatOf (magic : ℕ) : Option (Bool × Bool) :=
  if magic = magicMicros then some (false, false)
  else if magic = magicNanos then some (false, true)
  else if magic = magicMicrosSwapped then some (true, false)
  else if magic = magicNanosSwapped then some (true, true)
  else none

def parseFileHeader (raw : List UInt8) (name : String) : Except CaptureError FileHeader :=
  let magic := wordAt false 4 raw 0
  match formatOf magic with
  | none =>
    if wordAt true 4 raw 0 = magicPcapng ∨ magic = magicPcapng then .error (.pcapng name)
    else .error (.badMagic name magic)
  | some (byteSwapped, nanosecondTimestamps) =>
    .ok
      { versionMajor := wordAt byteSwapped 2 raw 4
        versionMinor := wordAt byteSwapped 2 raw 6
        snaplen := wordAt byteSwapped 4 raw 16
        linkType := LinkType.fromRaw (wordAt byteSwapped 4 raw 20)
        nanosecondTimestamps := nanosecondTimestamps
        byteSwapped := byteSwapped }

structure CaptureCounters where
  packets : ℕ := 0
  bytes : ℕ := 0
  drops : ℕ := 0
  interfaceDrops : ℕ := 0
  deriving DecidableEq, Repr

structure PcapReplay where
  reader : Reader
  name : String
  header : FileHeader
  /-- The bytes of the last frame. -/
  buffer : List UInt8 := []
  originalLen : ℕ := 0
  timestamp : Instant := 0
  counters : CaptureCounters := {}
  offset : ℕ := fileHeaderLen
  truncated : Bool := false
  finished : Bool := false

inductive Captured
  | frame (interface : String) (packet : RawPacket)
  | idle
  | done
  deriving DecidableEq

namespace PcapReplay

def fromReader (reader : Reader) (name : String) : Except CaptureError PcapReplay := do
  let (read, reader) := fill reader fileHeaderLen name
  let raw ← read
  if raw.length < fileHeaderLen then .error (.shortHeader name raw.length)
  else do
    let header ← parseFileHeader raw name
    if header.linkType ≠ .ethernet then .error (.unsupportedLinkType header.linkType.asRaw name)
    else return { reader := reader, name := name, header := header }

def isTruncated (r : PcapReplay) : Bool := r.truncated

/-- A fraction of microseconds in nanoseconds; the product does not go past 32 bits. -/
def nanosOf (header : FileHeader) (fraction : ℕ) : ℕ :=
  if header.nanosecondTimestamps then fraction else min (fraction * 1000) (2 ^ 32 - 1)

def readFrame (r : PcapReplay) (raw : List UInt8) : PcapReplay × Except CaptureError Bool :=
  let seconds := r.header.u32At raw 0
  let fraction := r.header.u32At raw 4
  let capturedLen := r.header.u32At raw 8
  let wireLen := r.header.u32At raw 12
  if maxFrameLen < capturedLen then (r, .error (.recordTooLarge r.offset capturedLen))
  else
    let r := { r with offset := r.offset + recordHeaderLen }
    match fill r.reader capturedLen r.name with
    | (.error e, reader) => ({ r with reader := reader }, .error e)
    | (.ok buffer, reader) =>
      if buffer.length < capturedLen then
        ({ r with reader := reader, truncated := true }, .ok false)
      else
        ({ r with
            reader := reader
            buffer := buffer
            offset := r.offset + capturedLen
            timestamp := seconds * nanosPerSecond + nanosOf r.header fraction
            originalLen := max wireLen capturedLen }, .ok true)

/-- Read one record; there is none at the end of the file. -/
def readRecord (r : PcapReplay) : PcapReplay × Except CaptureError Bool :=
  match fill r.reader recordHeaderLen r.name with
  | (.error e, reader) => ({ r with reader := reader }, .error e)
  | (.ok raw, reader) =>
    if raw.length = 0 then ({ r with reader := reader }, .ok false)
    else if raw.length < recordHeaderLen then
      ({ r with reader := reader, truncated := true }, .ok false)
    else readFrame { r with reader := reader } raw

def nextPacket (r : PcapReplay) : PcapReplay × Except CaptureError Captured :=
  if r.finished then (r, .ok .done)
  else
    match r.readRecord with
    | (r, .error e) => (r, .error e)
    | (r, .ok false) => ({ r with finished := true }, .ok .done)
    | (r, .ok true) =>
      ({ r with
          counters := { r.counters with
            packets := r.counters.packets + 1
            bytes := r.counters.bytes + r.buffer.length } },
        .ok (.frame r.name ⟨r.buffer, r.originalLen, r.timestamp⟩))

/-- What a number of calls of `nextPacket` in a row give. -/
def calls : ℕ → PcapReplay → List (Except CaptureError Captured) × PcapReplay
  | 0, r => ([], r)
  | k + 1, r =>
    let (r, result) := r.nextPacket
    let (results, r) := calls k r
    (result :: results, r)

end PcapReplay

end CyberSentinel.Replay
