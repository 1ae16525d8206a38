import CyberSentinel.Normalize
import CyberSentinel.Search
import Mathlib.Data.List.DropRight

/-!
# The HTTP request parser

Finds request heads in a client-to-server stream and fills the buffers rules match against. Bytes
wait until a head is complete; a head that outgrows the cap is given up, and the parser skips to the
end of it before it reads requests again.
-/

namespace CyberSentinel

def defaultMaxHead : ℕ := 64 * 2 ^ 10

def maxHeaders : ℕ := 128

structure HttpRequest where
  method : List UInt8 := []
  rawUri : List UInt8 := []
  uri : List UInt8 := []
  normalization : NormalizationFlags := {}
  version : List UInt8 := []
  headers : List UInt8 := []
  userAgent : Option (List UInt8) := none
  host : Option (List UInt8) := none
  truncated : Bool := false
  deriving DecidableEq, Repr

structure HttpCounters where
  requests : ℕ := 0
  oversized : ℕ := 0
  malformed : ℕ := 0
  deriving DecidableEq, Repr

structure HttpParser where
  buffer : List UInt8
  maxHead : ℕ
  counters : HttpCounters
  /-- A head was given up; what comes before the next head end is its tail. -/
  resynchronising : Bool
  deriving DecidableEq, Repr

def HttpParser.new (maxHead : ℕ) : HttpParser := ⟨[], max maxHead 64, {}, false⟩

def lineFeed : UInt8 := 0x0a
def carriageReturn : UInt8 := 0x0d
def space : UInt8 := 0x20

def asciiLower (byte : UInt8) : UInt8 :=
  if 0x41 ≤ byte ∧ byte ≤ 0x5a then byte + 0x20 else byte

def eqIgnoreAsciiCase (a b : UInt8) : Bool := asciiLower a == asciiLower b

def isAsciiWhitespace (byte : UInt8) : Bool :=
  byte == space || byte == 0x09 || byte == lineFeed || byte == 0x0c || byte == carriageReturn

def isAsciiAlphabetic (byte : UInt8) : Bool :=
  (0x41 ≤ byte && byte ≤ 0x5a) || (0x61 ≤ byte && byte ≤ 0x7a)

def Http.trim (bytes : List UInt8) : List UInt8 :=
  (bytes.dropWhile isAsciiWhitespace).rdropWhile isAsciiWhitespace

/-- At most `n` pieces; the last one keeps the separators that are left. -/
def splitN (separator : UInt8) : ℕ → List UInt8 → List (List UInt8)
  | 0, _ => []
  | 1, bytes => [bytes]
  | n + 2, bytes =>
    match bytes.dropWhile (fun byte => byte != separator) with
    | [] => [bytes]
    | _ :: rest => bytes.takeWhile (fun byte => byte != separator) :: splitN separator (n + 1) rest

/-- The end of the first head, its terminator included: `\r\n\r\n` or a bare `\n\n`. -/
def findHeadEnd (buffer : List UInt8) : Option ℕ :=
  let crlf := (Search.windowPosition buffer 4
    (fun w => w == [carriageReturn, lineFeed, carriageReturn, lineFeed])).map (fun p => p + 4)
  let lf := (Search.windowPosition buffer 2 (fun w => w == [lineFeed, lineFeed])).map
    (fun p => p + 2)
  match crlf, lf with
  | some a, some b => some (min a b)
  | some a, none => some a
  | none, some b => some b
  | none, none => none

/-- `user-agent` -/
def userAgentName : List UInt8 := [0x75, 0x73, 0x65, 0x72, 0x2d, 0x61, 0x67, 0x65, 0x6e, 0x74]

/-- `host` -/
def hostName : List UInt8 := [0x68, 0x6f, 0x73, 0x74]

def colon : UInt8 := 0x3a

def HttpRequest.addHeader (request : HttpRequest) (line : List UInt8) : HttpRequest :=
  let request := { request with
    headers := (if request.headers = [] then [] else request.headers ++ [lineFeed]) ++ line }
  match line.findIdx? (fun byte => byte == colon) with
  | none => request
  | some i =>
    let name := (line.take i).map asciiLower
    let value := Http.trim (line.drop (i + 1))
    if name = userAgentName then { request with userAgent := some value }
    else if name = hostName then { request with host := some value }
    else request

/-- The header lines, of which `seen` have been kept. -/
def readHeaders : ℕ → HttpRequest → List (List UInt8) → HttpRequest
  | _, request, [] => request
  | seen, request, line :: rest =>
    let line := Http.trim line
    if line = [] then readHeaders seen request rest
    else if maxHeaders < seen + 1 then { request with truncated := true }
    else readHeaders (seen + 1) (request.addHeader line) rest

def questionMark : UInt8 := 0x3f

/-- The query string is left alone: only the path is normalized. -/
def requestLine (line : List UInt8) (options : NormalizeConfig) : Option HttpRequest :=
  match splitN space 3 (Http.trim line) with
  | methodPart :: uriPart :: rest =>
    let method := Http.trim methodPart
    let rawUri := Http.trim uriPart
    let version := rest.head?.elim [] Http.trim
    if method = [] ∨ rawUri = [] ∨ ¬ method.all isAsciiAlphabetic then none
    else
      let pathEnd := (rawUri.findIdx? (fun byte => byte == questionMark)).getD rawUri.length
      let normalized := normalizePath (rawUri.take pathEnd) options
      some { method := method, rawUri := rawUri, version := version,
             uri := normalized.bytes ++ rawUri.drop pathEnd,
             normalization := normalized.flags }
  | _ => none

def parseHead (head : List UInt8) (options : NormalizeConfig) : Option HttpRequest :=
  match head.splitOn lineFeed with
  | [] => none
  | first :: lines =>
    if Http.trim first = [] then none
    else (requestLine first options).map (fun request => readHeaders 0 request lines)

namespace HttpParser

/-- What happens to a complete head: skipped when it is the tail of one that was given up, else
parsed. -/
def takeHead (p : HttpParser) (length : ℕ) (options : NormalizeConfig) :
    HttpParser × Option HttpRequest :=
  let rest := { p with buffer := p.buffer.drop length }
  if p.resynchronising then ({ rest with resynchronising := false }, none)
  else
    match parseHead (p.buffer.take length) options with
    | some request =>
      ({ rest with counters := { p.counters with requests := p.counters.requests + 1 } },
        some request)
    | none =>
      ({ rest with counters := { p.counters with malformed := p.counters.malformed + 1 } }, none)

/-- No head end is in sight: past the cap the head is given up. -/
def holdHead (p : HttpParser) : HttpParser :=
  if p.maxHead < p.buffer.length then
    { p with buffer := [], resynchronising := true
             counters := { p.counters with oversized := p.counters.oversized + 1 } }
  else p

/-- Take heads until none is complete. A head is at least two bytes long, so a number of rounds as
large as the buffer is enough. -/
def takeHeads (options : NormalizeConfig) : ℕ → HttpParser → HttpParser × List HttpRequest
  | 0, p => (p.holdHead, [])
  | rounds + 1, p =>
    match findHeadEnd p.buffer with
    | none => (p.holdHead, [])
    | some length =>
      let taken := p.takeHead length options
      let rest := takeHeads options rounds taken.1
      (rest.1, taken.2.toList ++ rest.2)

/-- Offer newly reassembled bytes; every request head that became complete is returned. -/
def push (p : HttpParser) (bytes : List UInt8) (options : NormalizeConfig) :
    HttpParser × List HttpRequest :=
  let p := { p with buffer := p.buffer ++ bytes }
  takeHeads options p.buffer.length p

@[simp] theorem takeHead_buffer (p : HttpParser) (length : ℕ) (options : NormalizeConfig) :
    (p.takeHead length options).1.buffer = p.buffer.drop length := by
  unfold takeHead
  cases p.resynchronising with
  | true => rfl
  | false => cases parseHead (p.buffer.take length) options <;> rfl

theorem findHeadEnd_pos {buffer : List UInt8} {length : ℕ} (h : findHeadEnd buffer = some length) :
    2 ≤ length ∧ length ≤ buffer.length := by
  simp only [findHeadEnd] at h
  have hcrlf (p : ℕ) := @Search.windowPosition_eq_some UInt8 buffer 4 p
    (fun w => w == [carriageReturn, lineFeed, carriageReturn, lineFeed])
  have hlf (p : ℕ) := @Search.windowPosition_eq_some UInt8 buffer 2 p
    (fun w => w == [lineFeed, lineFeed])
  split at h
  · next a b ha hb =>
    obtain ⟨i, hi, rfl⟩ := Option.map_eq_some_iff.1 ha
    obtain ⟨j, hj, rfl⟩ := Option.map_eq_some_iff.1 hb
    have hi := (hcrlf i hi).1
    have hj := (hlf j hj).1
    have := Option.some.inj h
    omega
  · next a ha hb =>
    obtain ⟨i, hi, rfl⟩ := Option.map_eq_some_iff.1 ha
    have hi := (hcrlf i hi).1
    have := Option.some.inj h
    omega
  · next b ha hb =>
    obtain ⟨j, hj, rfl⟩ := Option.map_eq_some_iff.1 hb
    have hj := (hlf j hj).1
    have := Option.some.inj h
    omega
  · exact absurd h (by simp)

end HttpParser
end CyberSentinel
