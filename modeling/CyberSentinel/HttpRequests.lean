import CyberSentinel.Blanks
import CyberSentinel.HeadLines

/-!
# Requests as they are sent

A request without a body is a request line and header lines, all ended alike, and an empty line.
Parsing gives it back: method, target and version as they were written, the target also in its
normalized form, and the header lines without the blanks around them.
-/

namespace CyberSentinel

open Frames

namespace Http

theorem eq_false_of_any {p : UInt8 → Bool} {bytes : List UInt8} (h : bytes.any p = false) :
    ∀ byte ∈ bytes, p byte = false :=
  fun byte hbyte => Bool.eq_false_iff.2 (List.any_eq_false.1 h byte hbyte)

theorem trim_eq_strip (line : List UInt8) : trim line = Blanks.strip isAsciiWhitespace line := rfl

theorem trim_token {token : List UInt8} (h : ∀ byte ∈ token, isAsciiWhitespace byte = false) :
    trim token = token :=
  Blanks.strip_eq_self (fun byte hbyte => h byte (List.mem_of_mem_head? hbyte))
    fun byte hbyte => h byte (List.mem_of_mem_getLast? hbyte)

theorem trim_ne_nil {line : List UInt8} (h : ∃ byte ∈ line, isAsciiWhitespace byte = false) :
    trim line ≠ [] := by
  obtain ⟨byte, hmem, hbyte⟩ := h
  intro hnil
  have hblank := Blanks.strip_eq_nil_iff.1 hnil byte hmem
  exact absurd (hbyte.symm.trans hblank) Bool.false_ne_true

end Http

theorem splitN_append {separator : UInt8} {piece : List UInt8} (h : separator ∉ piece) (n : ℕ)
    (rest : List UInt8) :
    splitN separator (n + 2) (piece ++ separator :: rest) =
      piece :: splitN separator (n + 1) rest := by
  have hpiece : ∀ byte ∈ piece, (byte != separator) = true := by
    intro byte hbyte
    exact bne_iff_ne.2 fun heq => h (heq ▸ hbyte)
  have hdrop : (piece ++ separator :: rest).dropWhile (fun byte => byte != separator) =
      separator :: rest := by
    rw [List.dropWhile_append_of_pos hpiece]
    exact List.dropWhile_cons_of_neg (by simp)
  have htake : (piece ++ separator :: rest).takeWhile (fun byte => byte != separator) = piece := by
    rw [List.takeWhile_append_of_pos hpiece, List.takeWhile_cons_of_neg (by simp), List.append_nil]
  rw [splitN, hdrop, htake]

theorem findIdx?_getD {α : Type*} (p : α → Bool) (l : List α) :
    (l.findIdx? p).getD l.length = l.findIdx p := by
  cases hfound : l.findIdx? p with
  | none => exact (List.findIdx?_eq_none_iff_findIdx_eq.1 hfound).symm
  | some i => exact (List.findIdx?_eq_some_iff_findIdx_eq.1 hfound).2.symm

theorem take_findIdx {α : Type*} [BEq α] (x : α) (l : List α) :
    l.take (l.findIdx fun y => y == x) = l.takeWhile (fun y => y != x) := by
  rw [List.takeWhile_eq_take_findIdx_not]
  simp only [bne, Bool.not_not]

theorem drop_findIdx {α : Type*} [BEq α] (x : α) (l : List α) :
    l.drop (l.findIdx fun y => y == x) = l.dropWhile (fun y => y != x) := by
  rw [List.dropWhile_eq_drop_findIdx_not]
  simp only [bne, Bool.not_not]

def headerOf (line : List UInt8) : Option (List UInt8 × List UInt8) :=
  if colon ∈ line then
    some ((line.takeWhile (fun byte => byte != colon)).map asciiLower,
      Http.trim (line.dropWhile (fun byte => byte != colon)).tail)
  else none

def lastValue (name : List UInt8) (lines : List (List UInt8)) : Option (List UInt8) :=
  ((lines.filterMap headerOf).filter (fun header => header.1 = name)).getLast?.map Prod.snd

theorem lastValue_append (name : List UInt8) (lines others : List (List UInt8)) :
    lastValue name (lines ++ others) = (lastValue name others).or (lastValue name lines) := by
  rw [lastValue, List.filterMap_append, List.filter_append, List.getLast?_append, Option.map_or]
  rfl

theorem lastValue_singleton (name line : List UInt8) :
    lastValue name [line] =
      ((headerOf line).filter (fun header => header.1 = name)).map Prod.snd := by
  rw [lastValue, List.filterMap_cons, List.filterMap_nil]
  cases headerOf line with
  | none => rfl
  | some header =>
    by_cases hname : header.1 = name
    · simp [Option.filter, hname]
    · simp [Option.filter, hname]

theorem addHeader_eq (request : HttpRequest) (line : List UInt8) :
    request.addHeader line =
      { request with
        headers := (if request.headers = [] then [] else request.headers ++ [lineFeed]) ++ line
        userAgent := (lastValue userAgentName [line]).or request.userAgent
        host := (lastValue hostName [line]).or request.host } := by
  have hnames : userAgentName ≠ hostName := by decide
  rw [HttpRequest.addHeader, lastValue_singleton, lastValue_singleton, headerOf]
  by_cases hcolon : colon ∈ line
  · have hfound : line.findIdx? (fun byte => byte == colon) =
        some (line.findIdx fun byte => byte == colon) :=
      List.findIdx?_eq_some_of_exists ⟨colon, hcolon, beq_self_eq_true _⟩
    have htail : line.drop (line.findIdx (fun byte => byte == colon) + 1) =
        (line.dropWhile fun byte => byte != colon).tail := by
      rw [← drop_findIdx, List.tail_drop]
    rw [hfound, if_pos hcolon]
    dsimp only
    rw [take_findIdx, htail]
    generalize (line.takeWhile fun byte => byte != colon).map asciiLower = name
    generalize Http.trim (line.dropWhile fun byte => byte != colon).tail = value
    by_cases hagent : name = userAgentName
    · simp [Option.filter, hagent, hnames]
    · by_cases hhost : name = hostName
      · simp [Option.filter, hhost, hnames.symm]
      · simp [Option.filter, hagent, hhost]
  · have hnone : line.findIdx? (fun byte => byte == colon) = none := by
      rw [List.findIdx?_eq_none_iff]
      intro byte hbyte
      exact beq_eq_false_iff_ne.2 fun heq => hcolon (heq ▸ hbyte)
    rw [hnone, if_neg hcolon]
    rfl

theorem intercalate_merge {α : Type*} (x : α) (a b : List α) (rest : List (List α)) :
    [x].intercalate ((a ++ [x] ++ b) :: rest) = [x].intercalate (a :: b :: rest) := by
  cases rest with
  | nil => simp
  | cons next others => simp

/-- The header lines are put together, and the last value of a name stands. -/
theorem foldl_addHeader {lines : List (List UInt8)} (h : ∀ line ∈ lines, line ≠ [])
    (request : HttpRequest) :
    lines.foldl HttpRequest.addHeader request =
      { request with
        headers := [lineFeed].intercalate
          ((if request.headers = [] then [] else [request.headers]) ++ lines)
        userAgent := (lastValue userAgentName lines).or request.userAgent
        host := (lastValue hostName lines).or request.host } := by
  induction lines generalizing request with
  | nil =>
    have hsame (headers : List UInt8) (heq : headers = request.headers) :
        { request with headers := headers } = request := by rw [heq]
    refine (hsame _ ?_).symm
    by_cases hheaders : request.headers = []
    · simp [hheaders]
    · simp [hheaders]
  | cons line rest ih =>
    obtain ⟨hline, hrest⟩ := List.forall_mem_cons.1 h
    have hlast (name : List UInt8) : lastValue name (line :: rest) =
        (lastValue name rest).or (lastValue name [line]) := lastValue_append name [line] rest
    have hne : (if request.headers = [] then [] else request.headers ++ [lineFeed]) ++ line ≠ [] :=
      List.append_ne_nil_of_right_ne_nil _ hline
    rw [List.foldl_cons, ih hrest, addHeader_eq]
    simp only [hlast, Option.or_assoc, if_neg hne]
    by_cases hheaders : request.headers = []
    · simp [hheaders]
    · simp only [if_neg hheaders, intercalate_merge, List.cons_append, List.nil_append]

/-- Lines that are not blank are all kept while there is room, and blank ones behind them passed
over. -/
theorem readHeaders_eq {lines blanks : List (List UInt8)} {seen : ℕ}
    (hlines : ∀ line ∈ lines, Http.trim line ≠ []) (hblanks : ∀ line ∈ blanks, Http.trim line = [])
    (hroom : seen + lines.length ≤ maxHeaders) (request : HttpRequest) :
    readHeaders seen request (lines ++ blanks) =
      (lines.map Http.trim).foldl HttpRequest.addHeader request := by
  induction lines generalizing seen request with
  | nil =>
    rw [List.nil_append, List.map_nil, List.foldl_nil]
    clear hroom hlines
    induction blanks with
    | nil => rfl
    | cons blank rest ih =>
      obtain ⟨hblank, hrest⟩ := List.forall_mem_cons.1 hblanks
      rw [readHeaders, hblank]
      exact ih hrest
  | cons line rest ih =>
    obtain ⟨hline, hrest⟩ := List.forall_mem_cons.1 hlines
    rw [List.length_cons] at hroom
    rw [List.cons_append, readHeaders, if_neg hline, if_neg (by omega), ih hrest (by omega),
      List.map_cons, List.foldl_cons]

structure RequestText where
  method : List UInt8
  target : List UInt8
  version : List UInt8
  headers : List (List UInt8)
  /-- All lines end in a carriage return and a line feed, or all in a line feed. -/
  crlf : Bool

namespace RequestText

def ending (r : RequestText) : List UInt8 := if r.crlf then [carriageReturn] else []

def line (r : RequestText) : List UInt8 := r.method ++ space :: (r.target ++ space :: r.version)

def lines (r : RequestText) : List (List UInt8) :=
  (r.line :: r.headers).map fun line => line ++ r.ending

def bytes (r : RequestText) : List UInt8 := headOf r.lines r.ending

structure WellFormed (r : RequestText) : Prop where
  method_ne_nil : r.method ≠ []
  method_alphabetic : ∀ byte ∈ r.method, isAsciiAlphabetic byte = true
  target_ne_nil : r.target ≠ []
  target_token : ∀ byte ∈ r.target, isAsciiWhitespace byte = false
  version_ne_nil : r.version ≠ []
  version_token : ∀ byte ∈ r.version, isAsciiWhitespace byte = false
  headers_length : r.headers.length ≤ maxHeaders
  headers_lineFeed : ∀ header ∈ r.headers, lineFeed ∉ header
  headers_not_blank : ∀ header ∈ r.headers, ∃ byte ∈ header, isAsciiWhitespace byte = false

def request (r : RequestText) (options : NormalizeConfig) : HttpRequest :=
  let path := normalizePath (r.target.takeWhile (fun byte => byte != questionMark)) options
  let headers := r.headers.map Http.trim
  { method := r.method
    rawUri := r.target
    uri := path.bytes ++ r.target.dropWhile (fun byte => byte != questionMark)
    normalization := path.flags
    version := r.version
    headers := [lineFeed].intercalate headers
    userAgent := lastValue userAgentName headers
    host := lastValue hostName headers }

theorem blank_ending (r : RequestText) : ∀ byte ∈ r.ending, isAsciiWhitespace byte = true := by
  rw [ending]
  split_ifs
  · exact List.all_eq_true.1 rfl
  · exact fun byte hbyte => absurd hbyte List.not_mem_nil

theorem isEmptyLine_ending (r : RequestText) : IsEmptyLine r.ending := by
  rw [ending]
  split_ifs
  · exact Or.inr rfl
  · exact Or.inl rfl

namespace WellFormed

variable {r : RequestText}

theorem method_token (h : r.WellFormed) : ∀ byte ∈ r.method, isAsciiWhitespace byte = false := by
  intro byte hbyte
  have halphabetic := h.method_alphabetic byte hbyte
  have hblank : ∀ blank ∈ ([space, 0x09, lineFeed, 0x0c, carriageReturn] : List UInt8),
      isAsciiAlphabetic blank = false := Http.eq_false_of_any rfl
  by_contra hspace
  rw [Bool.not_eq_false] at hspace
  have hmem : byte ∈ ([space, 0x09, lineFeed, 0x0c, carriageReturn] : List UInt8) := by
    simpa [isAsciiWhitespace, or_assoc] using hspace
  exact absurd ((hblank byte hmem).symm.trans halphabetic) Bool.false_ne_true

theorem line_not_blank (h : r.WellFormed) : ∃ byte ∈ r.line, isAsciiWhitespace byte = false := by
  obtain ⟨byte, hbyte⟩ := List.exists_mem_of_ne_nil _ h.method_ne_nil
  exact ⟨byte, List.mem_append_left _ hbyte, h.method_token byte hbyte⟩

theorem not_blank (h : r.WellFormed) :
    ∀ line ∈ r.line :: r.headers, ∃ byte ∈ line, isAsciiWhitespace byte = false :=
  List.forall_mem_cons.2 ⟨h.line_not_blank, h.headers_not_blank⟩

theorem no_lineFeed (h : r.WellFormed) : ∀ line ∈ r.line :: r.headers, lineFeed ∉ line := by
  have htoken {token : List UInt8} (ht : ∀ byte ∈ token, isAsciiWhitespace byte = false) :
      lineFeed ∉ token := fun hmem => absurd (ht lineFeed hmem) (by decide)
  refine List.forall_mem_cons.2 ⟨?_, h.headers_lineFeed⟩
  have hspace : lineFeed ≠ space := by decide
  simp only [line, List.mem_append, List.mem_cons, hspace, htoken h.method_token,
    htoken h.target_token,
    htoken h.version_token, or_self, not_false_eq_true]

theorem headLines (h : r.WellFormed) : HeadLines r.lines r.ending where
  ne_nil := List.cons_ne_nil _ _
  no_lineFeed := by
    intro line hline
    obtain ⟨text, htext, rfl⟩ := List.mem_map.1 hline
    rw [List.mem_append, not_or]
    exact ⟨h.no_lineFeed text htext, fun hmem => by
      rcases r.isEmptyLine_ending with hnil | hcr
      · exact absurd (hnil ▸ hmem) List.not_mem_nil
      · exact absurd (hcr ▸ hmem) (by decide)⟩
  not_empty := by
    intro line hline hempty
    obtain ⟨text, htext, rfl⟩ := List.mem_map.1 hline
    obtain ⟨byte, hbyte, hvisible⟩ := h.not_blank text htext
    have hmem : byte ∈ text ++ r.ending := List.mem_append_left _ hbyte
    rcases hempty with hnil | hcr
    · rw [hnil] at hmem
      exact absurd hmem List.not_mem_nil
    · rw [hcr, List.mem_singleton] at hmem
      rw [hmem] at hvisible
      exact absurd hvisible (by decide)
  last := r.isEmptyLine_ending

theorem not_mixedEnd (r : RequestText) : ¬ MixedEnd r.lines r.ending := by
  rintro ⟨hending, prev, hprev, hbare⟩
  obtain ⟨text, -, rfl⟩ := List.mem_map.1 (List.mem_of_mem_getLast? hprev)
  rw [hending] at hbare
  exact hbare (List.suffix_append _ _)

theorem requestLine_eq (h : r.WellFormed) (options : NormalizeConfig) :
    requestLine (r.line ++ r.ending) options =
      some { method := r.method, rawUri := r.target, version := r.version
             uri := (r.request options).uri, normalization :=
  (r.request options).normalization } := by
  have hnotSpace {token : List UInt8} (ht : ∀ byte ∈ token, isAsciiWhitespace byte = false) :
      space ∉ token := fun hmem => absurd (ht space hmem) (by decide)
  have htrim : Http.trim (r.line ++ r.ending) = r.line := by
    rw [Http.trim_eq_strip, Blanks.strip_append_blank r.blank_ending]
    apply Blanks.strip_eq_self
    · intro byte hbyte
      rw [line, List.head?_append_of_ne_nil _ h.method_ne_nil] at hbyte
      exact h.method_token byte (List.mem_of_mem_head? hbyte)
    · intro byte hbyte
      have hends : r.line = r.method ++ space :: (r.target ++ [space]) ++ r.version := by
        simp [line]
      rw [hends, List.getLast?_append_of_ne_nil _ h.version_ne_nil] at hbyte
      exact h.version_token byte (List.mem_of_mem_getLast? hbyte)
  have hparts : splitN space 3 r.line = [r.method, r.target, r.version] := by
    rw [line, splitN_append (hnotSpace h.method_token), splitN_append (hnotSpace h.target_token)]
    rfl
  have hvalid : ¬ (r.method = [] ∨ r.target = [] ∨ ¬ r.method.all isAsciiAlphabetic = true) := by
    have hall : r.method.all isAsciiAlphabetic = true := List.all_eq_true.2 h.method_alphabetic
    simp only [h.method_ne_nil, h.target_ne_nil, hall, not_true_eq_false, or_self,
      not_false_eq_true]
  rw [requestLine, htrim, hparts]
  dsimp only
  rw [Http.trim_token h.method_token, Http.trim_token h.target_token, List.head?_cons,
    Option.elim_some,
    Http.trim_token h.version_token, if_neg hvalid, findIdx?_getD, take_findIdx, drop_findIdx]
  rfl

theorem parseHead_bytes (h : r.WellFormed) (options : NormalizeConfig) :
    parseHead r.bytes options = some (r.request options) := by
  have hsplit : r.bytes.splitOn lineFeed =
      (r.line ++ r.ending) :: (r.headers.map (fun line => line ++ r.ending) ++ [r.ending, []]) := by
    rw [bytes, headOf, Lines.splitOn_join h.headLines.no_lineFeed_all, List.append_assoc]
    rfl
  have htrim (line : List UInt8) : Http.trim (line ++ r.ending) = Http.trim line :=
    Blanks.strip_append_blank r.blank_ending line
  have hfirst : Http.trim (r.line ++ r.ending) ≠ [] := by
    rw [htrim]
    exact Http.trim_ne_nil h.line_not_blank
  have hkept : ∀ line ∈ r.headers.map (fun line => line ++ r.ending), Http.trim line ≠ [] := by
    intro line hline
    obtain ⟨header, hheader, rfl⟩ := List.mem_map.1 hline
    rw [htrim]
    exact Http.trim_ne_nil (h.headers_not_blank header hheader)
  have hblanks : ∀ line ∈ [r.ending, []], Http.trim line = [] := by
    have hending := htrim []
    intro line hline
    rcases List.mem_pair.1 hline with rfl | rfl
    · exact hending
    · rfl
  have hnonempty : ∀ line ∈ r.headers.map Http.trim, line ≠ [] := by
    intro line hline
    obtain ⟨header, hheader, rfl⟩ := List.mem_map.1 hline
    exact Http.trim_ne_nil (h.headers_not_blank header hheader)
  rw [parseHead, hsplit]
  dsimp only
  rw [if_neg hfirst, h.requestLine_eq options, Option.map_some, readHeaders_eq hkept hblanks (by
    rw [List.length_map, Nat.zero_add]
    exact h.headers_length), List.map_map]
  simp only [Function.comp_def, htrim]
  rw [foldl_addHeader hnonempty]
  simp only [Option.or_none]
  rfl

theorem isFrame (h : r.WellFormed) : IsFrame EndsHead r.bytes :=
  h.headLines.isFrame (not_mixedEnd r)

end WellFormed
end RequestText

namespace HttpParser

/-- A stream of requests is read as the requests that were sent, however it is cut. -/
theorem requests_parse_exactly (maxHead : ℕ) (options : NormalizeConfig)
    (requests : List RequestText)
    (pieces : List (List UInt8)) (hwell : ∀ r ∈ requests, r.WellFormed)
    (hlength : ∀ r ∈ requests, r.bytes.length ≤ (new maxHead).maxHead)
    (hpieces : pieces.flatten = requests.flatMap RequestText.bytes) :
    (pushAll options (new maxHead) pieces).2.flatten = requests.map fun r => r.request options := by
  have hsplit : Split EndsHead ((new maxHead).buffer ++ pieces.flatten)
      (requests.map RequestText.bytes) [] := by
    refine ⟨?_, ?_, new_buffer_incomplete maxHead⟩
    · rw [hpieces, List.append_nil, List.flatMap_def]
      rfl
    · intro head hhead
      obtain ⟨r, hr, rfl⟩ := List.mem_map.1 hhead
      exact (hwell r hr).isFrame
  have hheads : ∀ head ∈ requests.map RequestText.bytes, head.length ≤ (new maxHead).maxHead := by
    intro head hhead
    obtain ⟨r, hr, rfl⟩ := List.mem_map.1 hhead
    exact hlength r hr
  rw [pushAll_requests options rfl (new_buffer_incomplete maxHead) hsplit hheads (Nat.zero_le _),
    List.filterMap_map, ← List.filterMap_eq_map]
  refine List.filterMap_congr fun r hr => ?_
  exact (hwell r hr).parseHead_bytes options

/-- `GET /a?b H` with the headers `hOst:y` and ` Host: x`, all lines ended by CR LF. -/
def hostRequest : RequestText where
  method := [0x47, 0x45, 0x54]
  target := [0x2f, 0x61, 0x3f, 0x62]
  version := [0x48]
  headers := [[0x68, 0x4f, 0x73, 0x74, 0x3a, 0x79],
    [0x20, 0x48, 0x6f, 0x73, 0x74, 0x3a, 0x20, 0x78]]
  crlf := true

/-- `GET / H`, its lines ended by LF. -/
def plainRequest : RequestText := ⟨[0x47, 0x45, 0x54], [0x2f], [0x48], [], false⟩

theorem wellFormed_samples : ∀ r ∈ [hostRequest, plainRequest], r.WellFormed := by
  intro r hr
  rcases List.mem_pair.1 hr with rfl | rfl
  · exact ⟨by decide, List.all_eq_true.1 rfl, by decide, Http.eq_false_of_any rfl, by decide,
      Http.eq_false_of_any rfl, by decide, by decide, by decide⟩
  · exact ⟨by decide, List.all_eq_true.1 rfl, by decide, Http.eq_false_of_any rfl, by decide,
      Http.eq_false_of_any rfl, by decide, by decide, by decide⟩

/-- Two requests, cut inside the first terminator. -/
theorem requests_parse_exactly_two :
    let bytes := [hostRequest, plainRequest].flatMap RequestText.bytes
    (pushAll {} (new 64) [bytes.take 30, bytes.drop 30]).2.flatten.map HttpRequest.host =
      [some [0x78], none] := by
  intro bytes
  have hparsed := requests_parse_exactly 64 {} [hostRequest, plainRequest]
    [bytes.take 30, bytes.drop 30] wellFormed_samples (by decide +kernel)
    (by rw [List.flatten_cons, List.flatten_singleton, List.take_append_drop])
  rw [hparsed]
  decide +kernel

end HttpParser
end CyberSentinel
