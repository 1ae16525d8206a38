import CyberSentinel.Http
import CyberSentinel.Vars
import Mathlib.Data.Finset.Basic

/-!
# Evaluating a rule

A compiled rule is matched against one unit of data: its header against the tuple, then its options
in written order with one cursor per buffer. Whatever cannot be answered is no match. Side effects
on flowbits are collected and only take hold once the whole rule has matched.

The regular expressions are those of the `regex` crate, given here by a matcher type, by what
building an expression returns and by the end of the leftmost match.
-/

namespace CyberSentinel.Detect

open Rules Bytes

structure CompileLimits where
  regexSizeLimit : ℕ := 2 ^ 20
  regexDfaSizeLimit : ℕ := 2 ^ 20
  deriving DecidableEq, Repr

/-- The regular expression library: `build` reads the source and the three flags of the option. -/
structure Regex where
  Matcher : Type
  build : PcreMatch → CompileLimits → Except String Matcher
  /-- The end of the leftmost match. -/
  find : Matcher → List UInt8 → Option ℕ

inductive CompiledOption (R : Regex)
  | content (c : ContentMatch)
  | pcre (matcher : R.Matcher) (buffer : Buffer) (negated relative : Bool)
  | flow (f : FlowMatch)
  | flowBits (op : FlowBitsOp)
  | byteTest (t : ByteTest)
  | byteJump (j : ByteJump)
  | dsize (d : DsizeMatch)
  | normalized (c : NormalizationCondition)

structure CompiledRule (R : Regex) where
  sid : UInt32
  rev : UInt32
  msg : String
  classtype : Option String
  severity : UInt8
  blocks : Bool
  /-- Values grouped by key, the keys in order. -/
  metadata : List (String × List String)
  header : CompiledHeader
  options : List (CompiledOption R)
  threshold : Option Threshold
  noAlert : Bool
  needsHttp : Bool
  origin : String

structure Buffers where
  payload : List UInt8 := []
  httpUri : Option (List UInt8) := none
  httpHeader : Option (List UInt8) := none
  httpUserAgent : Option (List UInt8) := none
  httpMethod : Option (List UInt8) := none
  httpHost : Option (List UInt8) := none
  normalization : NormalizationFlags := {}
  deriving DecidableEq, Repr

def Buffers.get (b : Buffers) : Buffer → Option (List UInt8)
  | .payload => some b.payload
  | .httpUri => b.httpUri
  | .httpHeader => b.httpHeader
  | .httpUserAgent => b.httpUserAgent
  | .httpMethod => b.httpMethod
  | .httpHost => b.httpHost

structure MatchInput where
  tuple : NetTuple
  established : Bool
  toServer : Bool
  buffers : Buffers
  deriving DecidableEq, Repr

structure FlowBits where
  bits : Finset String := ∅
  deriving DecidableEq

namespace FlowBits

def isSet (b : FlowBits) (name : String) : Bool := name ∈ b.bits

/-- Apply a side effect; a flow holds at most `limit` bits. -/
def apply (b : FlowBits) (op : FlowBitsOp) (limit : ℕ) : FlowBits :=
  match op with
  | .set name =>
    if b.bits.card < limit ∨ name ∈ b.bits then { b with bits := insert name b.bits } else b
  | .unset name => { b with bits := b.bits.erase name }
  | .toggle name =>
    if name ∈ b.bits then { b with bits := b.bits.erase name }
    else if b.bits.card < limit then { b with bits := insert name b.bits }
    else b
  | .isSet _ | .isNotSet _ | .noAlert => b

end FlowBits

/-- Byte comparison, by ASCII case folding when `nocase`. -/
def sameByte (nocase : Bool) (a b : UInt8) : Bool :=
  if nocase then eqIgnoreAsciiCase a b else a == b

/-- The first position of `needle` in `haystack`. -/
def find (haystack needle : List UInt8) (nocase : Bool) : Option ℕ :=
  if needle.isEmpty || haystack.length < needle.length then none
  else if nocase then
    Search.windowPosition haystack needle.length
      (fun window => (window.zip needle).all (fun p => eqIgnoreAsciiCase p.1 p.2))
  else Search.windowPosition haystack needle.length (fun window => window == needle)

/-- Search for a content under its modifiers. The result is the cursor afterwards: past the match,
or where it was for a negated content that is absent. -/
def matchContent (content : ContentMatch) (haystack : List UInt8) (cursor : ℕ) : Option ℕ :=
  let length := haystack.length
  let base := if content.isRelative then cursor else 0
  let start := (content.distance.getD 0 +
    (if content.isRelative then (base : ℤ) else ((content.offset.getD 0 : ℕ) : ℤ))).toNat
  let stop := content.within.elim length (fun within => min length (base + within))
  let stop := content.depth.elim stop (fun depth => min stop (start + depth))
  let start := min start length
  let stop := max (min stop length) start
  match find (slice haystack start stop) content.pattern content.nocase, content.negated with
  | some position, false => some (start + position + content.pattern.length)
  | none, true => some cursor
  | _, _ => none

/-- Read `bytes` bytes at `position`. -/
def readNumber (haystack : List UInt8) (position : ℕ) (bytes : UInt8) (endian : Endian) :
    Option UInt64 :=
  if position + bytes.toNat ≤ haystack.length then
    let field := slice haystack position (position + bytes.toNat)
    let ordered := match endian with
      | .big => field
      | .little => field.reverse
    some (ordered.foldl (fun value byte => (value <<< 8) ||| byte.toUInt64) 0)
  else none

def resolvePosition (base : ℕ) (offset : ℤ) (relative : Bool) : Option ℕ :=
  let position := (if relative then (base : ℤ) else 0) + offset
  if 0 ≤ position then some position.toNat else none

def matchByteTest (test : ByteTest) (haystack : List UInt8) (cursor : ℕ) : Bool :=
  ((resolvePosition cursor test.offset test.relative).bind
    (fun position => readNumber haystack position test.bytes test.endian)).any
    (fun value => test.op.apply value test.value != test.negated)

/-- The position a jump lands on: products and sums that leave 64 bits fail, the addition of the
post-offset is done on signed 64-bit words. -/
def jumpTarget (jump : ByteJump) (position : ℕ) (value : UInt64) : Option ℕ :=
  let scaled := value.toNat * jump.multiplier.toNat
  let destination := scaled + (position + jump.bytes.toNat)
  if scaled < 2 ^ 64 ∧ destination < 2 ^ 64 then
    let withPost := Int.bmod (Int.bmod destination (2 ^ 64) + jump.postOffset) (2 ^ 64)
    if 0 ≤ withPost then some withPost.toNat else none
  else none

/-- The cursor after a jump; a jump that lands outside the buffer is a failed match. -/
def applyByteJump (jump : ByteJump) (haystack : List UInt8) (cursor : ℕ) : Option ℕ :=
  (resolvePosition cursor jump.offset jump.relative).bind fun position =>
    (readNumber haystack position jump.bytes jump.endian).bind fun value =>
      (jumpTarget jump position value).filter (fun destination => destination ≤ haystack.length)

def matchFlow (flow : FlowMatch) (input : MatchInput) : Bool :=
  flow.established.all (fun established => established == input.established) &&
    flow.toServer.all (fun toServer => toServer == input.toServer)

def normalizationMatches (condition : NormalizationCondition) (flags : NormalizationFlags) : Bool :=
  match condition with
  | .percentEncoded => flags.percentEncoded
  | .doubleEncoded => flags.doubleEncoded
  | .invalidEscape => flags.invalidEscape
  | .nullByte => flags.nullByte
  | .traversal => flags.traversal
  | .aboveRoot => flags.aboveRoot
  | .selfReference => flags.selfReference
  | .emptySegment => flags.emptySegment
  | .backslash => flags.backslash
  | .decodeLimitReached => flags.decodeLimitReached

structure Progress where
  cursors : Buffer → ℕ := fun _ => 0
  current : Buffer := .payload
  sideEffects : List FlowBitsOp := []

def Progress.moveTo (p : Progress) (buffer : Buffer) (cursor : ℕ) : Progress :=
  { p with cursors := Function.update p.cursors buffer cursor, current := buffer }

variable {R : Regex}

/-- The cursor after a regular expression. A relative one sees only what follows the cursor. -/
def matchPcre (matcher : R.Matcher) (negated relative : Bool) (haystack : List UInt8) (cursor : ℕ) :
    Option ℕ :=
  let start := if relative then min cursor haystack.length else 0
  match R.find matcher (haystack.drop start), negated with
  | some stop, false => some (start + stop)
  | none, true => some cursor
  | _, _ => none

/-- One option. `none` ends the evaluation without a match. -/
def evalOption (input : MatchInput) (bits : FlowBits) (p : Progress) :
    CompiledOption R → Option Progress
  | .content content =>
    (input.buffers.get content.buffer).bind fun haystack =>
      (matchContent content haystack (p.cursors content.buffer)).map (p.moveTo content.buffer)
  | .pcre matcher buffer negated relative =>
    (input.buffers.get buffer).bind fun haystack =>
      (matchPcre matcher negated relative haystack (p.cursors buffer)).map (p.moveTo buffer)
  | .flow flow => if matchFlow flow input then some p else none
  | .flowBits (.isSet name) => if bits.isSet name then some p else none
  | .flowBits (.isNotSet name) => if bits.isSet name then none else some p
  | .flowBits op => some { p with sideEffects := p.sideEffects ++ [op] }
  | .byteTest test =>
    (input.buffers.get p.current).bind fun haystack =>
      if matchByteTest test haystack (p.cursors p.current) then some p else none
  | .byteJump jump =>
    (input.buffers.get p.current).bind fun haystack =>
      (applyByteJump jump haystack (p.cursors p.current)).map (p.moveTo p.current)
  | .dsize dsize =>
    (input.buffers.get p.current).bind fun haystack =>
      if dsize.matches haystack.length then some p else none
  | .normalized condition =>
    if normalizationMatches condition input.buffers.normalization then some p else none

structure MatchOutcome where
  sideEffects : List FlowBitsOp
  deriving DecidableEq, Repr

def evaluate (rule : CompiledRule R) (input : MatchInput) (bits : FlowBits) : Option MatchOutcome :=
  if rule.header.matches input.tuple then
    (rule.options.foldlM (evalOption input bits) {}).map (fun p => ⟨p.sideEffects⟩)
  else none

theorem find_of_short {haystack needle : List UInt8} (h : haystack.length < needle.length)
    (nocase : Bool) : find haystack needle nocase = none := by
  rw [find, decide_eq_true h, Bool.or_true, if_pos rfl]

/-- The search goes through the windows, which it compares byte by byte. -/
theorem find_windows {haystack needle : List UInt8} (hne : needle ≠ [])
    (hle : needle.length ≤ haystack.length) (nocase : Bool) :
    ∃ test, find haystack needle nocase = Search.windowPosition haystack needle.length test ∧
      ∀ i, i + needle.length ≤ haystack.length →
        (test (slice haystack i (i + needle.length)) = true ↔
          Search.OccursAt (sameByte nocase) needle haystack i) := by
  have hcondition : (needle.isEmpty || decide (haystack.length < needle.length)) = false := by
    rw [List.isEmpty_eq_false_iff.2 hne, Bool.false_or, decide_eq_false_iff_not]
    omega
  rw [find, hcondition, if_neg Bool.false_ne_true]
  cases nocase with
  | true => exact ⟨_, if_pos rfl, fun i hi => Search.all_zip_slice_iff hi⟩
  | false =>
    refine ⟨_, if_neg Bool.false_ne_true, fun i hi => ?_⟩
    have hlength : (slice haystack i (i + needle.length)).length = needle.length := by
      rw [length_slice _ hi]
      omega
    rw [← Search.all_zip_slice_iff hi]
    simp only [sameByte, Bool.false_eq_true, if_false, beq_iff_eq]
    rw [← List.forall₂_eq_eq_eq, List.forall₂_iff_zip, List.all_eq_true]
    simp [hlength]

theorem find_cases (haystack : List UInt8) {needle : List UInt8} (hne : needle ≠ [])
    (nocase : Bool) :
    (find haystack needle nocase = none ∧
        ∀ i, ¬ Search.OccursAt (sameByte nocase) needle haystack i) ∨
      ∃ i, find haystack needle nocase = some i ∧
        Search.OccursAt (sameByte nocase) needle haystack i ∧
        ∀ j, Search.OccursAt (sameByte nocase) needle haystack j → i ≤ j := by
  by_cases hlen : haystack.length < needle.length
  · refine Or.inl ⟨find_of_short hlen nocase, fun i hi => ?_⟩
    have hle := hi.le_length hne
    omega
  obtain ⟨test, hfind, htest⟩ := find_windows hne (not_lt.1 hlen) nocase
  rw [hfind]
  cases hposition : Search.windowPosition haystack needle.length test with
  | none =>
    refine Or.inl ⟨rfl, fun i hi => ?_⟩
    have hsome := Search.windowPosition_isSome (hi.le_length hne)
      ((htest i (hi.le_length hne)).2 hi)
    rw [hposition] at hsome
    exact absurd hsome Bool.false_ne_true
  | some i =>
    obtain ⟨hle, hwindow⟩ := Search.windowPosition_eq_some hposition
    refine Or.inr ⟨i, rfl, (htest i hle).1 hwindow, fun j hj => ?_⟩
    by_contra hlt
    have hfirst := Search.windowPosition_first hposition (not_le.1 hlt)
    rw [(htest j (hj.le_length hne)).2 hj] at hfirst
    exact absurd hfirst (Bool.false_ne_true ∘ Eq.symm)

theorem find_isSome_iff (haystack needle : List UInt8) (nocase : Bool) :
    (find haystack needle nocase).isSome = true ↔
      needle ≠ [] ∧ Search.Occurs (sameByte nocase) needle haystack := by
  by_cases hne : needle = []
  · simp [find, hne]
  obtain ⟨hnone, hnowhere⟩ | ⟨i, hsome, hoccurs, -⟩ := find_cases haystack hne nocase
  · rw [hnone]
    exact ⟨fun h => absurd h Bool.false_ne_true, fun h => absurd h.2.choose_spec (hnowhere _)⟩
  · rw [hsome]
    exact ⟨fun _ => ⟨hne, i, hoccurs⟩, fun _ => rfl⟩

theorem occurs_of_matchContent {content : ContentMatch} {haystack : List UInt8} {cursor after : ℕ}
    (hpositive : content.negated = false)
    (h : matchContent content haystack cursor = some after) :
    content.pattern ≠ [] ∧ Search.Occurs (sameByte content.nocase) content.pattern haystack := by
  simp only [matchContent, hpositive] at h
  split at h
  · next position hfind _ =>
    obtain ⟨hne, hoccurs⟩ := (find_isSome_iff _ _ _).1 (by rw [hfind]; rfl)
    exact ⟨hne, Search.occurs_of_slice hoccurs⟩
  · next hnegated => exact absurd hnegated (by simp)
  · exact absurd h (by simp)

theorem matchContent_isSome_iff {content : ContentMatch} (haystack : List UInt8) (cursor : ℕ)
    (hpositive : content.negated = false) (hoffset : content.offset = none)
    (hdepth : content.depth = none) (hdistance : content.distance = none)
    (hwithin : content.within = none) :
    (matchContent content haystack cursor).isSome = true ↔
      content.pattern ≠ [] ∧ Search.Occurs (sameByte content.nocase) content.pattern haystack := by
  have hrelative : content.isRelative = false := by
    simp [ContentMatch.isRelative, hdistance, hwithin]
  have hwhole : slice haystack 0 haystack.length = haystack := by simp [slice]
  have hmatch : matchContent content haystack cursor =
      (find haystack content.pattern content.nocase).map
        (fun position => position + content.pattern.length) := by
    simp only [matchContent, hrelative, hoffset, hdepth, hdistance, hwithin, hpositive]
    simp only [Bool.false_eq_true, if_false, Option.getD_none, Nat.cast_zero, add_zero,
      Int.toNat_zero, Option.elim_none, Nat.zero_min, Nat.min_self, Nat.max_zero, hwhole,
      Nat.zero_add]
    cases find haystack content.pattern content.nocase <;> rfl
  rw [hmatch, Option.isSome_map, find_isSome_iff]

/-- Every option of a rule that matches was passed in some progress of the walk. -/
theorem exists_evalOption_of_foldlM {input : MatchInput} {bits : FlowBits}
    {options : List (CompiledOption R)} {p q : Progress}
    (h : options.foldlM (evalOption input bits) p = some q) {o : CompiledOption R}
    (ho : o ∈ options) : ∃ p', (evalOption input bits p' o).isSome = true := by
  induction options generalizing p with
  | nil => exact absurd ho (by simp)
  | cons first rest ih =>
    rw [List.foldlM_cons] at h
    obtain ⟨next, hfirst, hrest⟩ := Option.bind_eq_some_iff.1 h
    rcases List.mem_cons.1 ho with heq | hmem
    · subst heq
      exact ⟨p, by rw [hfirst]; rfl⟩
    · exact ih hrest hmem

/-- A rule that matches has every positive content's pattern in the content's buffer. -/
theorem occurs_of_evaluate {rule : CompiledRule R} {input : MatchInput} {bits : FlowBits}
    (h : (evaluate rule input bits).isSome = true) {content : ContentMatch}
    (hmem : CompiledOption.content content ∈ rule.options) (hpositive : content.negated = false) :
    ∃ haystack, input.buffers.get content.buffer = some haystack ∧
      content.pattern ≠ [] ∧
      Search.Occurs (sameByte content.nocase) content.pattern haystack := by
  unfold evaluate at h
  split_ifs at h with hheader
  · rw [Option.isSome_map] at h
    obtain ⟨q, hq⟩ := Option.isSome_iff_exists.1 h
    obtain ⟨p, hp⟩ := exists_evalOption_of_foldlM hq hmem
    obtain ⟨next, hnext⟩ := Option.isSome_iff_exists.1 hp
    obtain ⟨haystack, hbuffer, hmatch⟩ := Option.bind_eq_some_iff.1 hnext
    obtain ⟨after, hafter, _⟩ := Option.map_eq_some_iff.1 hmatch
    exact ⟨haystack, hbuffer, occurs_of_matchContent hpositive hafter⟩
  · exact absurd h (by simp)

end CyberSentinel.Detect
