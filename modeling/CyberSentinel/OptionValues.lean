import CyberSentinel.RuleText

/-!
# The values of options

How the rule parser reads the value of each option that asks for a match: patterns with their hex
sections, expressions between slashes, words between commas, comparisons and ranges.
-/

namespace CyberSentinel.Rules

open Texts Numerals
open Evtx (trim parseU32)

def isAsciiWhitespace (c : Char) : Bool := c ∈ [' ', '\t', '\n', '\x0c', '\r']

/-- Read on in a pattern: within a hex section or outside of one, with the first digit of a byte in
hand or without. -/
def readPattern (inHex : Bool) (nibble : Option ℕ) : Text → Except Reason (List UInt8)
  | [] => if inHex then .error .unterminatedHex else .ok []
  | c :: rest =>
    if c = '|' then
      if inHex && nibble.isSome then .error .midByte else readPattern (!inHex) nibble rest
    else if inHex = false then
      if c.toNat < 0x80 then (readPattern inHex nibble rest).map (UInt8.ofNat c.toNat :: ·)
      else .error (.nonAscii c)
    else if isAsciiWhitespace c then readPattern inHex nibble rest
    else if isDigitIn 16 c then
      match nibble with
      | none => readPattern inHex (some (digitValue c)) rest
      | some high =>
        (readPattern inHex none rest).map (UInt8.ofNat (high * 16 + digitValue c) :: ·)
    else .error (.notHex c)

section ReadPattern

variable {c : Char} (nibble : Option ℕ) (rest : Text)

theorem bar_not_blank : isAsciiWhitespace '|' = false := by decide

theorem bar_not_digit : isDigitIn 16 '|' = false := by decide

theorem not_blank_of_digit (hc : isDigitIn 16 c = true) : isAsciiWhitespace c = false := by
  refine Bool.eq_false_iff.2 fun hblank => ?_
  simp only [isAsciiWhitespace, List.mem_cons, List.not_mem_nil, or_false,
    decide_eq_true_eq] at hblank
  rcases hblank with rfl | rfl | rfl | rfl | rfl <;> exact absurd hc (by decide)

theorem readPattern_open :
    readPattern false nibble ('|' :: rest) = readPattern true nibble rest := by
  simp [readPattern]

theorem readPattern_close : readPattern true none ('|' :: rest) = readPattern false none rest := by
  simp [readPattern]

theorem readPattern_literal (hbar : c ≠ '|') (hc : c.toNat < 0x80) :
    readPattern false nibble (c :: rest) =
      (readPattern false nibble rest).map (UInt8.ofNat c.toNat :: ·) := by
  rw [readPattern.eq_def]
  simp only [if_neg hbar, if_pos hc, if_true]

theorem readPattern_blank (hc : isAsciiWhitespace c = true) :
    readPattern true nibble (c :: rest) = readPattern true nibble rest := by
  have hbar : c ≠ '|' := by
    rintro rfl
    exact absurd (hc.symm.trans bar_not_blank) (by decide)
  rw [readPattern.eq_def]
  simp only [if_neg hbar, hc, Bool.true_eq_false, if_false, if_true]

theorem readPattern_digit (hc : isDigitIn 16 c = true) :
    readPattern true nibble (c :: rest) =
      match nibble with
      | none => readPattern true (some (digitValue c)) rest
      | some high => (readPattern true none rest).map (UInt8.ofNat
          (high * 16 + digitValue c) :: ·) := by
  have hbar : c ≠ '|' := by
    rintro rfl
    exact absurd (hc.symm.trans bar_not_digit) (by decide)
  rw [readPattern.eq_def]
  simp only [if_neg hbar, hc, not_blank_of_digit hc, Bool.true_eq_false, Bool.false_eq_true,
    if_false, if_true]

theorem readPattern_notHex (hbar : c ≠ '|') (hblank : isAsciiWhitespace c = false)
    (hc : isDigitIn 16 c = false) : readPattern true nibble (c :: rest) = .error (.notHex c) := by
  rw [readPattern.eq_def]
  simp only [if_neg hbar, hc, hblank, Bool.true_eq_false, Bool.false_eq_true, if_false]

end ReadPattern

def parseContentPattern (text : Text) : Except Reason (List UInt8) := readPattern false none text

example : (parseContentPattern "GET|20 2f|H|0 D0a|".toList).toOption =
    some [0x47, 0x45, 0x54, 0x20, 0x2f, 0x48, 0x0d, 0x0a] := by decide +kernel

def pcreFlag (pcre : PcreMatch) (flag : Char) : Except Reason PcreMatch :=
  if flag = 'i' then .ok { pcre with caseInsensitive := true }
  else if flag = 's' then .ok { pcre with dotMatchesNewline := true }
  else if flag = 'm' then .ok { pcre with multiLine := true }
  else if flag = 'R' then .ok { pcre with relative := true }
  else .error (.pcreFlag flag)

/-- Read `/expression/flags`. The last slash ends the expression. -/
def parsePcre (text : Text) : Except Reason PcreMatch :=
  match trim text with
  | '/' :: body =>
    match rsplitOnce '/' body with
    | none => .error .undelimited
    | some (source, flags) =>
      if source = [] then .error .emptyExpression
      else flags.foldlM pcreFlag { source := String.ofList source }
  | _ => .error .undelimited

def flowPart (flow : FlowMatch) (part : Text) : Except Reason FlowMatch :=
  let part := trim part
  if part = "established".toList then .ok { flow with established := some true }
  else if part ∈ ["not_established", "stateless"].map String.toList then
    .ok { flow with established := some false }
  else if part ∈ ["to_server", "from_client"].map String.toList then
    .ok { flow with toServer := some true }
  else if part ∈ ["to_client", "from_server"].map String.toList then
    .ok { flow with toServer := some false }
  else .error (.flowOption part)

def parseFlow (text : Text) : Except Reason FlowMatch := (text.splitOn ',').foldlM flowPart {}

def flowBitsCommands : List (Text × (String → FlowBitsOp)) :=
  [("set".toList, .set), ("unset".toList, .unset), ("toggle".toList, .toggle),
    ("isset".toList, .isSet),
    ("isnotset".toList, .isNotSet)]

def parseFlowBits (text : Text) : Except Reason FlowBitsOp :=
  let (command, name) := (splitOnce ',' text).getD (text, [])
  let command := trim command
  let name := trim name
  match flowBitsCommands.lookup command with
  | some op => if name = [] then .error (.bitName command) else .ok (op (String.ofList name))
  | none => if command = "noalert".toList then .ok .noAlert else .error (.flowBitsCommand command)

def numericOps : List (Text × NumericOp) :=
  [("=".toList, .equal), ("==".toList, .equal), ("!=".toList, .notEqual), ("!".toList, .notEqual),
    ("<".toList, .less), ("<=".toList, .lessOrEqual), (">".toList, .greater),
    (">=".toList, .greaterOrEqual), ("&".toList, .bitAnd), ("^".toList, .bitXor)]

def NumericOp.parse (text : Text) : Option NumericOp := numericOps.lookup (trim text)

def byteTestModifier (test : ByteTest) (text : Text) : Except Reason ByteTest :=
  if text = "relative".toList then .ok { test with relative := true }
  else if text = "big".toList then .ok { test with endian := .big }
  else if text = "little".toList then .ok { test with endian := .little }
  else if text = [] then .ok test
  else .error (.byteTestModifier text)

def parseByteTest (text : Text) : Except Reason ByteTest :=
  match (text.splitOn ',').map trim with
  | width :: operator :: value :: offset :: modifiers => do
    let some bytes := parseNumber (2 ^ 8) width | .error (.mustBeANumber "bytes")
    if bytes < 1 ∨ 8 < bytes then .error .byteTestWidth
    let (negated, operator) := splitBang operator
    let some op := NumericOp.parse operator | .error (.operator operator)
    let some value := parseNumber (2 ^ 64) value | .error (.mustBeANumber "value")
    let some offset := parseSigned (2 ^ 31) offset | .error (.mustBeANumber "offset")
    modifiers.foldlM byteTestModifier
      { bytes := UInt8.ofNat bytes, op, value := UInt64.ofNat value, offset, relative := false,
        endian := .big, negated }
  | _ => .error .incompleteByteTest

/-- The parts of a text around the first `<>`. -/
def splitRange (text : Text) : Option (Text × Text) :=
  (Substrings.find "<>".toList text).map fun i => (text.take i, text.drop (i + 2))

def sizeOp (operator : Text) : Option NumericOp :=
  if trim operator = [] then some .equal else NumericOp.parse operator

def parseDsize (text : Text) : Except Reason DsizeMatch :=
  let text := trim text
  match splitRange text with
  | some (low, high) =>
    match parseU32 (trim low), parseU32 (trim high) with
    | some value, some upper => .ok { op := .greater, value, upper := some upper }
    | _, _ => .error .dsizeBounds
  | none =>
    -- the operator is what stands in front of the first digit
    let operator := text.takeWhile (!·.isDigit)
    if text.all (!·.isDigit) then .error .dsizeNumber
    else
      match sizeOp operator with
      | none => .error (.operator operator)
      | some op =>
        match parseU32 (trim (text.dropWhile (!·.isDigit))) with
        | none => .error (.mustBeANumber "dsize")
        | some value => .ok { op, value }

def normalizationConditions : List (Text × NormalizationCondition) :=
  [("percent_encoded".toList, .percentEncoded), ("double_encoded".toList, .doubleEncoded),
    ("invalid_escape".toList, .invalidEscape), ("null_byte".toList, .nullByte),
    ("traversal".toList, .traversal), ("above_root".toList, .aboveRoot),
    ("self_reference".toList, .selfReference), ("empty_segment".toList, .emptySegment),
    ("backslash".toList, .backslash), ("decode_limit_reached".toList, .decodeLimitReached)]

def NormalizationCondition.parse (text : Text) : Option NormalizationCondition :=
  normalizationConditions.lookup (trim text)

def parseHostValues (text : Text) : Except Reason (List String) :=
  let values := ((text.splitOn ',').map trim).filter (!·.isEmpty)
  if values = [] then .error .noValue else .ok (values.map String.ofList)

def metadataEntry (text : Text) : MetadataEntry :=
  { key := String.ofList (text.takeWhile (!isWhitespace ·))
    value := String.ofList (trim (text.dropWhile (!isWhitespace ·))) }

def parseMetadata (text : Text) : List MetadataEntry :=
  (((text.splitOn ',').map trim).filter (!·.isEmpty)).map metadataEntry

example : (parseDsize "!=5".toList).toOption = some { op := .notEqual, value := 5 } := by
  decide +kernel

end CyberSentinel.Rules
