import CyberSentinel.OptionText

/-!
# The text of an option block

How the text between the parentheses of a rule falls into options, and an option into its name and
its value. A semicolon ends an option and a colon its name unless it stands in quotes or behind a
backslash; a value keeps its backslashes until its quotes are taken off.
-/

namespace CyberSentinel.Rules

open Texts
open Evtx (trim)

inductive Reason
  /-- `empty address` or `empty port` -/
  | empty
  /-- `address list is missing its closing ']'`, or `port list` -/
  | openList
  /-- `empty address list` or `empty port list` -/
  | emptyList
  /-- `{text:?} is not an IP address` -/
  | notAnAddress (text : Text)
  /-- `{text:?} is not a prefix length` -/
  | notAPrefixLength (text : Text)
  /-- `prefix length {bits} exceeds {max} for this address family` -/
  | prefixTooLong (bits max : ℕ)
  /-- `'$' must be followed by a variable name` -/
  | noVarName
  /-- `variable name {text:?} must be alphanumeric or underscore` -/
  | varName (text : Text)
  /-- `range start is greater than range end` -/
  | reversedRange
  /-- `not a port number in 0..=65535`, of the field or of the text -/
  | notAPort (text : Option Text)
  /-- `{text:?} is not a number` -/
  | notANumber (text : Text)
  /-- `priority must be between 1 and 255` -/
  | priority
  /-- `msg must not be empty` -/
  | emptyMsg
  /-- `a sticky-buffer keyword takes no value` -/
  | stickyValue
  /-- `content must not be empty` -/
  | emptyContent
  /-- `a hex section ended mid-byte` -/
  | midByte
  /-- `non-ASCII character {c:?} in a pattern; use a |hex| section` -/
  | nonAscii (c : Char)
  /-- `{c:?} is not a hex digit` -/
  | notHex (c : Char)
  /-- `unterminated hex section` -/
  | unterminatedHex
  /-- `no preceding content for this modifier` -/
  | noContent
  /-- `{what} must be a number` -/
  | mustBeANumber (what : String)
  /-- `a pcre must be delimited with /` -/
  | undelimited
  /-- `empty expression` -/
  | emptyExpression
  /-- `unknown pcre flag {c:?}` -/
  | pcreFlag (c : Char)
  /-- `unknown flow option {text:?}` -/
  | flowOption (text : Text)
  /-- `flowbits:{command} needs a bit name` -/
  | bitName (command : Text)
  /-- `unknown flowbits command {text:?}` -/
  | flowBitsCommand (text : Text)
  /-- `byte_test needs at least bytes, operator, value, offset` -/
  | incompleteByteTest
  /-- `byte_test can read between 1 and 8 bytes` -/
  | byteTestWidth
  /-- `unknown operator {text:?}` -/
  | operator (text : Text)
  /-- `unsupported byte_test modifier {text:?}` -/
  | byteTestModifier (text : Text)
  | byteJump (error : ByteJumpError)
  /-- `dsize bounds must be numbers` -/
  | dsizeBounds
  /-- `dsize needs a number` -/
  | dsizeNumber
  /-- `unknown condition {text:?}` -/
  | condition (text : Text)
  | threshold (error : ThresholdError)
  /-- `needs at least one value` -/
  | noValue
  deriving DecidableEq, Repr

inductive ParseError
  | empty
  | missingOptionBlock
  | unterminatedOptionBlock
  | unterminatedString
  | headerFieldCount (found : ℕ)
  | unknownAction (text : Text)
  | preventionAction (text : Text)
  | unknownProtocol (text : Text)
  | invalidDirection (text : Text)
  | invalidAddress (value : Text) (reason : Reason)
  | invalidPort (value : Text) (reason : Reason)
  | missingOptionValue (option : Text)
  | invalidOptionValue (option : Text) (reason : Reason)
  | unknownOption (option : Text)
  | duplicateOption (option : Text)
  | missingSid
  | missingMsg
  deriving DecidableEq, Repr

/-- One `name` or `name:value`, with the value unquoted. -/
structure RawOption where
  name : Text
  value : Option Text
  /-- The value was written with a `!` in front. -/
  negated : Bool
  deriving DecidableEq, Repr

/-- Read on in an option of which `current` has been read. An escape is kept as it is. -/
def splitOptionsFrom (current : Text) (inQuotes : Bool) : Text → Except ParseError (List Text)
  | [] =>
    if inQuotes then .error .unterminatedString
    -- a last option may do without its semicolon
    else .ok (if trim current = [] then [] else [current])
  | c :: rest =>
    if c = '\\' then
      match rest with
      | [] => .error .unterminatedString
      | escaped :: rest => splitOptionsFrom (current ++ ['\\', escaped]) inQuotes rest
    else if c = '"' then splitOptionsFrom (current ++ ['"']) (!inQuotes) rest
    else if c = ';' ∧ inQuotes = false then
      (splitOptionsFrom [] false rest).map (current :: ·)
    else splitOptionsFrom (current ++ [c]) inQuotes rest

section SplitOptions

variable (current : Text) (q : Bool) (rest : Text)

theorem splitOptionsFrom_escape (c : Char) :
    splitOptionsFrom current q ('\\' :: c :: rest) =
      splitOptionsFrom (current ++ ['\\', c]) q rest := by
  rw [splitOptionsFrom.eq_def]
  simp

theorem splitOptionsFrom_quote :
    splitOptionsFrom current q ('"' :: rest) = splitOptionsFrom (current ++ ['"']) (!q) rest := by
  rw [splitOptionsFrom.eq_def]
  simp

theorem splitOptionsFrom_end :
    splitOptionsFrom current false (';' :: rest) =
      (splitOptionsFrom [] false rest).map (current :: ·) := by
  rw [splitOptionsFrom.eq_def]
  simp

variable {q}

theorem splitOptionsFrom_cons {c : Char} (hslash : c ≠ '\\') (hquote : c ≠ '"')
    (hend : ¬(c = ';' ∧ q = false)) :
    splitOptionsFrom current q (c :: rest) = splitOptionsFrom (current ++ [c]) q rest := by
  rw [splitOptionsFrom.eq_def]
  simp only [if_neg hslash, if_neg hquote, if_neg hend]

end SplitOptions

def splitOptionList (body : Text) : Except ParseError (List Text) := splitOptionsFrom [] false body

/-- What stands in front of the first colon outside of quotes, and what behind it. -/
def splitNameValueFrom (inQuotes escaped : Bool) : Text → Option (Text × Text)
  | [] => none
  | c :: rest =>
    if escaped then (splitNameValueFrom inQuotes false rest).map (Prod.map (c :: ·) id)
    else if c = '\\' then (splitNameValueFrom inQuotes true rest).map (Prod.map (c :: ·) id)
    else if c = '"' then (splitNameValueFrom (!inQuotes) false rest).map (Prod.map (c :: ·) id)
    else if c = ':' ∧ inQuotes = false then some ([], rest)
    else (splitNameValueFrom inQuotes false rest).map (Prod.map (c :: ·) id)

def splitNameValue (chunk : Text) : Option (Text × Text) := splitNameValueFrom false false chunk

/-- Resolve the escapes of the characters that the format uses; any other backslash stays. -/
def unescapeChars : Text → Except ParseError Text
  | [] => .ok []
  | c :: rest =>
    if c ≠ '\\' then (unescapeChars rest).map (c :: ·)
    else
      match rest with
      | [] => .error .unterminatedString
      | other :: rest =>
        if other = '"' ∨ other = ';' ∨ other = '\\' then (unescapeChars rest).map (other :: ·)
        else (unescapeChars rest).map (fun out => '\\' :: other :: out)

section UnescapeChars

variable {c : Char} (rest : Text)

theorem unescapeChars_cons (hc : c ≠ '\\') :
    unescapeChars (c :: rest) = (unescapeChars rest).map (c :: ·) := by
  rw [unescapeChars.eq_def]
  simp only [ne_eq, hc, not_false_eq_true, if_true]

theorem unescapeChars_escape (hc : c = '"' ∨ c = ';' ∨ c = '\\') :
    unescapeChars ('\\' :: c :: rest) = (unescapeChars rest).map (c :: ·) := by
  rw [unescapeChars.eq_def]
  simp only [ne_eq, not_true_eq_false, if_false, if_pos hc]

theorem unescapeChars_backslash (hc : ¬(c = '"' ∨ c = ';' ∨ c = '\\')) :
    unescapeChars ('\\' :: c :: rest) = (unescapeChars rest).map fun out => '\\' :: c :: out := by
  rw [unescapeChars.eq_def]
  simp only [ne_eq, not_true_eq_false, if_false, if_neg hc]

end UnescapeChars

def unescape (value : Text) : Except ParseError Text :=
  match value with
  | '"' :: rest =>
    if rest.getLast? = some '"' then unescapeChars rest.dropLast else .error .unterminatedString
  | _ => unescapeChars value

theorem unescape_of_ne_quote {value : Text} (h : value.head? ≠ some '"') :
    unescape value = unescapeChars value := by
  cases value with
  | nil => rfl
  | cons c rest =>
    rw [unescape]
    rintro rest' hrest
    rw [(List.cons.inj hrest).1] at h
    exact h rfl

/-- A leading `!` and the blanks behind it. -/
def splitBang (value : Text) : Bool × Text :=
  match value with
  | '!' :: rest => (true, trim rest)
  | _ => (false, value)

theorem splitBang_of_ne {value : Text} (h : ∀ c ∈ value.head?, c ≠ '!') :
    splitBang value = (false, value) := by
  cases value with
  | nil => rfl
  | cons c rest =>
    have hc := h c rfl
    simp [splitBang, hc]

def parseOption (chunk : Text) : Except ParseError (Option RawOption) :=
  let chunk := trim chunk
  if chunk = [] then .ok none
  else
    match splitNameValue chunk with
    | none => .ok (some ⟨(trim chunk).map Char.toLower, none, false⟩)
    | some (name, value) =>
      let (negated, value) := splitBang (trim value)
      (unescape value).map fun value => some ⟨(trim name).map Char.toLower, some value, negated⟩

def parseOptions (body : Text) : Except ParseError (List RawOption) := do
  let chunks ← splitOptionList body
  let options ← chunks.mapM parseOption
  return options.reduceOption

example : parseOptions "MSG:\"a;\\\"b\"; content: ! \"x\" ;nocase".toList = .ok
    [⟨"msg".toList, some "a;\"b".toList, false⟩, ⟨"content".toList, some "x".toList, true⟩,
      ⟨"nocase".toList, none, false⟩] := by decide +kernel

end CyberSentinel.Rules
