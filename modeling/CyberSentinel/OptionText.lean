import CyberSentinel.Evtx
import CyberSentinel.Rules

/-!
# Option values

How the rule parser reads the values of `byte_jump` and of `threshold`: words between commas, a
later one over an earlier one of its kind. A value that is not understood as a whole is an error,
and what is accepted keeps to the bounds that the engine counts on.
-/

namespace CyberSentinel.Rules

open Texts Numerals
open Evtx (trim parseU32)

inductive ByteJumpError
  /-- `byte_jump needs at least bytes and offset` -/
  | incomplete
  /-- `{field} must be a number` -/
  | notANumber (field : String)
  /-- `byte_jump can read between 1 and 8 bytes` -/
  | width
  /-- `unsupported byte_jump modifier {text:?}` -/
  | modifier (text : Text)
  deriving DecidableEq, Repr

/-- A modifier of more than one word. Words after the number are ignored. -/
def byteJumpNumber (jump : ByteJump) (text : Text) : List Text → Except ByteJumpError ByteJump
  | word :: number :: _ =>
    if word = "multiplier".toList then
      match parseNumber (2 ^ 32) number with
      | some multiplier => .ok { jump with multiplier := UInt32.ofNat multiplier }
      | none => .error (.notANumber "multiplier")
    else if word = "post_offset".toList then
      match parseSigned (2 ^ 31) number with
      | some postOffset => .ok { jump with postOffset }
      | none => .error (.notANumber "post_offset")
    else .error (.modifier text)
  | _ => .error (.modifier text)

def byteJumpModifier (jump : ByteJump) (text : Text) : Except ByteJumpError ByteJump :=
  if text = "relative".toList then .ok { jump with relative := true }
  else if text = "big".toList then .ok { jump with endian := .big }
  else if text = "little".toList then .ok { jump with endian := .little }
  else if text = [] then .ok jump
  else byteJumpNumber jump text (splitWhitespace text)

def parseByteJump (text : Text) : Except ByteJumpError ByteJump :=
  match (text.splitOn ',').map trim with
  | width :: offset :: modifiers =>
    match parseNumber (2 ^ 8) width with
    | none => .error (.notANumber "bytes")
    | some bytes =>
      if 1 ≤ bytes ∧ bytes ≤ 8 then
        match parseSigned (2 ^ 31) offset with
        | none => .error (.notANumber "offset")
        | some offset =>
          modifiers.foldlM byteJumpModifier
            { bytes := UInt8.ofNat bytes, offset, relative := false, multiplier := 1,
              endian := .big, postOffset := 0 }
      else .error .width
  | _ => .error .incomplete

/-- A jump reads a field that fits a word, and its offsets fit 32 bits. -/
structure ByteJump.InRange (jump : ByteJump) : Prop where
  width_pos : 1 ≤ jump.bytes.toNat
  width_le : jump.bytes.toNat ≤ 8
  offset : -2 ^ 31 ≤ jump.offset ∧ jump.offset < 2 ^ 31
  postOffset : -2 ^ 31 ≤ jump.postOffset ∧ jump.postOffset < 2 ^ 31

theorem byteJumpNumber_inRange {jump jump' : ByteJump} {text : Text} {words : List Text}
    (h : jump.InRange) (hnumber : byteJumpNumber jump text words = .ok jump') : jump'.InRange := by
  obtain ⟨hpos, hle, hoffset, hpost⟩ := h
  cases words with
  | nil => exact absurd hnumber (by simp [byteJumpNumber])
  | cons word rest =>
    cases rest with
    | nil => exact absurd hnumber (by simp [byteJumpNumber])
    | cons number rest =>
      rw [byteJumpNumber] at hnumber
      split_ifs at hnumber with hmultiplier hpostOffset
      · cases hparsed : parseNumber (2 ^ 32) number with
        | none =>
          rw [hparsed] at hnumber
          exact absurd hnumber (by simp)
        | some multiplier =>
          rw [hparsed] at hnumber
          rw [← Except.ok.inj hnumber]
          exact ⟨hpos, hle, hoffset, hpost⟩
      · cases hparsed : parseSigned (2 ^ 31) number with
        | none =>
          rw [hparsed] at hnumber
          exact absurd hnumber (by simp)
        | some postOffset =>
          rw [hparsed] at hnumber
          rw [← Except.ok.inj hnumber]
          exact ⟨hpos, hle, hoffset, parseSigned_bounds (by decide) hparsed⟩

theorem byteJumpModifier_inRange {jump jump' : ByteJump} {text : Text} (h : jump.InRange)
    (hmodifier : byteJumpModifier jump text = .ok jump') : jump'.InRange := by
  rw [byteJumpModifier] at hmodifier
  split_ifs at hmodifier with hrelative hbig hlittle hempty
  · exact Except.ok.inj hmodifier ▸ ⟨h.width_pos, h.width_le, h.offset, h.postOffset⟩
  · exact Except.ok.inj hmodifier ▸ ⟨h.width_pos, h.width_le, h.offset, h.postOffset⟩
  · exact Except.ok.inj hmodifier ▸ ⟨h.width_pos, h.width_le, h.offset, h.postOffset⟩
  · exact Except.ok.inj hmodifier ▸ h
  · exact byteJumpNumber_inRange h hmodifier

theorem byteJumpModifiers_inRange {jump jump' : ByteJump} {modifiers : List Text} (h : jump.InRange)
    (hmodifiers : modifiers.foldlM byteJumpModifier jump = .ok jump') : jump'.InRange := by
  induction modifiers generalizing jump with
  | nil => exact Except.ok.inj hmodifiers ▸ h
  | cons text rest ih =>
    rw [List.foldlM_cons] at hmodifiers
    cases hfirst : byteJumpModifier jump text with
    | error error =>
      rw [hfirst] at hmodifiers
      exact absurd hmodifiers (by simp [Bind.bind, Except.bind])
    | ok next =>
      rw [hfirst] at hmodifiers
      exact ih (byteJumpModifier_inRange h hfirst) hmodifiers

theorem parseByteJump_inRange {text : Text} {jump : ByteJump} (h : parseByteJump text = .ok jump) :
    jump.InRange := by
  rw [parseByteJump] at h
  cases hparts : (text.splitOn ',').map trim with
  | nil => simp [hparts] at h
  | cons width rest =>
    cases rest with
    | nil => simp [hparts] at h
    | cons offset modifiers =>
      rw [hparts] at h
      dsimp only at h
      cases hwidth : parseNumber (2 ^ 8) width with
      | none =>
        rw [hwidth] at h
        exact absurd h (by simp)
      | some bytes =>
        rw [hwidth] at h
        dsimp only at h
        split_ifs at h with hbytes
        cases hoffset : parseSigned (2 ^ 31) offset with
        | none =>
          rw [hoffset] at h
          exact absurd h (by simp)
        | some offset =>
          rw [hoffset] at h
          have hsame : (UInt8.ofNat bytes).toNat = bytes :=
            UInt8.toNat_ofNat_of_lt' (parseNumber_lt hwidth)
          refine byteJumpModifiers_inRange ⟨?_, ?_, parseSigned_bounds (by decide) hoffset, ?_⟩ h
          · rw [hsame]
            exact hbytes.1
          · rw [hsame]
            exact hbytes.2
          · exact ⟨show (-2 ^ 31 : ℤ) ≤ 0 by decide, show (0 : ℤ) < 2 ^ 31 by decide⟩

inductive ThresholdError
  /-- `unknown threshold type {text:?}` -/
  | type (text : Text)
  /-- `unknown threshold track {text:?}` -/
  | track (text : Text)
  /-- `{field} must be a number` -/
  | notANumber (field : String)
  /-- `unknown threshold field {text:?}` -/
  | field (text : Text)
  /-- `threshold needs a {what}` -/
  | missing (what : String)
  /-- `threshold count must be at least 1` -/
  | zeroCount
  deriving DecidableEq, Repr

structure ThresholdFields where
  kind : Option ThresholdKind := none
  track : Option Track := none
  count : Option UInt32 := none
  seconds : Option UInt32 := none
  deriving DecidableEq, Repr

def thresholdKind (text : Text) : Option ThresholdKind :=
  if text = "threshold".toList then some .threshold
  else if text = "limit".toList then some .limit
  else if text = "both".toList then some .both
  else none

def thresholdTrack (text : Text) : Option Track :=
  if text = "by_src".toList then some .bySource
  else if text = "by_dst".toList then some .byDestination
  else if text = "by_rule".toList then some .byRule
  else none

/-- The words of one field: its name and its value. Words after the value are ignored. -/
def thresholdField (fields : ThresholdFields) :
    List Text → Except ThresholdError ThresholdFields
  | [] => .ok fields
  | [name] => .error (.field name)
  | name :: value :: _ =>
    if name = "type".toList then
      (thresholdKind value).elim (.error (.type value)) fun kind =>
        .ok { fields with kind := some kind }
    else if name = "track".toList then
      (thresholdTrack value).elim (.error (.track value)) fun track =>
        .ok { fields with track := some track }
    else if name = "count".toList then
      (parseU32 value).elim (.error (.notANumber "count")) fun count =>
        .ok { fields with count := some count }
    else if name = "seconds".toList then
      (parseU32 value).elim (.error (.notANumber "seconds")) fun seconds =>
        .ok { fields with seconds := some seconds }
    else .error (.field name)

/-- The threshold of the fields. They are asked for in this order. -/
def ThresholdFields.finish (fields : ThresholdFields) : Except ThresholdError Threshold :=
  match fields.count with
  | none => .error (.missing "count")
  | some count =>
    if count = 0 then .error .zeroCount
    else match fields.kind with
      | none => .error (.missing "type")
      | some kind =>
        match fields.track with
        | none => .error (.missing "track")
        | some track =>
          match fields.seconds with
          | none => .error (.missing "seconds window")
          | some seconds => .ok { kind, track, count, seconds }

def parseThreshold (text : Text) : Except ThresholdError Threshold :=
  match (text.splitOn ',').foldlM (fun fields part => thresholdField fields (splitWhitespace part))
    {} with
  | .ok fields => fields.finish
  | .error error => .error error

theorem ThresholdFields.finish_count {fields : ThresholdFields} {threshold : Threshold}
    (h : fields.finish = .ok threshold) : threshold.count ≠ 0 := by
  obtain ⟨kind, track, count, seconds⟩ := fields
  rw [ThresholdFields.finish] at h
  cases count with
  | none => exact absurd h (by simp)
  | some count =>
    dsimp only at h
    split_ifs at h with hzero
    cases kind with
    | none => exact absurd h (by simp)
    | some kind =>
      cases track with
      | none => exact absurd h (by simp)
      | some track =>
        cases seconds with
        | none => exact absurd h (by simp)
        | some seconds =>
          rw [← Except.ok.inj h]
          exact hzero

theorem parseThreshold_count {text : Text} {threshold : Threshold}
    (h : parseThreshold text = .ok threshold) : threshold.count ≠ 0 := by
  rw [parseThreshold] at h
  cases hfields : (text.splitOn ',').foldlM
      (fun fields part => thresholdField fields (splitWhitespace part)) {} with
  | error error =>
    rw [hfields] at h
    exact absurd h (by simp)
  | ok fields =>
    rw [hfields] at h
    exact ThresholdFields.finish_count h

example : (parseThreshold "type threshold, track by_src, count 20, seconds 60".toList).toOption =
    some ⟨.threshold, .bySource, 20, 60⟩ := by decide +kernel

end CyberSentinel.Rules
