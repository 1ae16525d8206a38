import CyberSentinel.Eval
import CyberSentinel.Http
import CyberSentinel.PathCollapse
import Mathlib.Logic.Function.Iterate

/-!
# Rounds of percent decoding

One pass decodes every valid escape of a text and leaves the other `%` alone. Its flags say which of
both there were, and it returns the text unchanged exactly when there was nothing to decode. Of the
passes over a text the last one may change nothing, and its flags are then dropped.
-/

namespace CyberSentinel

def startsWithDigits : List UInt8 → Bool
  | first :: second :: _ => (hexValue first).isSome && (hexValue second).isSome
  | _ => false

def startsWithZeros : List UInt8 → Bool
  | first :: second :: _ => first == 0x30 && second == 0x30
  | _ => false

/-- Behind some `%` of the text comes what the test asks for. -/
def PercentBefore (test : List UInt8 → Bool) (text : List UInt8) : Prop :=
  ∃ before after, text = before ++ percentSign :: after ∧ test after = true

def HasEscape (text : List UInt8) : Prop := PercentBefore startsWithDigits text

/-- The text has a `%` without two digits behind it. -/
def HasMalformed (text : List UInt8) : Prop :=
  PercentBefore (fun after => !startsWithDigits after) text

def HasNul (text : List UInt8) : Prop := PercentBefore startsWithZeros text

theorem not_percentBefore_nil (test : List UInt8 → Bool) : ¬PercentBefore test [] := by
  rintro ⟨before, after, heq, -⟩
  exact absurd heq (by simp)

theorem percentBefore_cons {test : List UInt8 → Bool} {byte : UInt8} {rest : List UInt8} :
    PercentBefore test (byte :: rest) ↔
      byte = percentSign ∧ test rest = true ∨ PercentBefore test rest := by
  constructor
  · rintro ⟨before, after, heq, htest⟩
    cases before with
    | nil =>
      obtain ⟨hbyte, hrest⟩ := List.cons.inj heq
      exact Or.inl ⟨hbyte, hrest ▸ htest⟩
    | cons other before =>
      obtain ⟨-, hrest⟩ := List.cons.inj heq
      exact Or.inr ⟨before, after, hrest, htest⟩
  · rintro (⟨rfl, htest⟩ | ⟨before, after, rfl, htest⟩)
    · exact ⟨[], rest, rfl, htest⟩
    · exact ⟨byte :: before, after, rfl, htest⟩

theorem percentBefore_of_ne {test : List UInt8 → Bool} {byte : UInt8} (h : byte ≠ percentSign)
    {rest : List UInt8} : PercentBefore test (byte :: rest) ↔ PercentBefore test rest := by
  rw [percentBefore_cons]
  exact or_iff_right fun hboth => h hboth.1

theorem hexValue_lt {digit value : UInt8} (h : hexValue digit = some value) : value.toNat < 16 := by
  rw [hexValue] at h
  split_ifs at h with hdecimal hlower hupper
  · rw [← Option.some.inj h, UInt8.toNat_sub_of_le _ _ hdecimal.1]
    have hle : digit.toNat ≤ 0x39 := hdecimal.2
    change digit.toNat - 0x30 < 16
    omega
  · rw [← Option.some.inj h, UInt8.toNat_add, UInt8.toNat_sub_of_le _ _ hlower.1]
    have hle : digit.toNat ≤ 0x66 := hlower.2
    change (digit.toNat - 0x61 + 10) % 256 < 16
    omega
  · rw [← Option.some.inj h, UInt8.toNat_add, UInt8.toNat_sub_of_le _ _ hupper.1]
    have hle : digit.toNat ≤ 0x46 := hupper.2
    change (digit.toNat - 0x41 + 10) % 256 < 16
    omega

/-- No digit is a `%`. -/
theorem ne_percentSign_of_hexValue {digit value : UInt8} (h : hexValue digit = some value) :
    digit ≠ percentSign := by
  rintro rfl
  have hnone : hexValue percentSign = none := rfl
  exact Option.some_ne_none _ (h.symm.trans hnone)

theorem hexValue_eq_zero {digit : UInt8} (h : hexValue digit = some 0) : digit = 0x30 := by
  rw [hexValue] at h
  split_ifs at h with hdecimal hlower hupper
  · have hzero := congrArg UInt8.toNat (Option.some.inj h)
    rw [UInt8.toNat_sub_of_le _ _ hdecimal.1] at hzero
    have hge : 0x30 ≤ digit.toNat := hdecimal.1
    change digit.toNat - 0x30 = 0 at hzero
    apply UInt8.toNat_inj.1
    change digit.toNat = 0x30
    omega
  · have hzero := congrArg UInt8.toNat (Option.some.inj h)
    rw [UInt8.toNat_add, UInt8.toNat_sub_of_le _ _ hlower.1] at hzero
    have hle : digit.toNat ≤ 0x66 := hlower.2
    change (digit.toNat - 0x61 + 10) % 256 = 0 at hzero
    omega
  · have hzero := congrArg UInt8.toNat (Option.some.inj h)
    rw [UInt8.toNat_add, UInt8.toNat_sub_of_le _ _ hupper.1] at hzero
    have hle : digit.toNat ≤ 0x46 := hupper.2
    change (digit.toNat - 0x41 + 10) % 256 = 0 at hzero
    omega

theorem toNat_digits {high low h l : UInt8} (hhigh : hexValue high = some h)
    (hlow : hexValue low = some l) :
    ((h <<< 4) ||| l).toNat = 16 * h.toNat + l.toNat := by
  have hlt := hexValue_lt hhigh
  rw [UInt8.toNat_or, UInt8.toNat_shiftLeft]
  change h.toNat <<< 4 % 2 ^ 8 ||| l.toNat = _
  rw [Nat.mod_eq_of_lt (by rw [Nat.shiftLeft_eq]; omega),
    ← Nat.shiftLeft_add_eq_or_of_lt (hexValue_lt hlow), Nat.shiftLeft_eq]
  omega

theorem digits_eq_zero_iff {high low h l : UInt8} (hhigh : hexValue high = some h)
    (hlow : hexValue low = some l) : (h <<< 4) ||| l = 0 ↔ high = 0x30 ∧ low = 0x30 := by
  rw [← UInt8.toNat_inj, toNat_digits hhigh hlow]
  constructor
  · intro hzero
    have hz : (0 : UInt8).toNat = 0 := rfl
    rw [hz] at hzero
    have hh : h = 0 := UInt8.toNat_inj.1 (show h.toNat = 0 by omega)
    have hl : l = 0 := UInt8.toNat_inj.1 (show l.toNat = 0 by omega)
    exact ⟨hexValue_eq_zero (hh ▸ hhigh), hexValue_eq_zero (hl ▸ hlow)⟩
  · rintro ⟨rfl, rfl⟩
    obtain rfl : 0 = h := Option.some.inj hhigh
    obtain rfl : 0 = l := Option.some.inj hlow
    rfl

theorem percentDecode_of_ne {byte : UInt8} (h : byte ≠ percentSign) (rest : List UInt8) :
    percentDecode (byte :: rest) = (byte :: (percentDecode rest).1, (percentDecode rest).2) := by
  rw [percentDecode.eq_def]
  exact if_pos h

theorem percentDecode_digits {high low h l : UInt8} (hhigh : hexValue high = some h)
    (hlow : hexValue low = some l) (rest : List UInt8) :
    percentDecode (percentSign :: high :: low :: rest) =
      (((h <<< 4) ||| l) :: (percentDecode rest).1,
        { (percentDecode rest).2 with
          nullByte := (percentDecode rest).2.nullByte || (h <<< 4) ||| l == 0
          percentEncoded := true }) := by
  rw [percentDecode.eq_def]
  simp only [ne_eq, not_true_eq_false, if_false, hhigh, hlow]

theorem percentDecode_malformed {rest : List UInt8} (h : startsWithDigits rest = false) :
    percentDecode (percentSign :: rest) =
      (percentSign :: (percentDecode rest).1,
      { (percentDecode rest).2 with invalidEscape := true }) := by
  rw [percentDecode.eq_def]
  simp only [ne_eq, not_true_eq_false, if_false]
  split
  · next first second tail =>
    rw [startsWithDigits, Bool.and_eq_false_iff] at h
    split
    · next high low hhigh hlow =>
      rw [hhigh, hlow] at h
      rcases h with h | h
      · exact absurd h Bool.noConfusion
      · exact absurd h Bool.noConfusion
    · rfl
  · rfl

@[elab_as_elim]
theorem escapes_induct {motive : List UInt8 → Prop} (nil : motive [])
    (other : ∀ byte rest, byte ≠ percentSign → motive rest → motive (byte :: rest))
    (escape : ∀ high low h l rest, hexValue high = some h → hexValue low = some l → motive rest →
      motive (percentSign :: high :: low :: rest))
    (malformed : ∀ rest, startsWithDigits rest = false → motive rest → motive (percentSign :: rest))
    (text : List UInt8) : motive text := by
  induction hlength : text.length using Nat.strong_induction_on generalizing text with
  | _ length ih =>
    cases text with
    | nil => exact nil
    | cons byte rest =>
      rw [List.length_cons] at hlength
      have hrest : motive rest := ih rest.length (by omega) rest rfl
      by_cases hbyte : byte = percentSign
      · rw [hbyte]
        cases hdigits : startsWithDigits rest with
        | false => exact malformed rest hdigits hrest
        | true =>
          rcases rest with _ | ⟨high, _ | ⟨low, rest⟩⟩
          · exact absurd hdigits Bool.noConfusion
          · exact absurd hdigits Bool.noConfusion
          · rw [startsWithDigits, Bool.and_eq_true, Option.isSome_iff_exists,
              Option.isSome_iff_exists]
              at hdigits
            obtain ⟨⟨h, hhigh⟩, l, hlow⟩ := hdigits
            rw [List.length_cons, List.length_cons] at hlength
            exact escape high low h l rest hhigh hlow (ih rest.length (by omega) rest rfl)
      · exact other byte rest hbyte hrest

/-- The digits of an escape hide no other `%`. -/
theorem percentBefore_digits {test : List UInt8 → Bool} {high low h l : UInt8}
    (hhigh : hexValue high = some h) (hlow : hexValue low = some l) {rest : List UInt8} :
    PercentBefore test (percentSign :: high :: low :: rest) ↔
      test (high :: low :: rest) = true ∨ PercentBefore test rest := by
  rw [percentBefore_cons, percentBefore_of_ne (ne_percentSign_of_hexValue hhigh),
    percentBefore_of_ne (ne_percentSign_of_hexValue hlow), eq_self_iff_true, true_and]

theorem startsWithDigits_digits {high low h l : UInt8} (hhigh : hexValue high = some h)
    (hlow : hexValue low = some l) (rest : List UInt8) :
    startsWithDigits (high :: low :: rest) = true := by
  rw [startsWithDigits, hhigh, hlow]
  rfl

theorem percentEncoded_percentDecode (text : List UInt8) :
    (percentDecode text).2.percentEncoded = true ↔ HasEscape text := by
  rw [HasEscape]
  induction text using escapes_induct with
  | nil => exact iff_of_false Bool.noConfusion (not_percentBefore_nil _)
  | other byte rest hbyte ih => rw [percentDecode_of_ne hbyte, percentBefore_of_ne hbyte, ih]
  | escape high low h l rest hhigh hlow ih =>
    rw [percentDecode_digits hhigh hlow, percentBefore_digits hhigh hlow]
    exact iff_of_true rfl (Or.inl (startsWithDigits_digits hhigh hlow rest))
  | malformed rest hdigits ih =>
    rw [percentDecode_malformed hdigits, percentBefore_cons, hdigits]
    exact ih.trans (or_iff_right fun hboth => Bool.noConfusion hboth.2).symm

theorem nullByte_percentDecode (text : List UInt8) :
    (percentDecode text).2.nullByte = true ↔ HasNul text := by
  rw [HasNul]
  induction text using escapes_induct with
  | nil => exact iff_of_false Bool.noConfusion (not_percentBefore_nil _)
  | other byte rest hbyte ih => rw [percentDecode_of_ne hbyte, percentBefore_of_ne hbyte, ih]
  | escape high low h l rest hhigh hlow ih =>
    rw [percentDecode_digits hhigh hlow, percentBefore_digits hhigh hlow, Bool.or_eq_true,
      ih, beq_iff_eq,
      digits_eq_zero_iff hhigh hlow, startsWithZeros, Bool.and_eq_true, beq_iff_eq,
      beq_iff_eq, or_comm]
  | malformed rest hdigits ih =>
    rw [percentDecode_malformed hdigits, percentBefore_cons]
    refine ih.trans (or_iff_right ?_).symm
    rintro ⟨-, hzeros⟩
    rcases rest with _ | ⟨first, _ | ⟨second, rest⟩⟩
    · exact absurd hzeros Bool.noConfusion
    · exact absurd hzeros Bool.noConfusion
    · rw [startsWithZeros, Bool.and_eq_true, beq_iff_eq, beq_iff_eq] at hzeros
      rw [hzeros.1, hzeros.2] at hdigits
      exact absurd hdigits Bool.noConfusion

theorem invalidEscape_percentDecode (text : List UInt8) :
    (percentDecode text).2.invalidEscape = true ↔ HasMalformed text := by
  rw [HasMalformed]
  induction text using escapes_induct with
  | nil => exact iff_of_false Bool.noConfusion (not_percentBefore_nil _)
  | other byte rest hbyte ih => rw [percentDecode_of_ne hbyte, percentBefore_of_ne hbyte, ih]
  | escape high low h l rest hhigh hlow ih =>
    rw [percentDecode_digits hhigh hlow, percentBefore_digits hhigh hlow,
      startsWithDigits_digits hhigh hlow rest]
    exact ih.trans (or_iff_right Bool.noConfusion).symm
  | malformed rest hdigits ih =>
    rw [percentDecode_malformed hdigits, percentBefore_cons, hdigits]
    exact iff_of_true rfl (Or.inl ⟨rfl, rfl⟩)

theorem percentDecode_single (text : List UInt8) :
    (percentDecode text).2.doubleEncoded = false ∧
    (percentDecode text).2.decodeLimitReached = false := by
  induction text using escapes_induct with
  | nil => exact ⟨rfl, rfl⟩
  | other byte rest hbyte ih => rwa [percentDecode_of_ne hbyte]
  | escape high low h l rest hhigh hlow ih => rwa [percentDecode_digits hhigh hlow]
  | malformed rest hdigits ih => rwa [percentDecode_malformed hdigits]

/-- Decoding never grows a text, and one with an escape gets shorter. -/
theorem length_percentDecode (text : List UInt8) :
    (percentDecode text).1.length ≤ text.length ∧
      (HasEscape text → (percentDecode text).1.length < text.length) := by
  induction text using escapes_induct with
  | nil => exact ⟨le_rfl, fun h => absurd h (not_percentBefore_nil _)⟩
  | other byte rest hbyte ih =>
    rw [percentDecode_of_ne hbyte, HasEscape, percentBefore_of_ne hbyte, List.length_cons,
      List.length_cons]
    exact ⟨Nat.succ_le_succ ih.1, fun h => Nat.succ_lt_succ (ih.2 h)⟩
  | escape high low h l rest hhigh hlow ih =>
    rw [percentDecode_digits hhigh hlow]
    simp only [List.length_cons]
    have hle := ih.1
    exact ⟨by omega, fun _ => by omega⟩
  | malformed rest hdigits ih =>
    rw [percentDecode_malformed hdigits, HasEscape, percentBefore_cons, hdigits, List.length_cons,
      List.length_cons]
    refine ⟨Nat.succ_le_succ ih.1, fun h => Nat.succ_lt_succ (ih.2 ?_)⟩
    exact h.resolve_left fun hboth => Bool.noConfusion hboth.2

theorem percentDecode_eq_iff (text : List UInt8) :
    (percentDecode text).1 = text ↔ ¬HasEscape text := by
  constructor
  · intro heq hescape
    have hlt := (length_percentDecode text).2 hescape
    rw [heq] at hlt
    exact lt_irrefl _ hlt
  · induction text using escapes_induct with
    | nil => exact fun _ => rfl
    | other byte rest hbyte ih =>
      rw [percentDecode_of_ne hbyte, HasEscape, percentBefore_of_ne hbyte]
      exact fun h => congrArg (List.cons byte) (ih h)
    | escape high low h l rest hhigh hlow ih =>
      intro hnone
      exact absurd ((percentBefore_digits hhigh hlow).2
        (Or.inl (startsWithDigits_digits hhigh hlow rest))) hnone
    | malformed rest hdigits ih =>
      rw [percentDecode_malformed hdigits, HasEscape, percentBefore_cons, hdigits]
      exact fun h => congrArg (List.cons percentSign) (ih fun hrest => h (Or.inr hrest))

def decodeOnce (text : List UInt8) : List UInt8 := (percentDecode text).1

/-- Without an escape a text stays as it is, however often it is decoded. -/
theorem decodeOnce_iterate_of_not_hasEscape {text : List UInt8} (h : ¬HasEscape text) (times : ℕ) :
    decodeOnce^[times] text = text :=
  Function.iterate_fixed ((percentDecode_eq_iff text).2 h) times

/-- A text that can be decoded had something to decode all the way. -/
theorem hasEscape_iterate {text : List UInt8} {i j : ℕ} (hij : i ≤ j)
    (h : HasEscape (decodeOnce^[j] text)) : HasEscape (decodeOnce^[i] text) := by
  by_contra hnone
  obtain ⟨more, rfl⟩ := Nat.exists_eq_add_of_le' hij
  rw [Function.iterate_add_apply, decodeOnce_iterate_of_not_hasEscape hnone] at h
  exact hnone h

theorem length_iterate_le (text : List UInt8) (times : ℕ) :
    (decodeOnce^[times] text).length ≤ text.length := by
  induction times generalizing text with
  | zero => exact le_rfl
  | succ times ih =>
    rw [Function.iterate_succ_apply]
    exact (ih (decodeOnce text)).trans (length_percentDecode text).1

theorem decodeLoop_of_eq {current : List UInt8} (h : (percentDecode current).1 = current)
    (remaining round : ℕ) (flags : NormalizationFlags) :
    decodeLoop remaining round current flags = ⟨current, round, flags⟩ := by
  cases remaining with
  | zero => rfl
  | succ remaining =>
    rw [decodeLoop]
    exact if_pos h

theorem decodeLoop_of_ne {current : List UInt8} (h : (percentDecode current).1 ≠ current)
    (remaining round : ℕ) (flags : NormalizationFlags) :
    decodeLoop (remaining + 1) round current flags =
      decodeLoop remaining (round + 1) (percentDecode current).1
        { flags.merge (percentDecode current).2 with
          doubleEncoded := (flags.merge (percentDecode current).2).doubleEncoded ||
            decide (0 < round) } := by
  rw [decodeLoop]
  exact if_neg h

theorem percentDecodeRepeatedly_of_fixed {input : List UInt8} {rounds : ℕ}
    (h : (percentDecode (decodeLoop rounds 0 input {}).bytes).1 =
    (decodeLoop rounds 0 input {}).bytes) :
    percentDecodeRepeatedly input rounds = decodeLoop rounds 0 input {} := by
  rw [percentDecodeRepeatedly]
  exact if_neg fun hlimit => hlimit.2.2 h

/-- What a loop over the rounds has done that began at `current` with these flags, before it the
`round` rounds that are counted already. -/
structure DecodeRun (remaining round : ℕ) (current : List UInt8) (flags : NormalizationFlags)
    (applied : ℕ) (n : Normalized) : Prop where
  applied_le : applied ≤ remaining
  roundsApplied : n.roundsApplied = round + applied
  bytes : n.bytes = decodeOnce^[applied] current
  changed : ∀ i < applied, HasEscape (decodeOnce^[i] current)
  stopped : applied < remaining → ¬HasEscape n.bytes
  percentEncoded : n.flags.percentEncoded = true ↔
    flags.percentEncoded = true ∨ ∃ i < applied, HasEscape (decodeOnce^[i] current)
  nullByte : n.flags.nullByte = true ↔
    flags.nullByte = true ∨ ∃ i < applied, HasNul (decodeOnce^[i] current)
  invalidEscape : n.flags.invalidEscape = true ↔
    flags.invalidEscape = true ∨ ∃ i < applied, HasMalformed (decodeOnce^[i] current)
  doubleEncoded : n.flags.doubleEncoded = true ↔
    flags.doubleEncoded = true ∨ 0 < applied ∧ 1 < round + applied
  decodeLimitReached : n.flags.decodeLimitReached = flags.decodeLimitReached

/-- Something holds of one of the texts a loop goes over if it holds of the first or of a later one.
-/
theorem exists_lt_succ_iterate {p : List UInt8 → Prop} {applied : ℕ} {text : List UInt8} :
    (∃ i < applied + 1, p (decodeOnce^[i] text)) ↔
      p text ∨ ∃ i < applied, p (decodeOnce^[i] (decodeOnce text)) := by
  constructor
  · rintro ⟨i, hi, h⟩
    cases i with
    | zero => exact Or.inl h
    | succ i => exact Or.inr ⟨i, by omega, h⟩
  · rintro (h | ⟨i, hi, h⟩)
    · exact ⟨0, by omega, h⟩
    · exact ⟨i + 1, by omega, h⟩

def flagsAfter (round : ℕ) (text : List UInt8) (flags : NormalizationFlags) : NormalizationFlags :=
  { flags.merge (percentDecode text).2 with
    doubleEncoded := (flags.merge (percentDecode text).2).doubleEncoded || decide (0 < round) }

theorem decodeLoop_round {current : List UInt8} (h : HasEscape current) (remaining round : ℕ)
    (flags : NormalizationFlags) :
    decodeLoop (remaining + 1) round current flags =
      decodeLoop remaining (round + 1) (decodeOnce current) (flagsAfter round current flags) :=
  decodeLoop_of_ne (fun heq => (percentDecode_eq_iff current).1 heq h) remaining round flags

theorem percentEncoded_flagsAfter (round : ℕ) (text : List UInt8) (flags : NormalizationFlags) :
    (flagsAfter round text flags).percentEncoded = true ↔
    flags.percentEncoded = true ∨ HasEscape text := by
  rw [← percentEncoded_percentDecode, ← Bool.or_eq_true]
  rfl

theorem nullByte_flagsAfter (round : ℕ) (text : List UInt8) (flags : NormalizationFlags) :
    (flagsAfter round text flags).nullByte = true ↔ flags.nullByte = true ∨ HasNul text := by
  rw [← nullByte_percentDecode, ← Bool.or_eq_true]
  rfl

theorem invalidEscape_flagsAfter (round : ℕ) (text : List UInt8) (flags : NormalizationFlags) :
    (flagsAfter round text flags).invalidEscape = true ↔
    flags.invalidEscape = true ∨ HasMalformed text := by
  rw [← invalidEscape_percentDecode, ← Bool.or_eq_true]
  rfl

theorem doubleEncoded_flagsAfter (round : ℕ) (text : List UInt8) (flags : NormalizationFlags) :
    (flagsAfter round text flags).doubleEncoded = true ↔
    flags.doubleEncoded = true ∨ 0 < round := by
  have hsingle : (percentDecode text).2.doubleEncoded = false := (percentDecode_single text).1
  simp only [flagsAfter, NormalizationFlags.merge, hsingle, Bool.or_false, Bool.or_eq_true,
    decide_eq_true_eq]

theorem decodeLimitReached_flagsAfter (round : ℕ) (text : List UInt8) (flags : NormalizationFlags) :
    (flagsAfter round text flags).decodeLimitReached = flags.decodeLimitReached := by
  have hsingle : (percentDecode text).2.decodeLimitReached = false := (percentDecode_single text).2
  simp only [flagsAfter, NormalizationFlags.merge, hsingle, Bool.or_false]

theorem decodeLoop_run (remaining round : ℕ) (current : List UInt8) (flags : NormalizationFlags) :
    ∃ applied, DecodeRun remaining round current flags applied
      (decodeLoop remaining round current flags) := by
  induction remaining generalizing round current flags with
  | zero => exact ⟨0, by constructor <;> simp [decodeLoop]⟩
  | succ remaining ih =>
    by_cases hescape : HasEscape current
    · obtain ⟨applied, hrun⟩ := ih (round + 1) (decodeOnce current) (flagsAfter round current flags)
      rw [decodeLoop_round hescape]
      refine ⟨applied + 1, ?_⟩
      constructor
      · exact Nat.succ_le_succ hrun.applied_le
      · rw [hrun.roundsApplied]
        omega
      · exact hrun.bytes
      · intro i hi
        cases i with
        | zero => exact hescape
        | succ i => exact hrun.changed i (by omega)
      · exact fun hlt => hrun.stopped (by omega)
      · rw [hrun.percentEncoded, percentEncoded_flagsAfter, or_assoc, exists_lt_succ_iterate]
      · rw [hrun.nullByte, nullByte_flagsAfter, or_assoc, exists_lt_succ_iterate]
      · rw [hrun.invalidEscape, invalidEscape_flagsAfter, or_assoc, exists_lt_succ_iterate]
      · rw [hrun.doubleEncoded, doubleEncoded_flagsAfter, or_assoc]
        have hrounds : 0 < round ∨ 0 < applied ∧ 1 < round + 1 + applied ↔
            0 < applied + 1 ∧ 1 < round + (applied + 1) := by omega
        rw [hrounds]
      · rw [hrun.decodeLimitReached, decodeLimitReached_flagsAfter]
    · rw [decodeLoop_of_eq ((percentDecode_eq_iff current).2 hescape)]
      exact ⟨0, by constructor <;> simp [hescape]⟩

/-- The rounds that are applied to an input, and the one flag that is set beside theirs. -/
theorem percentDecodeRepeatedly_run (input : List UInt8) (rounds : ℕ) :
    ∃ n limit, DecodeRun rounds 0 input {} n.roundsApplied n ∧
      (limit = true ↔ n.roundsApplied = rounds ∧ 0 < rounds ∧ (percentDecode n.bytes).1 ≠ n.bytes) ∧
      percentDecodeRepeatedly input rounds =
        { n with flags := { n.flags with decodeLimitReached := limit } } := by
  obtain ⟨applied, hrun⟩ := decodeLoop_run rounds 0 input {}
  have happlied : (decodeLoop rounds 0 input {}).roundsApplied = applied := by
    rw [hrun.roundsApplied, Nat.zero_add]
  have hunset : (decodeLoop rounds 0 input {}).flags.decodeLimitReached = false :=
    hrun.decodeLimitReached
  rw [percentDecodeRepeatedly]
  rw [← happlied] at hrun
  generalize decodeLoop rounds 0 input {} = n at hrun hunset ⊢
  dsimp only
  split_ifs with hlimit
  · exact ⟨n, true, hrun, iff_of_true rfl hlimit, rfl⟩
  · exact ⟨n, false, hrun, iff_of_false Bool.false_ne_true hlimit, by rw [← hunset]⟩

theorem decodeLimitReached_iff {input : List UInt8} {rounds : ℕ} {n : Normalized} (h : 1 ≤ rounds)
    (hrun : DecodeRun rounds 0 input {} n.roundsApplied n) :
    n.roundsApplied = rounds ∧ 0 < rounds ∧ (percentDecode n.bytes).1 ≠ n.bytes ↔
      HasEscape n.bytes := by
  rw [ne_eq, percentDecode_eq_iff, not_not]
  constructor
  · exact fun hlimit => hlimit.2.2
  · intro hescape
    have hle := hrun.applied_le
    have hlast : ¬n.roundsApplied < rounds := fun hlt => hrun.stopped hlt hescape
    exact ⟨by omega, h, hescape⟩

/-- Repeated decoding says what it did: how many rounds it applied, whether they decoded anything, a
NUL byte or an escape of an escape, and whether an escape is left. -/
theorem repeated_decoding_reported (input : List UInt8) (rounds : ℕ) (h : 1 ≤ rounds) :
    (percentDecodeRepeatedly input rounds).roundsApplied ≤ rounds ∧
      let n := percentDecodeRepeatedly input rounds
      n.bytes = decodeOnce^[n.roundsApplied] input ∧
      n.bytes.length ≤ input.length ∧
      (n.flags.decodeLimitReached = true ↔ HasEscape n.bytes) ∧
      (n.flags.decodeLimitReached = false → (percentDecode n.bytes).1 = n.bytes) ∧
      (n.flags.doubleEncoded = true ↔ 2 ≤ n.roundsApplied) ∧
      (n.flags.percentEncoded = true ↔ ∃ i < n.roundsApplied, HasEscape (decodeOnce^[i] input)) ∧
      (n.flags.nullByte = true ↔ ∃ i < n.roundsApplied, HasNul (decodeOnce^[i] input)) := by
  obtain ⟨run, limit, hrun, hlimit, hresult⟩ := percentDecodeRepeatedly_run input rounds
  rw [decodeLimitReached_iff h hrun] at hlimit
  rw [hresult]
  refine ⟨hrun.applied_le, hrun.bytes, ?_, hlimit, ?_, ?_, ?_, ?_⟩
  · exact (congrArg List.length hrun.bytes).trans_le (length_iterate_le input _)
  · intro hnot
    rw [percentDecode_eq_iff, ← hlimit]
    exact Bool.eq_false_iff.1 hnot
  · change run.flags.doubleEncoded = true ↔ 2 ≤ run.roundsApplied
    rw [hrun.doubleEncoded]
    constructor
    · rintro (hbefore | hrounds)
      · exact absurd hbefore Bool.noConfusion
      · omega
    · exact fun hrounds => Or.inr ⟨by omega, by omega⟩
  · exact hrun.percentEncoded.trans (or_iff_right Bool.noConfusion)
  · exact hrun.nullByte.trans (or_iff_right Bool.noConfusion)

/-- `%2500` takes two rounds. -/
theorem repeated_decoding_reported_nul :
    1 ≤ 2 ∧ ((percentDecodeRepeatedly [0x25, 0x32, 0x35, 0x30, 0x30] 2).flags.nullByte = true ↔
      ∃ i < (percentDecodeRepeatedly [0x25, 0x32, 0x35, 0x30, 0x30] 2).roundsApplied,
        HasNul (decodeOnce^[i] [0x25, 0x32, 0x35, 0x30, 0x30])) :=
  ⟨by decide, (repeated_decoding_reported [0x25, 0x32, 0x35, 0x30, 0x30] 2
    (by decide)).2.2.2.2.2.2.2⟩

/-- The texts that the rounds are given: the input, and what each round leaves as long as it changes
something. -/
def passInputs : ℕ → List UInt8 → List (List UInt8)
  | 0, _ => []
  | remaining + 1, current =>
    current :: if decodeOnce current = current then []
      else passInputs remaining (decodeOnce current)

/-- Something holds of a text that a round is given if it holds of one of that many decoded texts.
-/
theorem exists_passInputs {p : List UInt8 → Prop} {rounds : ℕ} {input : List UInt8} :
    (∃ text ∈ passInputs rounds input, p text) ↔ ∃ i < rounds, p (decodeOnce^[i] input) := by
  induction rounds generalizing input with
  | zero => simp [passInputs]
  | succ remaining ih =>
    rw [passInputs, List.exists_mem_cons_iff, exists_lt_succ_iterate]
    by_cases hescape : HasEscape input
    · have hchanged : decodeOnce input ≠ input :=
        fun heq => (percentDecode_eq_iff input).1 heq hescape
      rw [if_neg hchanged, ih]
    · have hfixed : decodeOnce input = input := (percentDecode_eq_iff input).2 hescape
      rw [if_pos hfixed, hfixed]
      refine or_congr_right' fun hnot => ⟨fun ⟨_, hmem, _⟩ => absurd hmem List.not_mem_nil, ?_⟩
      rintro ⟨i, -, hlater⟩
      rw [decodeOnce_iterate_of_not_hasEscape hescape] at hlater
      exact absurd hlater hnot

def ReportsMalformed (flag : Bool) (input : List UInt8) (rounds : ℕ) : Prop :=
  flag = true ↔ ∃ text ∈ passInputs rounds input, HasMalformed text

/-- If there is a malformed escape at all, there is one in a text that also has a valid one. -/
def MalformedBesideEscape (input : List UInt8) (rounds : ℕ) : Prop :=
  (∃ i < rounds, HasMalformed (decodeOnce^[i] input)) →
    ∃ i < rounds, HasMalformed (decodeOnce^[i] input) ∧ HasEscape (decodeOnce^[i] input)

theorem invalidEscape_iff (input : List UInt8) (rounds : ℕ) :
    (percentDecodeRepeatedly input rounds).flags.invalidEscape = true ↔
      ∃ i < rounds, HasMalformed (decodeOnce^[i] input) ∧ HasEscape (decodeOnce^[i] input) := by
  obtain ⟨n, limit, hrun, -, hresult⟩ := percentDecodeRepeatedly_run input rounds
  have hflag : (percentDecodeRepeatedly input rounds).flags.invalidEscape =
      n.flags.invalidEscape := by
    rw [hresult]
  rw [hflag, hrun.invalidEscape, or_iff_right Bool.noConfusion]
  constructor
  · rintro ⟨i, hi, hmalformed⟩
    exact ⟨i, hi.trans_le hrun.applied_le, hmalformed, hrun.changed i hi⟩
  · rintro ⟨i, hi, hmalformed, hescape⟩
    refine ⟨i, ?_, hmalformed⟩
    by_contra hlater
    have hstopped := hrun.stopped (by omega)
    rw [hrun.bytes] at hstopped
    exact hstopped (hasEscape_iterate (by omega) hescape)

theorem reportsMalformed_iff (input : List UInt8) (rounds : ℕ) :
    ReportsMalformed (percentDecodeRepeatedly input rounds).flags.invalidEscape input rounds ↔
      MalformedBesideEscape input rounds := by
  rw [ReportsMalformed, MalformedBesideEscape, exists_passInputs, invalidEscape_iff]
  constructor
  · exact fun h => h.2
  · exact fun h => ⟨fun ⟨i, hi, hboth⟩ => ⟨i, hi, hboth.1⟩, h⟩

theorem invalidEscape_normalizePath (input : List UInt8) (options : NormalizeConfig) :
    (normalizePath input options).flags.invalidEscape =
      (percentDecodeRepeatedly input options.decodeRounds).flags.invalidEscape := by
  rw [normalizePath]
  split_ifs
  · rw [collapsePath_eq]
    exact Bool.or_false _
  · rfl

/-- Malformed escapes are reported, in the flags, to the rules and on a request, exactly if one of
them stands in a text that also has a valid escape: a round that changes nothing leaves no flags. -/
theorem malformed_escapes_reported_iff (options : NormalizeConfig) :
    (∀ input : List UInt8,
      let reports (flag : Bool) := ReportsMalformed flag input options.decodeRounds
      (reports (percentDecodeRepeatedly input options.decodeRounds).flags.invalidEscape ↔
          MalformedBesideEscape input options.decodeRounds) ∧
        (reports (normalizePath input options).flags.invalidEscape ↔
          MalformedBesideEscape input options.decodeRounds) ∧
        (reports (Detect.normalizationMatches .invalidEscape (normalizePath input options).flags) ↔
          MalformedBesideEscape input options.decodeRounds)) ∧
      ∀ line request, requestLine line options = some request →
        let path := request.rawUri.take
          ((request.rawUri.findIdx? fun byte => byte == questionMark).getD request.rawUri.length)
        (ReportsMalformed request.normalization.invalidEscape path options.decodeRounds ↔
          MalformedBesideEscape path options.decodeRounds) := by
  constructor
  · intro input reports
    have hreports := reportsMalformed_iff input options.decodeRounds
    have hpath := hreports
    rw [← invalidEscape_normalizePath] at hpath
    exact ⟨hreports, hpath, hpath⟩
  · intro line request hrequest path
    rw [requestLine] at hrequest
    split at hrequest
    · dsimp only at hrequest
      split_ifs at hrequest
      cases hrequest
      have hpath := reportsMalformed_iff path options.decodeRounds
      rw [← invalidEscape_normalizePath] at hpath
      exact hpath
    · exact absurd hrequest (by simp)

/-- `GET /%41%zz HTTP/1.1` -/
def malformedLine : List UInt8 :=
  [0x47, 0x45, 0x54, 0x20, 0x2f, 0x25, 0x34, 0x31, 0x25, 0x7a, 0x7a, 0x20, 0x48, 0x54, 0x54,
    0x50, 0x2f, 0x31,
    0x2e, 0x31]

theorem malformed_escapes_reported_iff_request :
    ∃ request, requestLine malformedLine {} = some request ∧
    (ReportsMalformed request.normalization.invalidEscape [0x2f, 0x25, 0x34, 0x31, 0x25,
    0x7a, 0x7a] 2 ↔
      MalformedBesideEscape [0x2f, 0x25, 0x34, 0x31, 0x25, 0x7a, 0x7a] 2) :=
  ⟨_, rfl, (malformed_escapes_reported_iff {}).2 malformedLine _ rfl⟩

/-- `%zz` is left as it is and not flagged. -/
theorem malformed_escape_unreported :
    ¬∀ (input : List UInt8) (rounds : ℕ), 1 ≤ rounds →
      ReportsMalformed (percentDecodeRepeatedly input rounds).flags.invalidEscape input rounds := by
  intro h
  have hreported := (h [0x25, 0x7a, 0x7a] 1 le_rfl).2 ⟨_, List.mem_cons_self, [],
    [0x7a, 0x7a], rfl, rfl⟩
  exact absurd hreported (by decide)

end CyberSentinel
