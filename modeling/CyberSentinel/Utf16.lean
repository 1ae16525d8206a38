import Mathlib.Tactic

/-!
# UTF-16

A character takes one unit of 16 bits, or a high surrogate and a low one after it. A surrogate
without its partner is read as the replacement character, and the unit after it anew. What is
written is read back.
-/

namespace Utf16

def isHighSurrogate (unit : UInt16) : Bool := 0xd800 ≤ unit.toNat && unit.toNat < 0xdc00

def isLowSurrogate (unit : UInt16) : Bool := 0xdc00 ≤ unit.toNat && unit.toNat < 0xe000

def replacement : Char := '\ufffd'

def combined (high low : UInt16) : Char :=
  Char.ofNat (0x10000 + (high.toNat - 0xd800) * 0x400 + (low.toNat - 0xdc00))

def decodeLossy : List UInt16 → List Char
  | [] => []
  | unit :: rest =>
    if isHighSurrogate unit then
      match rest with
      | [] => [replacement]
      | low :: others =>
        if isLowSurrogate low then combined unit low :: decodeLossy others
        else replacement :: decodeLossy (low :: others)
    else if isLowSurrogate unit then replacement :: decodeLossy rest
    else Char.ofNat unit.toNat :: decodeLossy rest

def encodeChar (c : Char) : List UInt16 :=
  if c.toNat < 0x10000 then [UInt16.ofNat c.toNat]
  else
    [UInt16.ofNat (0xd800 + (c.toNat - 0x10000) / 0x400),
      UInt16.ofNat (0xdc00 + (c.toNat - 0x10000) % 0x400)]

def encode (text : List Char) : List UInt16 := text.flatMap encodeChar

/-- No character is a surrogate, and none lies past the last plane. -/
theorem toNat_cases (c : Char) : c.toNat < 0xd800 ∨ 0xe000 ≤ c.toNat ∧ c.toNat < 0x110000 := by
  rcases c.valid with h | ⟨hlow, hhigh⟩
  · exact Or.inl h
  · exact Or.inr ⟨Nat.lt_of_succ_le hlow, hhigh⟩

theorem decodeLossy_single {unit : UInt16} (hhigh : isHighSurrogate unit = false)
    (hlow : isLowSurrogate unit = false)
    (rest : List UInt16) :
    decodeLossy (unit :: rest) = Char.ofNat unit.toNat :: decodeLossy rest := by
  cases rest with
  | nil => simp [decodeLossy, hhigh, hlow]
  | cons other others => simp [decodeLossy, hhigh, hlow]

theorem decodeLossy_pair {high low : UInt16} (hhigh : isHighSurrogate high = true)
    (hlow : isLowSurrogate low = true)
    (rest : List UInt16) :
    decodeLossy (high :: low :: rest) = combined high low :: decodeLossy rest := by
  rw [decodeLossy, if_pos hhigh, if_pos hlow]

theorem decodeLossy_encodeChar (c : Char) (rest : List UInt16) :
    decodeLossy (encodeChar c ++ rest) = c :: decodeLossy rest := by
  have hc := toNat_cases c
  rw [encodeChar]
  split_ifs with hsmall
  · have hunit : (UInt16.ofNat c.toNat).toNat = c.toNat := UInt16.toNat_ofNat_of_lt' hsmall
    have hhigh : isHighSurrogate (UInt16.ofNat c.toNat) = false := by
      simp only [isHighSurrogate, hunit, Bool.and_eq_false_iff, decide_eq_false_iff_not]
      omega
    have hlow : isLowSurrogate (UInt16.ofNat c.toNat) = false := by
      simp only [isLowSurrogate, hunit, Bool.and_eq_false_iff, decide_eq_false_iff_not]
      omega
    rw [List.singleton_append, decodeLossy_single hhigh hlow, hunit, Char.ofNat_toNat]
  · set n := c.toNat - 0x10000 with hn
    have hfirst : (UInt16.ofNat (0xd800 + n / 0x400)).toNat = 0xd800 + n / 0x400 :=
      UInt16.toNat_ofNat_of_lt' (by simp only [UInt16.size]; omega)
    have hsecond : (UInt16.ofNat (0xdc00 + n % 0x400)).toNat = 0xdc00 + n % 0x400 :=
      UInt16.toNat_ofNat_of_lt' (by simp only [UInt16.size]; omega)
    have hhigh : isHighSurrogate (UInt16.ofNat (0xd800 + n / 0x400)) = true := by
      simp only [isHighSurrogate, hfirst, Bool.and_eq_true, decide_eq_true_eq]
      omega
    have hlow : isLowSurrogate (UInt16.ofNat (0xdc00 + n % 0x400)) = true := by
      simp only [isLowSurrogate, hsecond, Bool.and_eq_true, decide_eq_true_eq]
      omega
    have hvalue : combined (UInt16.ofNat (0xd800 + n / 0x400))
        (UInt16.ofNat (0xdc00 + n % 0x400)) = c := by
      have hsum : 0x10000 + (0xd800 + n / 0x400 - 0xd800) * 0x400 + (0xdc00 + n % 0x400 - 0xdc00) =
          c.toNat := by
        omega
      rw [combined, hfirst, hsecond, hsum, Char.ofNat_toNat]
    rw [List.cons_append, List.singleton_append, decodeLossy_pair hhigh hlow, hvalue]

theorem decodeLossy_encode (text : List Char) : decodeLossy (encode text) = text := by
  induction text with
  | nil => rfl
  | cons c rest ih => rw [encode, List.flatMap_cons, decodeLossy_encodeChar, ← encode, ih]

end Utf16
