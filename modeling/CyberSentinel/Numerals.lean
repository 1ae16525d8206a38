import Mathlib.Data.Nat.Digits.Defs
import Mathlib.Tactic

/-!
# Numbers as texts

`Nat.toDigits` writes a number with a radix of at most 16, and `value` reads digits back.
`readNumber` takes a number off the front of a text, `parseNumber` asks for the whole text to be
one. `places` are the digits of a number in a fixed count of places, most significant first.
-/

namespace Numerals

/-- The value of a character as a digit, letters counting from ten on. -/
def digitValue (c : Char) : ℕ :=
  if '0' ≤ c ∧ c ≤ '9' then c.toNat - 48
  else if 'a' ≤ c ∧ c ≤ 'z' then c.toNat - 87
  else if 'A' ≤ c ∧ c ≤ 'Z' then c.toNat - 55
  else 36

def isDigitIn (radix : ℕ) (c : Char) : Bool := digitValue c < radix

def value (radix : ℕ) (digits : List Char) : ℕ :=
  digits.foldl (fun n c => n * radix + digitValue c) 0

theorem digitValue_digitChar {d : ℕ} (hd : d < 16) : digitValue d.digitChar = d := by
  interval_cases d <;> rfl

theorem value_toDigits {radix : ℕ} (h1 : 1 < radix) (h16 : radix ≤ 16) (n : ℕ) :
    value radix (Nat.toDigits radix n) = n := by
  induction n using Nat.base_induction radix h1 with
  | single m hm =>
    rw [Nat.toDigits_of_lt_base hm]
    simp [value, digitValue_digitChar (hm.trans_le h16)]
  | digit m k hk hm ih =>
    rw [← Nat.toDigits_append_toDigits h1 hm hk, Nat.toDigits_of_lt_base hk]
    rw [value] at ih ⊢
    rw [List.foldl_append, ih, List.foldl_cons, List.foldl_nil,
      digitValue_digitChar (hk.trans_le h16),
      mul_comm]

theorem mem_toDigits {radix : ℕ} (h1 : 1 < radix) {n : ℕ} {c : Char}
    (hc : c ∈ Nat.toDigits radix n) : ∃ d < radix, c = d.digitChar := by
  induction n using Nat.base_induction radix h1 with
  | single m hm =>
    rw [Nat.toDigits_of_lt_base hm, List.mem_singleton] at hc
    exact ⟨m, hm, hc⟩
  | digit m k hk hm ih =>
    rw [← Nat.toDigits_append_toDigits h1 hm hk, List.mem_append, Nat.toDigits_of_lt_base hk,
      List.mem_singleton] at hc
    rcases hc with hc | hc
    · exact ih hc
    · exact ⟨k, hk, hc⟩

theorem isDigitIn_of_mem_toDigits {radix : ℕ} (h1 : 1 < radix) (h16 : radix ≤ 16) {n : ℕ} {c : Char}
    (hc : c ∈ Nat.toDigits radix n) : isDigitIn radix c = true := by
  obtain ⟨d, hd, rfl⟩ := mem_toDigits h1 hc
  rw [isDigitIn, digitValue_digitChar (hd.trans_le h16)]
  exact decide_eq_true hd

theorem eq_zero_of_head_toDigits {radix : ℕ} (h1 : 1 < radix) (h16 : radix ≤ 16) {n : ℕ}
    (h : (Nat.toDigits radix n).head? = some '0') : n = 0 := by
  induction n using Nat.base_induction radix h1 with
  | single m hm =>
    rw [Nat.toDigits_of_lt_base hm, List.head?_cons, Option.some.injEq] at h
    have hvalue := digitValue_digitChar (hm.trans_le h16)
    rw [h] at hvalue
    exact hvalue.symm
  | digit m k hk hm ih =>
    rw [← Nat.toDigits_append_toDigits h1 hm hk, List.head?_append_of_ne_nil _ Nat.toDigits_ne_nil]
      at h
    exact absurd (ih h) hm.ne'

/-- Take a number below `size`, of at most `maxDigits` digits, off the front of a text. -/
def readNumber (radix maxDigits : ℕ) (allowZeroPrefix : Bool) (size : ℕ) (text : List Char) :
    Option (ℕ × List Char) :=
  let digits := text.takeWhile (isDigitIn radix)
  let result := value radix digits
  if digits.isEmpty || decide (maxDigits < digits.length) then none
  else if !allowZeroPrefix && text.head? == some '0' && decide (1 < digits.length) then none
  else if result < size then some (result, text.drop digits.length)
  else none

theorem readNumber_none {radix maxDigits size : ℕ} {allowZeroPrefix : Bool} {text : List Char}
    (h : ∀ c ∈ text.head?, isDigitIn radix c = false) :
    readNumber radix maxDigits allowZeroPrefix size text = none := by
  have hempty : text.takeWhile (isDigitIn radix) = [] := by
    cases text with
    | nil => rfl
    | cons c rest => exact List.takeWhile_cons_of_neg (by simp [h c rfl])
  simp [readNumber, hempty]

theorem readNumber_suffix {radix maxDigits size n : ℕ} {allowZeroPrefix : Bool}
    {text rest : List Char}
    (h : readNumber radix maxDigits allowZeroPrefix size text = some (n, rest)) :
    rest <:+ text := by
  simp only [readNumber] at h
  split_ifs at h
  rw [← (Prod.mk.inj (Option.some.inj h)).2]
  exact List.drop_suffix _ _

theorem readNumber_toDigits {radix maxDigits size n : ℕ} {allowZeroPrefix : Bool}
    (h1 : 1 < radix) (h16 : radix ≤ 16) (hdigits : 0 < maxDigits) (hn : n < radix ^ maxDigits)
    (hsize : n < size) {rest : List Char} (hrest : ∀ c ∈ rest.head?, isDigitIn radix c = false) :
    readNumber radix maxDigits allowZeroPrefix size (Nat.toDigits radix n ++ rest) =
      some (n, rest) := by
  have htake : (Nat.toDigits radix n ++ rest).takeWhile (isDigitIn radix) =
      Nat.toDigits radix n := by
    rw [List.takeWhile_append_of_pos (fun c hc => isDigitIn_of_mem_toDigits h1 h16 hc)]
    cases rest with
    | nil => simp
    | cons c rest => simp [hrest c rfl]
  have hlength := (Nat.length_toDigits_le_iff h1 hdigits).2 hn
  have hzero : ¬((Nat.toDigits radix n).head? = some '0' ∧ 1 < (Nat.toDigits radix n).length) := by
    rintro ⟨hhead, hlong⟩
    rw [eq_zero_of_head_toDigits h1 h16 hhead, Nat.toDigits_zero] at hlong
    exact absurd hlong (lt_irrefl _)
  have hhead : (Nat.toDigits radix n ++ rest).head? = (Nat.toDigits radix n).head? :=
    List.head?_append_of_ne_nil _ Nat.toDigits_ne_nil
  simp only [readNumber, htake, hhead, value_toDigits h1 h16, List.drop_left]
  rw [if_neg, if_neg, if_pos hsize]
  · simp only [Bool.and_eq_true, beq_iff_eq, decide_eq_true_eq, and_assoc]
    exact fun h => hzero h.2
  · simp [Nat.toDigits_ne_nil, hlength]

/-- The whole text, an optional plus sign apart, is a decimal number below `size`. -/
def parseNumber (size : ℕ) (text : List Char) : Option ℕ :=
  let digits := if text.head? = some '+' then text.tail else text
  if !digits.isEmpty && digits.all (isDigitIn 10) && decide (value 10 digits < size) then
    some (value 10 digits)
  else none

@[simp] theorem parseNumber_nil (size : ℕ) : parseNumber size [] = none := rfl

theorem parseNumber_lt {size n : ℕ} {text : List Char} (h : parseNumber size text = some n) :
    n < size := by
  simp only [parseNumber] at h
  generalize (if text.head? = some '+' then text.tail else text) = digits at h
  split_ifs at h with hnumber
  rw [← Option.some.inj h]
  exact of_decide_eq_true (Bool.and_eq_true_iff.1 hnumber).2

theorem parseNumber_toDigits {size n : ℕ} (h : n < size) :
    parseNumber size (Nat.toDigits 10 n) = some n := by
  have hdigits : ∀ c ∈ Nat.toDigits 10 n, isDigitIn 10 c = true :=
    fun c hc => isDigitIn_of_mem_toDigits (by decide) (by decide) hc
  have hsign : (Nat.toDigits 10 n).head? ≠ some '+' := by
    intro hhead
    exact absurd (hdigits _ (List.mem_of_mem_head? hhead)) (by decide)
  have hne : (Nat.toDigits 10 n).isEmpty = false := List.isEmpty_eq_false_iff.2 Nat.toDigits_ne_nil
  simp only [parseNumber, if_neg hsign, hne, List.all_eq_true.2 hdigits,
    @value_toDigits 10 (by decide) (by decide), decide_eq_true h, Bool.not_false,
    Bool.and_self, if_true]

/-- The whole text, its sign included, is a decimal number from `-size` on and below `size`. -/
def parseSigned (size : ℕ) (text : List Char) : Option ℤ :=
  if text.head? = some '-' then
    if !text.tail.isEmpty && text.tail.all (isDigitIn 10) && decide (value 10 text.tail ≤ size) then
      some (-(value 10 text.tail : ℤ))
    else none
  else (parseNumber size text).map Int.ofNat

theorem parseSigned_bounds {size : ℕ} (hsize : 0 < size) {n : ℤ} {text : List Char}
    (h : parseSigned size text = some n) : -(size : ℤ) ≤ n ∧ n < size := by
  rw [parseSigned] at h
  split_ifs at h with hsign hnumber
  · rw [← Option.some.inj h]
    have hle := of_decide_eq_true (Bool.and_eq_true_iff.1 hnumber).2
    omega
  · obtain ⟨m, hm, rfl⟩ := Option.map_eq_some_iff.1 h
    have hlt := parseNumber_lt hm
    simp only [Int.ofNat_eq_natCast]
    omega

/-- The last `n` digits of a number to the base `b`, most significant first. -/
def places (b : ℕ) : ℕ → ℕ → List ℕ
  | 0, _ => []
  | n + 1, x => places b n (x / b) ++ [x % b]

def ofPlaces (b : ℕ) (digits : List ℕ) : ℕ := digits.foldl (fun x d => x * b + d) 0

@[simp] theorem length_places (b n x : ℕ) : (places b n x).length = n := by
  induction n generalizing x with
  | zero => rfl
  | succ n ih => rw [places, List.length_append, ih, List.length_singleton]

theorem lt_of_mem_places {b n x d : ℕ} (hb : 0 < b) (h : d ∈ places b n x) : d < b := by
  induction n generalizing x with
  | zero => cases h
  | succ n ih =>
    rw [places, List.mem_append, List.mem_singleton] at h
    rcases h with h | rfl
    · exact ih h
    · exact Nat.mod_lt _ hb

theorem ofPlaces_concat (b : ℕ) (digits : List ℕ) (d : ℕ) :
    ofPlaces b (digits ++ [d]) = ofPlaces b digits * b + d := by
  rw [ofPlaces, List.foldl_append, ofPlaces, List.foldl_cons, List.foldl_nil]

theorem ofPlaces_places (b n x : ℕ) : ofPlaces b (places b n x) = x % b ^ n := by
  induction n generalizing x with
  | zero => simp [places, ofPlaces, Nat.mod_one]
  | succ n ih =>
    rw [places, ofPlaces_concat, ih, pow_succ', Nat.mod_mul, mul_comm, add_comm]

theorem ofPlaces_lt {b : ℕ} {digits : List ℕ} (h : ∀ d ∈ digits, d < b) :
    ofPlaces b digits < b ^ digits.length := by
  induction digits using List.reverseRecOn with
  | nil => exact Nat.one_pos
  | append_singleton digits d ih =>
    have hd : d < b := h d (List.mem_append_right _ List.mem_cons_self)
    have hrest := ih fun c hc => h c (List.mem_append_left _ hc)
    rw [ofPlaces_concat, List.length_append, List.length_singleton, pow_succ]
    calc ofPlaces b digits * b + d < ofPlaces b digits * b + b := Nat.add_lt_add_left hd _
      _ = (ofPlaces b digits + 1) * b := (Nat.succ_mul _ _).symm
      _ ≤ b ^ digits.length * b := Nat.mul_le_mul_right b hrest

end Numerals
