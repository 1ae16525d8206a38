import Mathlib.Data.Char
import Mathlib.Data.List.Lex
import Mathlib.Data.Prod.Lex
import Mathlib.Tactic

/-!
# Texts of a fixed width

A way of writing values keeps their order if all texts have one width and compare as the values do.
Digits are written so. What is written in two parts is, if both parts are and the first one decides;
so numerals that are padded with zeros are, and records of them with separators.
-/

namespace FixedWidth

theorem append_lt_append_iff {α : Type*} [LinearOrder α] {a b : List α} (h : a.length = b.length)
    (c d : List α) : a ++ c < b ++ d ↔ a < b ∨ a = b ∧ c < d := by
  induction a generalizing b with
  | nil =>
    obtain rfl : b = [] := List.length_eq_zero_iff.1 h.symm
    simp
  | cons x a ih =>
    cases b with
    | nil => exact absurd h (by simp)
    | cons y b =>
      rw [List.length_cons, List.length_cons, Nat.add_right_cancel_iff] at h
      rw [List.cons_append, List.cons_append, List.cons_lt_cons_iff, List.cons_lt_cons_iff, ih h,
        List.cons.injEq]
      tauto

/-- Within the range every text has the width, and the texts compare as the values do. -/
structure Ordered {α : Type*} [LinearOrder α] (range : Set α) (width : ℕ) (text : α → List Char) :
    Prop where
  length : ∀ x ∈ range, (text x).length = width
  lt_iff : ∀ x ∈ range, ∀ y ∈ range, text x < text y ↔ x < y

namespace Ordered

variable {α β γ : Type*} [LinearOrder α] [LinearOrder β] [LinearOrder γ] {range : Set α} {width : ℕ}
  {text : α → List Char}

theorem eq_iff (h : Ordered range width text) {x y : α} (hx : x ∈ range) (hy : y ∈ range) :
    text x = text y ↔ x = y := by
  constructor
  · intro heq
    rcases lt_trichotomy x y with hlt | hsame | hgt
    · exact absurd heq ((h.lt_iff x hx y hy).2 hlt).ne
    · exact hsame
    · exact absurd heq.symm ((h.lt_iff y hy x hx).2 hgt).ne
  · exact congrArg text

theorem mono {range' : Set α} (h : Ordered range width text) (hsub : range' ⊆ range) :
    Ordered range' width text :=
  ⟨fun x hx => h.length x (hsub hx), fun x hx y hy => h.lt_iff x (hsub hx) y (hsub hy)⟩

theorem congr {text' : α → List Char} (h : Ordered range width text)
    (heq : ∀ x ∈ range, text' x = text x) : Ordered range width text' := by
  refine ⟨fun x hx => ?_, fun x hx y hy => ?_⟩
  · rw [heq x hx, h.length x hx]
  · rw [heq x hx, heq y hy, h.lt_iff x hx y hy]

/-- The first part decides, and the second one where the first is the same. -/
theorem append {firsts : Set β} {seconds : Set γ} {first : α → β} {second : α → γ} {w v : ℕ}
    {f : β → List Char} {g : γ → List Char} (hf : Ordered firsts w f) (hg : Ordered seconds v g)
    (hfirst : ∀ x ∈ range, first x ∈ firsts) (hsecond : ∀ x ∈ range, second x ∈ seconds)
    (hlt : ∀ x y, x < y ↔ first x < first y ∨ first x = first y ∧ second x < second y) :
    Ordered range (w + v) (fun x => f (first x) ++ g (second x)) := by
  refine ⟨fun x hx => ?_, fun x hx y hy => ?_⟩
  · rw [List.length_append, hf.length _ (hfirst x hx), hg.length _ (hsecond x hx)]
  · have hlength : (f (first x)).length = (f (first y)).length := by
      rw [hf.length _ (hfirst x hx), hf.length _ (hfirst y hy)]
    rw [append_lt_append_iff hlength, hf.lt_iff _ (hfirst x hx) _ (hfirst y hy),
      hf.eq_iff (hfirst x hx) (hfirst y hy), hg.lt_iff _ (hsecond x hx) _ (hsecond y hy), hlt]

theorem cons (h : Ordered range width text) (c : Char) :
    Ordered range (width + 1) (fun x => c :: text x) := by
  refine ⟨fun x hx => ?_, fun x hx y hy => ?_⟩
  · rw [List.length_cons, h.length x hx]
  · rw [List.cons_lt_cons_iff, h.lt_iff x hx y hy]
    simp

theorem concat (h : Ordered range width text) (c : Char) :
    Ordered range (width + 1) (fun x => text x ++ [c]) := by
  refine ⟨fun x hx => ?_, fun x hx y hy => ?_⟩
  · rw [List.length_append, h.length x hx, List.length_singleton]
  · have hlength : (text x).length = (text y).length := by rw [h.length x hx, h.length y hy]
    rw [append_lt_append_iff hlength, h.lt_iff x hx y hy]
    simp

end Ordered

/-- Numbers compare as their quotients do, and where these are the same as their remainders do. -/
theorem lt_iff_div_mod (k n m : ℕ) :
    n < m ↔ n / k < m / k ∨ n / k = m / k ∧ n % k < m % k := by
  have hn := Nat.div_add_mod n k
  have hm := Nat.div_add_mod m k
  constructor
  · intro hlt
    rcases (Nat.div_le_div_right hlt.le : n / k ≤ m / k).lt_or_eq with hquotient | hquotient
    · exact Or.inl hquotient
    · rw [hquotient] at hn
      exact Or.inr ⟨hquotient, by omega⟩
  · rintro (hquotient | ⟨hquotient, hremainder⟩)
    · exact Nat.lt_of_div_lt_div hquotient
    · rw [hquotient] at hn
      omega

/-- The decimal numeral of a number, with zeros in front of it up to the width. -/
def pad (width n : ℕ) : List Char := List.leftpad width '0' (Nat.toDigits 10 n)

theorem pad_one {n : ℕ} (hn : n < 10) : pad 1 n = [n.digitChar] := by
  rw [pad, Nat.toDigits_of_lt_base hn]
  rfl

theorem pad_succ (width n : ℕ) :
    pad (width + 2) n = pad (width + 1) (n / 10) ++ [(n % 10).digitChar] := by
  by_cases hsmall : n < 10
  · have hzeros : List.leftpad (width + 1) '0' ['0'] = List.replicate (width + 1) '0' := by
      rw [List.leftpad, List.replicate_succ']
      rfl
    rw [pad, pad, Nat.toDigits_of_lt_base hsmall, Nat.div_eq_of_lt hsmall, Nat.mod_eq_of_lt hsmall,
      Nat.toDigits_zero, hzeros]
    rfl
  · have hzeros : width + 2 - ((Nat.toDigits 10 (n / 10)).length + 1) =
        width + 1 - (Nat.toDigits 10 (n / 10)).length := Nat.add_sub_add_right (width + 1) 1 _
    rw [pad, pad, Nat.toDigits_of_base_le (by decide) (Nat.not_lt.1 hsmall), List.leftpad,
      List.leftpad,
      List.length_append, List.length_singleton, hzeros, List.append_assoc]

theorem ordered_digit : Ordered {n | n < 10} 1 (fun n => [n.digitChar]) := by
  refine ⟨fun n _ => rfl, fun n hn m hm => ?_⟩
  have hall : ∀ i j : Fin 10, i.val.digitChar < j.val.digitChar ↔ i.val < j.val := by decide
  have hdigits := hall ⟨n, hn⟩ ⟨m, hm⟩
  rw [List.cons_lt_cons_iff, hdigits]
  simp

theorem ordered_pad (width : ℕ) :
    Ordered {n | n < 10 ^ (width + 1)} (width + 1) (pad (width + 1)) := by
  induction width with
  | zero => exact ordered_digit.congr fun n hn => pad_one hn
  | succ width ih =>
    have hparts : Ordered {n | n < 10 ^ (width + 2)} (width + 1 + 1)
        (fun n => pad (width + 1) (n / 10) ++ [(n % 10).digitChar]) := by
      refine ih.append ordered_digit (fun n hn => ?_) (fun n _ => Nat.mod_lt n (by decide))
        (lt_iff_div_mod 10)
      exact Nat.div_lt_of_lt_mul (by rwa [← pow_succ'])
    exact hparts.congr fun n _ => pad_succ width n

end FixedWidth
