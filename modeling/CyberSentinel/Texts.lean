import Mathlib.Data.List.Infix
import Mathlib.Tactic

/-!
# Texts as lists of characters

The words of a text are its pieces between blanks, and `takeWithin` keeps the front of a text up to
a limit on its size. What a text keeps and how it falls into words goes part by part.
-/

namespace Texts

abbrev Text := List Char

/-- A control character, the category `Cc`. -/
def isControl (c : Char) : Bool := c.toNat < 0x20 || (0x7f ≤ c.toNat && c.toNat < 0xa0)

/-- A blank, the property `White_Space`. -/
def isWhitespace (c : Char) : Bool :=
  (0x9 ≤ c.toNat && c.toNat ≤ 0xd) || c.toNat == 0x20 || c.toNat == 0x85 || c.toNat == 0xa0 ||
    c.toNat == 0x1680 || (0x2000 ≤ c.toNat && c.toNat ≤ 0x200a) || c.toNat == 0x2028 ||
    c.toNat == 0x2029 || c.toNat == 0x202f || c.toNat == 0x205f || c.toNat == 0x3000

def splitWhitespace (text : Text) : List Text :=
  (text.splitOnP isWhitespace).filter (fun word => !word.isEmpty)

@[simp] theorem splitWhitespace_nil : splitWhitespace [] = [] := by simp [splitWhitespace]

theorem splitWhitespace_append {c : Char} (hc : isWhitespace c = true) (text rest : Text) :
    splitWhitespace (text ++ c :: rest) = splitWhitespace text ++ splitWhitespace rest := by
  rw [splitWhitespace, List.splitOnP_append_cons _ _ hc, List.filter_append]
  rfl

theorem splitWhitespace_word {word : Text} (hne : word ≠ [])
    (hword : ∀ c ∈ word, isWhitespace c = false) : splitWhitespace word = [word] := by
  rw [splitWhitespace, List.splitOnP_eq_singleton hword]
  simp [hne]

theorem splitWhitespace_cons {word : Text} (hne : word ≠ [])
    (hword : ∀ c ∈ word, isWhitespace c = false) {c : Char} (hc : isWhitespace c = true)
    (rest : Text) : splitWhitespace (word ++ c :: rest) = word :: splitWhitespace rest := by
  rw [splitWhitespace_append hc, splitWhitespace_word hne hword, List.singleton_append]

section SplitOnce

variable {α : Type*} [DecidableEq α]

def splitOnce (sep : α) (text : List α) : Option (List α × List α) :=
  if sep ∈ text then some (text.takeWhile (· ≠ sep), (text.dropWhile (· ≠ sep)).tail) else none

def rsplitOnce (sep : α) (text : List α) : Option (List α × List α) :=
  (splitOnce sep text.reverse).map fun parts => (parts.2.reverse, parts.1.reverse)

theorem splitOnce_append {sep : α} {front : List α} (h : sep ∉ front) (rest : List α) :
    splitOnce sep (front ++ sep :: rest) = some (front, rest) := by
  have hfront : ∀ a ∈ front, decide (a ≠ sep) = true := fun a ha =>
    decide_eq_true fun heq => h (heq ▸ ha)
  rw [splitOnce, if_pos (List.mem_append_right _ List.mem_cons_self),
    List.takeWhile_append_of_pos hfront, List.dropWhile_append_of_pos hfront]
  simp

theorem rsplitOnce_append {sep : α} {rest : List α} (h : sep ∉ rest) (front : List α) :
    rsplitOnce sep (front ++ sep :: rest) = some (front, rest) := by
  have hreverse : (front ++ sep :: rest).reverse = rest.reverse ++ sep :: front.reverse := by simp
  rw [rsplitOnce, hreverse, splitOnce_append (fun hmem => h (List.mem_reverse.1 hmem)),
    Option.map_some,
    List.reverse_reverse, List.reverse_reverse]

end SplitOnce

section TakeWithin

variable {α : Type*} (width : α → ℕ) (limit : ℕ)

def size (text : List α) : ℕ := (text.map width).sum

/-- Keep elements as long as those kept before are smaller than the limit. -/
def takeWithin : (used : ℕ) → List α → List α
  | _, [] => []
  | used, c :: rest => if limit ≤ used then [] else c :: takeWithin (used + width c) rest

theorem takeWithin_of_le {used : ℕ} (h : limit ≤ used) (text : List α) :
    takeWithin width limit used text = [] := by
  cases text with
  | nil => rfl
  | cons c rest => exact if_pos h

theorem takeWithin_append (used : ℕ) (text rest : List α) :
    takeWithin width limit used (text ++ rest) =
      takeWithin width limit used text ++
        takeWithin width limit (used + size width text) rest := by
  induction text generalizing used with
  | nil => simp [takeWithin, size]
  | cons c text ih =>
    have hsize : used + size width (c :: text) = used + width c + size width text := by
      simp [size, add_assoc]
    rw [List.cons_append, takeWithin, takeWithin, hsize]
    split_ifs with h
    · rw [takeWithin_of_le width limit (by omega), List.append_nil]
    · rw [ih, List.cons_append]

theorem takeWithin_add (used extra : ℕ) (text : List α) :
    takeWithin width (limit + extra) (used + extra) text = takeWithin width limit used text := by
  induction text generalizing used with
  | nil => rfl
  | cons c text ih =>
    have hused : used + extra + width c = used + width c + extra := by omega
    simp only [takeWithin, hused, ih, Nat.add_le_add_iff_right]

/-- Where every element has size one, as many are kept as there is room for. -/
theorem takeWithin_eq_take {used : ℕ} {text : List α} (h : ∀ c ∈ text, width c = 1) :
    takeWithin width limit used text = text.take (limit - used) := by
  induction text generalizing used with
  | nil => rw [takeWithin, List.take_nil]
  | cons c text ih =>
    rw [takeWithin, h c List.mem_cons_self, ih (fun d hd => h d (List.mem_cons_of_mem _ hd))]
    split_ifs with hused
    · rw [Nat.sub_eq_zero_of_le hused, List.take_zero]
    · have hroom : limit - used = limit - (used + 1) + 1 := by omega
      rw [hroom, List.take_succ_cons]

end TakeWithin

def byteLength (text : Text) : ℕ := size Char.utf8Size text

def cleanChar (c : Char) : Char := if isControl c then '.' else c

/-- Copy characters, control characters as dots, until the copy has reached the limit, and say
whether anything was changed. -/
def sanitiseFrom (width : Char → ℕ) (limit : ℕ) :
    (out : Text) → (changed : Bool) → Text → Text × Bool
  | out, changed, [] => (out, changed)
  | out, changed, c :: rest =>
    if limit ≤ size width out then (out, true)
    else if isControl c then sanitiseFrom width limit (out ++ ['.']) true rest
    else sanitiseFrom width limit (out ++ [c]) changed rest

theorem sanitiseFrom_fst (width : Char → ℕ) (limit : ℕ) (out : Text) (changed : Bool)
    (text : Text) :
    (sanitiseFrom width limit out changed text).1 =
      out ++ takeWithin width limit (size width out) (text.map cleanChar) := by
  induction text generalizing out changed with
  | nil => simp [sanitiseFrom, takeWithin]
  | cons c rest ih =>
    have hsize (d : Char) : size width (out ++ [d]) = size width out + width d := by simp [size]
    rw [sanitiseFrom, List.map_cons, takeWithin, cleanChar]
    split_ifs with hlimit hcontrol
    · rw [List.append_nil]
    · rw [ih, hsize, List.append_assoc, List.singleton_append]
    · rw [ih, hsize, List.append_assoc, List.singleton_append]

end Texts
