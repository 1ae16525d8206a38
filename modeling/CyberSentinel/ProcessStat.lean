import CyberSentinel.Processes

/-!
# The stat line of a process

The kernel writes the name of a process between parentheses, whatever characters it is made of, and
the state and numbers after it. No number has a parenthesis in it, so the last one that closes ends
the name.
-/

namespace CyberSentinel.Processes

open Bytes Numerals Texts

theorem splitWhitespace_append_word {word : Text} (hne : word ≠ [])
    (hword : ∀ c ∈ word, isWhitespace c = false)
    {rest : Text} (hrest : ∀ c ∈ rest.head?, isWhitespace c = true) :
    splitWhitespace (word ++ rest) = word :: splitWhitespace rest := by
  cases rest with
  | nil => rw [List.append_nil, splitWhitespace_word hne hword, splitWhitespace_nil]
  | cons c rest =>
    have hc := hrest c rfl
    have hblank := splitWhitespace_append hc [] rest
    rw [splitWhitespace_nil, List.nil_append, List.nil_append] at hblank
    rw [splitWhitespace_cons hne hword hc, hblank]

theorem splitWhitespace_words {words : List Text}
    (h : ∀ word ∈ words, word ≠ [] ∧ ∀ c ∈ word, isWhitespace c = false) {rest : Text}
    (hrest : ∀ c ∈ rest.head?, isWhitespace c = true) :
    splitWhitespace (words.flatMap (fun word => ' ' :: word) ++ rest) =
      words ++ splitWhitespace rest := by
  induction words with
  | nil => rfl
  | cons word words ih =>
    obtain ⟨hne, hword⟩ := h word List.mem_cons_self
    have hnext : ∀ c ∈ (words.flatMap (fun word => ' ' :: word) ++ rest).head?,
        isWhitespace c = true := by
      cases words with
      | nil => exact hrest
      | cons next words =>
        intro c hc
        cases hc
        rfl
    have hspace := splitWhitespace_append (show isWhitespace ' ' = true from rfl) []
      (word ++ (words.flatMap (fun word => ' ' :: word) ++ rest))
    rw [List.nil_append, splitWhitespace_nil, List.nil_append] at hspace
    rw [List.flatMap_cons, List.cons_append, List.cons_append, List.append_assoc, hspace,
      splitWhitespace_append_word hne hword hnext, ih fun other hother =>
      h other (List.mem_cons_of_mem _ hother)]
    rfl

def decimal : ℤ → Text
  | .ofNat n => Nat.toDigits 10 n
  | .negSucc n => '-' :: Nat.toDigits 10 (n + 1)

structure StatFields where
  pid : ℕ
  comm : Text
  state : Char
  ppid : UInt32
  /-- The numbers from the process group to the interval timer. -/
  between : List ℤ
  startTime : UInt64
  after : List ℤ
  /-- Whether the line is ended. -/
  terminated : Bool
  state_word : isWhitespace state = false
  state_ne : state ≠ ')'
  between_length : between.length = 17

namespace StatFields

variable (f : StatFields)

def words : List Text :=
  [f.state] :: Nat.toDigits 10 f.ppid.toNat ::
    (f.between.map decimal ++ Nat.toDigits 10 f.startTime.toNat :: f.after.map decimal)

def ending : Text := if f.terminated then ['\n'] else []

def rest : Text := f.words.flatMap (fun word => ' ' :: word) ++ f.ending

/-- `pid (comm) state ppid ...` -/
def text : Text := (Nat.toDigits 10 f.pid ++ [' ']) ++ '(' :: (f.comm ++ ')' :: f.rest)

end StatFields

theorem digit_cases {n : ℕ} {c : Char} (h : c ∈ Nat.toDigits 10 n) :
    isWhitespace c = false ∧ c ≠ '(' ∧ c ≠ ')' := by
  obtain ⟨d, hd, rfl⟩ := mem_toDigits (by decide) h
  interval_cases d <;> decide

theorem decimal_cases {n : ℤ} {c : Char} (h : c ∈ decimal n) :
    isWhitespace c = false ∧ c ≠ '(' ∧ c ≠ ')' := by
  cases n with
  | ofNat n => exact digit_cases h
  | negSucc n =>
    rcases List.mem_cons.1 h with rfl | h
    · decide
    · exact digit_cases h

theorem decimal_ne_nil (n : ℤ) : decimal n ≠ [] := by
  cases n with
  | ofNat n => exact Nat.toDigits_ne_nil
  | negSucc n => exact List.cons_ne_nil _ _

namespace StatFields

variable (f : StatFields)

theorem words_cases {word : Text} (h : word ∈ f.words) :
    word ≠ [] ∧ ∀ c ∈ word, isWhitespace c = false ∧ c ≠ ')' := by
  have hnumber (n : ℕ) : Nat.toDigits 10 n ≠ [] ∧
      ∀ c ∈ Nat.toDigits 10 n, isWhitespace c = false ∧ c ≠ ')' :=
    ⟨Nat.toDigits_ne_nil, fun c hc => ⟨(digit_cases hc).1, (digit_cases hc).2.2⟩⟩
  have hdecimal {numbers : List ℤ} (hmem : word ∈ numbers.map decimal) :
      word ≠ [] ∧ ∀ c ∈ word, isWhitespace c = false ∧ c ≠ ')' := by
    obtain ⟨n, -, rfl⟩ := List.mem_map.1 hmem
    exact ⟨decimal_ne_nil n, fun c hc => ⟨(decimal_cases hc).1, (decimal_cases hc).2.2⟩⟩
  rcases List.mem_cons.1 h with rfl | h
  · refine ⟨List.cons_ne_nil _ _, fun c hc => ?_⟩
    rw [List.mem_singleton.1 hc]
    exact ⟨f.state_word, f.state_ne⟩
  · rcases List.mem_cons.1 h with rfl | h
    · exact hnumber _
    · rcases List.mem_append.1 h with h | h
      · exact hdecimal h
      · rcases List.mem_cons.1 h with rfl | h
        · exact hnumber _
        · exact hdecimal h

theorem mem_ending {c : Char} (h : c ∈ f.ending) : c = '\n' := by
  rw [ending] at h
  split_ifs at h
  · exact List.mem_singleton.1 h
  · exact absurd h List.not_mem_nil

theorem not_mem_rest : ')' ∉ f.rest := by
  intro h
  rcases List.mem_append.1 h with h | h
  · obtain ⟨word, hword, h⟩ := List.mem_flatMap.1 h
    rcases List.mem_cons.1 h with h | h
    · exact absurd h (by decide)
    · exact ((f.words_cases hword).2 _ h).2 rfl
  · exact absurd (f.mem_ending h) (by decide)

theorem splitWhitespace_rest : splitWhitespace f.rest = f.words := by
  have hblank : ∀ c ∈ f.ending.head?, isWhitespace c = true := by
    intro c hc
    rw [f.mem_ending (List.mem_of_mem_head? hc)]
    rfl
  have hending : splitWhitespace f.ending = [] := by
    rw [ending]
    cases f.terminated with
    | false => exact splitWhitespace_nil
    | true => decide
  rw [rest, splitWhitespace_words (fun word hword => ⟨(f.words_cases hword).1, fun c hc =>
    ((f.words_cases hword).2 c hc).1⟩) hblank, hending, List.append_nil]

theorem getElem?_words : f.words[19]? = some (Nat.toDigits 10 f.startTime.toNat) := by
  have hlength : (f.between.map decimal).length = 17 := by rw [List.length_map, f.between_length]
  rw [words, List.getElem?_cons_succ, List.getElem?_cons_succ, ← hlength,
    List.getElem?_append_right le_rfl,
    Nat.sub_self, List.getElem?_cons_zero]

/-- Whatever the name is, it is read as it is, and the parent and the start time are those of the
process. -/
theorem name_forges_no_field :
    parseStat f.text = some (sanitise f.comm 128, some f.ppid, f.startTime) := by
  have hopen : '(' ∉ Nat.toDigits 10 f.pid ++ [' '] := by
    intro h
    rcases List.mem_append.1 h with h | h
    · exact (digit_cases h).2.1 rfl
    · exact absurd (List.mem_singleton.1 h) (by decide)
  have hfirst : splitOnce '(' f.text =
      some (Nat.toDigits 10 f.pid ++ [' '], f.comm ++ ')' :: f.rest) :=
    splitOnce_append hopen _
  have htext : f.text = (Nat.toDigits 10 f.pid ++ [' '] ++ ['(']) ++ (f.comm ++ ')' :: f.rest) := by
    simp [text]
  have hlast : rsplitOnce ')' f.text =
      some (Nat.toDigits 10 f.pid ++ [' '] ++ ['('] ++ f.comm, f.rest) := by
    rw [htext, ← List.append_assoc]
    exact rsplitOnce_append f.not_mem_rest _
  have hname := slice?_middle (Nat.toDigits 10 f.pid ++ [' '] ++ ['(']) f.comm (')' :: f.rest)
  have hopened : (Nat.toDigits 10 f.pid ++ [' '] ++ ['(']).length =
      (Nat.toDigits 10 f.pid ++ [' ']).length + 1 :=
    List.length_append
  rw [← htext, ← List.length_append, hopened] at hname
  have hle : ¬(Nat.toDigits 10 f.pid ++ [' '] ++ ['('] ++ f.comm).length <
      (Nat.toDigits 10 f.pid ++ [' ']).length := by
    simp only [List.length_append]
    omega
  have hparent : f.words[1]?.bind parseU32 = some f.ppid := by
    rw [words, List.getElem?_cons_succ, List.getElem?_cons_zero, Option.bind_some, parseU32,
      parseNumber_toDigits f.ppid.toNat_lt, Option.map_some, UInt32.ofNat_toNat]
  have hstart : f.words[19]?.bind parseU64 = some f.startTime := by
    rw [getElem?_words, Option.bind_some, parseU64, parseNumber_toDigits f.startTime.toNat_lt,
      Option.map_some,
      UInt64.ofNat_toNat]
  rw [parseStat, hfirst, hlast]
  simp only [if_neg hle, hname, splitWhitespace_rest, hparent, hstart, Option.map_some]

end StatFields

def forgedFields : StatFields where
  pid := 42
  comm := "evil) S 9 0".toList
  state := 'S'
  ppid := 1
  between := [42, 42, 0, -1, 0, 0, 0, 0, 0, 0, 0, 0, 0, 20, 0, 1, 0]
  startTime := 500
  after := [0, 0]
  terminated := true
  state_word := by decide
  state_ne := by decide
  between_length := rfl

example : forgedFields.text =
    "42 (evil) S 9 0) S 1 42 42 0 -1 0 0 0 0 0 0 0 0 0 20 0 1 0 500 0 0\n".toList := by
  decide +kernel

example : parseStat forgedFields.text = some ("evil) S 9 0".toList, some 1, 500) := by
  decide +kernel

end CyberSentinel.Processes
