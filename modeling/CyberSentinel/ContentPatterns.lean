import CyberSentinel.RuleRoundTrip

/-!
# Patterns as they are written

A pattern is written in literal characters and in hex sections between bars, two digits a byte and
blanks anywhere. It is read back byte for byte, and what is no such writing is refused.
-/

namespace CyberSentinel.Rules

open Texts Numerals
open Evtx (trim)

def IsHexDigit (c : Char) (value : ℕ) : Prop := isDigitIn 16 c = true ∧ digitValue c = value

section Spells

variable (blank : Char → Bool)

inductive SpellsHex : List UInt8 → Text → Prop
  | nil {blanks : Text} : (∀ c ∈ blanks, blank c = true) → SpellsHex [] blanks
  | cons {b : UInt8} {bytes : List UInt8} {blanks between text : Text} {high low : Char} :
      (∀ c ∈ blanks, blank c = true) → (∀ c ∈ between, blank c = true) →
      IsHexDigit high (b.toNat / 16) → IsHexDigit low (b.toNat % 16) → SpellsHex bytes text →
      SpellsHex (b :: bytes) (blanks ++ high :: (between ++ low :: text))

/-- The text writes the bytes: printable characters as they are, sections for any of the bytes. -/
inductive Spells : List UInt8 → Text → Prop
  | nil : Spells [] []
  | literal {b : UInt8} {bytes : List UInt8} {c : Char} {text : Text} : c.toNat = b.toNat →
      0x20 ≤ c.toNat → c.toNat ≤ 0x7e → c ≠ '|' → Spells bytes text →
        Spells (b :: bytes) (c :: text)
  | hex {bytes others : List UInt8} {digits text : Text} : SpellsHex blank bytes digits →
      Spells others text → Spells (bytes ++ others) ('|' :: (digits ++ '|' :: text))

end Spells

theorem readPattern_blanks {blanks : Text} (h : ∀ c ∈ blanks, isAsciiWhitespace c = true)
    (nibble : Option ℕ) (rest : Text) :
    readPattern true nibble (blanks ++ rest) = readPattern true nibble rest := by
  induction blanks with
  | nil => rfl
  | cons c blanks ih =>
    rw [List.cons_append, readPattern_blank _ _ (h c List.mem_cons_self),
      ih fun d hd => h d (List.mem_cons_of_mem _ hd)]

theorem readPattern_spellsHex {bytes : List UInt8} {digits : Text}
    (h : SpellsHex isAsciiWhitespace bytes digits)
    (rest : Text) :
    readPattern true none (digits ++ '|' :: rest) =
      (readPattern false none rest).map (bytes ++ ·) := by
  induction h with
  | nil hblanks =>
    rw [readPattern_blanks hblanks, readPattern_close]
    cases readPattern false none rest <;> rfl
  | @cons b bytes blanks between text high low hblanks hbetween hhigh hlow h ih =>
    have hbyte : UInt8.ofNat (b.toNat / 16 * 16 + b.toNat % 16) = b := by
      rw [Nat.div_add_mod', UInt8.ofNat_toNat]
    rw [List.append_assoc, readPattern_blanks hblanks, List.cons_append,
      readPattern_digit _ _ hhigh.1,
      List.append_assoc, readPattern_blanks hbetween, List.cons_append,
      readPattern_digit _ _ hlow.1,
      hhigh.2, hlow.2, ih]
    dsimp only
    rw [hbyte]
    cases readPattern false none rest <;> rfl

theorem parseContentPattern_spells {bytes : List UInt8} {text : Text}
    (h : Spells isAsciiWhitespace bytes text) :
    parseContentPattern text = .ok bytes := by
  rw [parseContentPattern]
  induction h with
  | nil => rfl
  | @literal b bytes c text hsame hlow hhigh hbar h ih =>
    rw [readPattern_literal _ _ hbar (by omega), ih, hsame, UInt8.ofNat_toNat]
    rfl
  | hex hdigits h ih =>
    rw [readPattern_open, readPattern_spellsHex hdigits, ih]
    rfl

/-- A section with a character that is no hex digit and no blank, or with a half of a byte. -/
def BadSection (piece : Text) : Prop :=
  (∃ c ∈ piece, isDigitIn 16 c = false ∧ isAsciiWhitespace c = false) ∨
    piece.countP (isDigitIn 16) % 2 = 1

def BadLiteral (piece : Text) : Prop := ∃ c ∈ piece, 0x80 ≤ c.toNat

/-- The pieces between the bars are literals and sections in turn. One of them is bad, or the last
is a section that is not closed. -/
def MalformedFrom : (inHex : Bool) → List Text → Prop
  | _, [] => False
  | false, piece :: pieces => BadLiteral piece ∨ MalformedFrom true pieces
  | true, piece :: pieces => pieces = [] ∨ BadSection piece ∨ MalformedFrom false pieces

def Malformed (text : Text) : Prop := MalformedFrom false (text.splitOn '|')

theorem refused_literal {piece : Text} (hbar : '|' ∉ piece) (rest : Text) :
    Refused (readPattern false none (piece ++ rest)) ↔
      BadLiteral piece ∨ Refused (readPattern false none rest) := by
  induction piece with
  | nil => simp [BadLiteral]
  | cons c piece ih =>
    rw [List.mem_cons, not_or] at hbar
    by_cases hc : c.toNat < 0x80
    · rw [List.cons_append, readPattern_literal _ _ (Ne.symm hbar.1) hc, refused_map, ih hbar.2]
      have hascii : ¬0x80 ≤ c.toNat := by omega
      simp [BadLiteral, hascii]
    · have herror : readPattern false none (c :: (piece ++ rest)) = .error (.nonAscii c) := by
        rw [readPattern.eq_def]
        simp only [if_neg (Ne.symm hbar.1), if_neg hc, if_true]
      rw [List.cons_append, herror]
      exact ⟨fun _ => .inl ⟨c, List.mem_cons_self, Nat.le_of_not_lt hc⟩, fun _ => refused_error _⟩

/-- Reading a section up to its bar, with the digits in hand counted. -/
theorem refused_section {piece : Text} (hbar : '|' ∉ piece) (nibble : Option ℕ) (rest : Text) :
    Refused (readPattern true nibble (piece ++ '|' :: rest)) ↔
      ((∃ c ∈ piece, isDigitIn 16 c = false ∧ isAsciiWhitespace c = false) ∨
        (nibble.toList.length + piece.countP (isDigitIn 16)) % 2 = 1) ∨
      Refused (readPattern false none rest) := by
  induction piece generalizing nibble with
  | nil =>
    cases nibble with
    | none => simp [readPattern_close]
    | some high => simp [readPattern]
  | cons c piece ih =>
    rw [List.mem_cons, not_or] at hbar
    rw [List.cons_append]
    by_cases hdigit : isDigitIn 16 c = true
    · rw [readPattern_digit _ _ hdigit]
      cases nibble with
      | none =>
        dsimp only
        rw [ih hbar.2]
        simp [hdigit, add_comm]
      | some high =>
        dsimp only
        rw [refused_map, ih hbar.2]
        have hparity : (1 + (piece.countP (isDigitIn 16) + 1)) % 2 =
            piece.countP (isDigitIn 16) % 2 := by
          omega
        simp [hdigit, hparity]
    · have hdigit := Bool.eq_false_iff.2 hdigit
      by_cases hblank : isAsciiWhitespace c = true
      · rw [readPattern_blank _ _ hblank, ih hbar.2]
        simp [hdigit, hblank]
      · have hblank := Bool.eq_false_iff.2 hblank
        rw [readPattern_notHex _ _ (Ne.symm hbar.1) hblank hdigit]
        simp [hdigit, hblank]

theorem refused_open_section {piece : Text} (hbar : '|' ∉ piece) (nibble : Option ℕ) :
    Refused (readPattern true nibble piece) := by
  induction piece generalizing nibble with
  | nil => exact refused_error _
  | cons c piece ih =>
    rw [List.mem_cons, not_or] at hbar
    by_cases hdigit : isDigitIn 16 c = true
    · rw [readPattern_digit _ _ hdigit]
      cases nibble with
      | none => exact ih hbar.2 _
      | some high => exact refused_map.2 (ih hbar.2 _)
    · by_cases hblank : isAsciiWhitespace c = true
      · rw [readPattern_blank _ _ hblank]
        exact ih hbar.2 _
      · rw [readPattern_notHex _ _ (Ne.symm hbar.1) (Bool.eq_false_iff.2 hblank)
          (Bool.eq_false_iff.2 hdigit)]
        exact refused_error _

theorem refused_iff_malformedFrom (inHex : Bool) (text : Text) :
    Refused (readPattern inHex none text) ↔ MalformedFrom inHex (text.splitOn '|') := by
  induction hlength : text.length using Nat.strong_induction_on generalizing inHex text with
  | h n ih =>
    by_cases hbar : '|' ∈ text
    · obtain ⟨piece, rest, rfl, hpiece⟩ := List.eq_append_cons_of_mem hbar
      have hrest := fun inHex => ih rest.length (by rw [← hlength]; simp; omega) inHex rest rfl
      have hne : rest.splitOn '|' ≠ [] := List.splitOn_ne_nil _ _
      rw [List.splitOn_append_cons_self_of_not_mem hpiece]
      cases inHex with
      | false =>
        rw [refused_literal hpiece, readPattern_open, hrest true, MalformedFrom]
      | true =>
        rw [refused_section hpiece, hrest false, MalformedFrom]
        simp [hne, BadSection]
    · rw [List.splitOn_eq_singleton hbar]
      cases inHex with
      | false =>
        have hliteral := refused_literal hbar []
        rw [List.append_nil] at hliteral
        rw [hliteral, MalformedFrom, MalformedFrom]
        exact or_congr_right ⟨fun h => absurd h (not_refused_ok []), False.elim⟩
      | true => exact ⟨fun _ => .inl rfl, fun _ => refused_open_section hbar none⟩

theorem parseContentPattern_refused_iff (text : Text) :
    Refused (parseContentPattern text) ↔ Malformed text :=
  refused_iff_malformedFrom false text

def contentOption (text written : Text) : WrittenOption := ⟨"content".toList, text, written⟩

theorem readOption_content {value : Text} {pattern : List UInt8}
    (h : parseContentPattern value = .ok pattern) (hne : pattern ≠ []) (negated : Bool)
    (d : Draft) :
    readOption d ⟨"content".toList, some value, negated⟩ =
      .ok (d.push (.content { pattern, buffer := d.buffer, negated })) := by
  have hk : Keyword.read "content".toList = some .content := rfl
  simp only [readOption, hk, requireValue, ok_bind, h, Except.mapError, if_neg hne]
  rfl

theorem readOption_malformed {o : RawOption} (hk : Keyword.read o.name = some .content)
    {text : Text}
    (hvalue : o.value = some text) (h : Malformed text) (d : Draft) : Refused (readOption d o) := by
  obtain ⟨name, value, negated⟩ := o
  subst hvalue
  obtain ⟨reason, hreason⟩ := (parseContentPattern_refused_iff text).2 h
  simp only [readOption, hk, requireValue, ok_bind, hreason, Except.mapError]
  exact refused_error _

/-- Whatever way a pattern is written, the option holds its bytes, and a malformed one refuses the
rule. -/
theorem patterns_read_back :
    (∀ (bytes : List UInt8) (text written : Text), bytes ≠ [] →
      Spells isAsciiWhitespace bytes text → Escapes text written →
      (∃ raw, parseOption (contentOption text written).text = .ok (some raw) ∧
        ∀ d, readOption d raw = .ok (d.push (.content { pattern := bytes, buffer := d.buffer }))) ∧
      ∀ header rest parsed, '(' ∉ header → ')' ∉ rest → parseHeader header = .ok parsed →
        ∀ message writtenMessage sid, Escapes message writtenMessage → trim message ≠ [] → ∃ rule,
          parseRule (header ++ '(' :: (render (contentOption text written ::
            messageOptions message writtenMessage sid) ++ ')' :: rest)) = .ok rule ∧
          rule.options = [.content { pattern := bytes }]) ∧
      ∀ header body rest options, '(' ∉ header → ')' ∉ rest → parseOptions body = .ok options →
        ∀ o ∈ options, Keyword.read o.name = some .content → ∀ text, o.value = some text →
          Malformed text → Refused (parseRule (header ++ '(' :: (body ++ ')' :: rest))) := by
  refine ⟨fun bytes text written hne hspells hescapes => ?_, ?_⟩
  · have hsound : (contentOption text written).Sound :=
      ⟨show IsName "content".toList by decide, hescapes⟩
    have hcontent (d : Draft) : readOption d (contentOption text written).raw =
        .ok (d.push (.content { pattern := bytes, buffer := d.buffer })) :=
      readOption_content (parseContentPattern_spells hspells) hne false d
    refine ⟨⟨_, parseOption_text hsound, hcontent⟩, ?_⟩
    intro header rest parsed hopen hclose hparsed message writtenMessage sid hmessage hblank
    have hall : ∀ o ∈ contentOption text written :: messageOptions message writtenMessage sid,
        o.Sound :=
      List.forall_mem_cons.2 ⟨hsound, messageOptions_sound hmessage sid⟩
    rw [parseRule_block hopen hclose, hparsed, parseOptions_render hall, ok_bind,
      ok_bind, buildRule,
      List.map_cons, List.foldlM_cons, hcontent, ok_bind, readOptions_message rfl rfl hblank]
    exact ⟨_, rfl, rfl⟩
  · intro header body rest options hopen hclose hoptions o ho hk text hvalue hmalformed
    rw [parseRule_block hopen hclose, hoptions]
    cases parseHeader header with
    | error e => exact refused_error e
    | ok parsed =>
      obtain ⟨e, he⟩ := readOptions_refused ho (readOption_malformed hk hvalue hmalformed) {}
      refine ⟨e, ?_⟩
      show (options.foldlM readOption {} >>= fun draft => draft.finish parsed _) = _
      rw [he]
      rfl

theorem spellsHex_return : SpellsHex isAsciiWhitespace [0x0d] "0 d".toList := by
  show SpellsHex isAsciiWhitespace [0x0d] ([] ++ '0' :: ([' '] ++ 'd' :: []))
  exact .cons (by simp) (List.forall_mem_singleton.2 rfl) ⟨rfl, rfl⟩ ⟨rfl, rfl⟩ (.nil (by simp))

theorem spells_mixed : Spells isAsciiWhitespace [0x47, 0x0d, 0x22] "G|0 d|\"".toList := by
  show Spells isAsciiWhitespace (0x47 :: ([0x0d] ++ [0x22]))
      ('G' :: '|' :: ("0 d".toList ++ '|' :: ['"']))
  refine .literal rfl (by decide) (by decide) (by decide) (.hex spellsHex_return ?_)
  exact .literal rfl (by decide) (by decide) (by decide) .nil

theorem parseOptions_halfByte : parseOptions "content:\"|4|\";".toList =
    .ok [⟨"content".toList, some "|4|".toList, false⟩] := by decide +kernel

/-- A literal, a section and a quote in one pattern, and a section that ends within a byte. -/
theorem patterns_read_back_mixed :
    (∃ raw, parseOption (contentOption "G|0 d|\"".toList "G|0 d|\\\"".toList).text =
    .ok (some raw) ∧
      ∀ d, readOption d raw =
        .ok (d.push (.content { pattern := [0x47, 0x0d, 0x22], buffer := d.buffer }))) ∧
      Refused (parseRule ("alert tcp any any -> any any ".toList ++
        '(' :: ("content:\"|4|\";".toList ++ ')' :: []))) :=
  ⟨(patterns_read_back.1 _ _ _ (by decide) spells_mixed (escapes_escape false _)).1,
    patterns_read_back.2 _ _ _ _ (by decide)
    (by decide) parseOptions_halfByte _ List.mem_cons_self rfl _ rfl
      (.inr (.inr (.inl (.inr rfl))))⟩

theorem spellsHex_noBreakSpace : SpellsHex isWhitespace [0x41, 0x42] "41\u00a042".toList := by
  show SpellsHex isWhitespace [0x41, 0x42]
      ([] ++ '4' :: ([] ++ '1' :: (['\u00a0'] ++ '4' :: ([] ++ '2' :: []))))
  refine .cons (by simp) (by simp) ⟨rfl, rfl⟩ ⟨rfl, rfl⟩ ?_
  exact .cons (List.forall_mem_singleton.2 rfl) (by simp) ⟨rfl, rfl⟩ ⟨rfl, rfl⟩ (.nil (by simp))

/-- A blank that is not ASCII is refused in a section. -/
theorem noBreakSpace_refused :
    Spells isWhitespace [0x41, 0x42] "|41\u00a042|".toList ∧
      ∃ raw, parseOption (contentOption "|41\u00a042|".toList "|41\u00a042|".toList).text =
        .ok (some raw) ∧
        ∀ d, Refused (readOption d raw) := by
  have hmalformed : Malformed "|41\u00a042|".toList :=
    .inr (.inr (.inl (.inl ⟨'\u00a0', by decide, rfl, rfl⟩)))
  have hsound : (contentOption "|41\u00a042|".toList "|41\u00a042|".toList).Sound :=
    ⟨show IsName "content".toList by decide, escapes_escape false _⟩
  exact ⟨.hex spellsHex_noBreakSpace .nil, _, parseOption_text hsound,
    readOption_malformed rfl rfl hmalformed⟩

end CyberSentinel.Rules
