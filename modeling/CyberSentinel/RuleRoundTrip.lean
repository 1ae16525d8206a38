import CyberSentinel.Drafts
import CyberSentinel.RuleScan
import Mathlib.Data.Bool.AllAny

/-!
# Rule texts as they are written

A value is written in quotes, with a backslash in front of each quote and each backslash and, where
the writer likes, in front of a semicolon. The parser gives the options back as they were written.
-/

namespace CyberSentinel.Rules

open Texts Numerals
open Evtx (trim parseU32)

inductive Escapes : Text → Text → Prop
  | nil : Escapes [] []
  | plain {c : Char} {text written : Text} : c ≠ '\\' → c ≠ '"' → Escapes text written →
      Escapes (c :: text) (c :: written)
  | escaped {c : Char} {text written : Text} : c = '"' ∨ c = ';' ∨ c = '\\' → Escapes text written →
      Escapes (c :: text) ('\\' :: c :: written)

def escape (semicolons : Bool) (text : Text) : Text :=
  text.flatMap fun c => if c = '"' ∨ c = '\\' ∨ c = ';' ∧ semicolons then ['\\', c] else [c]

theorem escapes_escape (semicolons : Bool) (text : Text) :
    Escapes text (escape semicolons text) := by
  induction text with
  | nil => exact .nil
  | cons c text ih =>
    rw [escape, List.flatMap_cons]
    split_ifs with hc
    · refine .escaped ?_ ih
      rcases hc with hquote | hslash | hend
      · exact .inl hquote
      · exact .inr (.inr hslash)
      · exact .inr (.inl hend.1)
    · exact .plain (fun hslash => hc (.inr (.inl hslash))) (fun hquote => hc (.inl hquote)) ih

theorem unescapeChars_escaped {text written : Text} (h : Escapes text written) :
    unescapeChars written = .ok text := by
  induction h with
  | nil => rfl
  | plain hslash hquote h ih =>
    rw [unescapeChars_cons _ hslash, ih]
    rfl
  | escaped hc h ih =>
    rw [unescapeChars_escape _ hc, ih]
    rfl

theorem unescape_quoted {text written : Text} (h : Escapes text written) :
    unescape ('"' :: (written ++ ['"'])) = .ok text := by
  simp only [unescape, List.getLast?_concat, if_true, List.dropLast_concat, unescapeChars_escaped h]

theorem scan_escaped {text written : Text} (h : Escapes text written) :
    scan true written = some true := by
  induction h with
  | nil => rfl
  | plain hslash hquote h ih =>
    rw [scan_cons _ hslash hquote (fun hend => Bool.noConfusion hend.2), ih]
  | escaped hc h ih => rw [scan_escape, ih]

def IsName (name : Text) : Prop :=
  (∀ c ∈ name, c ∉ scannedChars) ∧ trim name = name ∧ lowercase name = name

instance (name : Text) : Decidable (IsName name) :=
  decidable_of_iff ((name.all fun c => c ∉ scannedChars) = true ∧ trim name = name ∧
    lowercase name = name)
    (and_congr_left fun _ => List.all_iff_forall_prop)

structure WrittenOption where
  name : Text
  value : Text
  written : Text

namespace WrittenOption

structure Sound (o : WrittenOption) : Prop where
  name : IsName o.name
  escapes : Escapes o.value o.written

variable (o : WrittenOption)

def text : Text := o.name ++ ':' :: '"' :: (o.written ++ ['"'])

def raw : RawOption := ⟨o.name, some o.value, false⟩

end WrittenOption

def render (options : List WrittenOption) : Text := joinOptions (options.map WrittenOption.text)

theorem scan_text {o : WrittenOption} (h : o.Sound) : scan false o.text = some false := by
  have hname : scan false o.name = some false := scan_plain (fun c hc hmem => h.name.1 c hc (by
    simp only [scannedChars, List.mem_cons, List.not_mem_nil, or_false] at hmem ⊢
    rcases hmem with rfl | rfl | rfl <;> simp)) false
  rw [WrittenOption.text, scan_append hname, scan_cons _ (by decide) (by decide)
    (by decide), scan_quote,
    Bool.not_false, scan_append (scan_escaped h.escapes), scan_quote]
  rfl

theorem parseOption_text {o : WrittenOption} (h : o.Sound) :
    parseOption o.text = .ok (some o.raw) := by
  have hvalue : trim ('"' :: (o.written ++ ['"'])) = '"' :: (o.written ++ ['"']) := by
    refine Blanks.strip_eq_self (by simp; decide) fun c hc => ?_
    rw [← List.cons_append, List.getLast?_concat, Option.mem_some_iff] at hc
    rw [← hc]
    rfl
  have hbang : splitBang ('"' :: (o.written ++ ['"'])) = (false, '"' :: (o.written ++ ['"'])) :=
    splitBang_of_ne (by simp)
  rw [WrittenOption.text, parseOption_named h.name.1, hvalue, hbang,
    unescape_quoted h.escapes, h.name.2.1,
    h.name.2.2]
  rfl

theorem mapM_parseOption {options : List WrittenOption} (h : ∀ o ∈ options, o.Sound) :
    (options.map WrittenOption.text).mapM parseOption = .ok (options.map fun o => some o.raw) := by
  induction options with
  | nil => rfl
  | cons o options ih =>
    rw [List.map_cons, List.mapM_cons, parseOption_text (h o List.mem_cons_self),
      ih fun other hother => h other (List.mem_cons_of_mem _ hother)]
    rfl

theorem parseOptions_render {options : List WrittenOption} (h : ∀ o ∈ options, o.Sound) :
    parseOptions (render options) = .ok (options.map WrittenOption.raw) := by
  have hchunks : ∀ chunk ∈ options.map WrittenOption.text, scan false chunk = some false := by
    intro chunk hchunk
    obtain ⟨o, ho, rfl⟩ := List.mem_map.1 hchunk
    exact scan_text (h o ho)
  have hsplit := splitOptionsFrom_joinOptions hchunks []
  rw [List.append_nil] at hsplit
  have hempty : splitOptionsFrom [] false [] = .ok [] := rfl
  have hlist : splitOptionList (render options) = .ok (options.map WrittenOption.text) := by
    rw [splitOptionList, render, hsplit, hempty]
    exact congrArg Except.ok (List.append_nil _)
  have hreduce : (options.map fun o => some o.raw).reduceOption =
      options.map WrittenOption.raw := by
    show List.filterMap id (options.map fun o => some o.raw) = _
    rw [List.filterMap_map]
    exact congrFun List.filterMap_eq_map options
  rw [parseOptions, hlist]
  show ((options.map WrittenOption.text).mapM parseOption >>= fun parsed =>
    pure parsed.reduceOption) = _
  rw [mapM_parseOption h]
  exact congrArg Except.ok hreduce

theorem buildRule_msg {header : RuleHeader} {options : List RawOption} {raw : Text}
    {rule : ParsedRule}
    (h : buildRule header options raw = .ok rule) {value : Text} {negated : Bool}
    (hmem : ⟨"msg".toList, some value, negated⟩ ∈ options) : rule.msg = String.ofList value := by
  obtain ⟨draft, hdraft, hfinish⟩ := bind_eq_ok.1 h
  obtain ⟨text, htext, hmsg⟩ := readOptions_msg hdraft hmem rfl
  rw [Draft.finish, hmsg] at hfinish
  cases hsid : draft.sid with
  | none =>
    rw [hsid] at hfinish
    exact absurd hfinish (by simp)
  | some sid =>
    rw [hsid] at hfinish
    rw [← Except.ok.inj hfinish, Option.some.inj htext]

theorem parseU32_toDigits (n : UInt32) : parseU32 (Nat.toDigits 10 n.toNat) = some n := by
  rw [parseU32, parseNumber_toDigits n.toNat_lt, Option.map_some, UInt32.ofNat_toNat]

theorem trim_toDigits (n : ℕ) : trim (Nat.toDigits 10 n) = Nat.toDigits 10 n := by
  have hdigit : ∀ c ∈ Nat.toDigits 10 n, isWhitespace c = false := by
    intro c hc
    obtain ⟨d, hd, rfl⟩ := mem_toDigits (by decide) hc
    interval_cases d <;> rfl
  exact Blanks.strip_eq_self (fun c hc => hdigit c (List.mem_of_mem_head? hc))
    fun c hc => hdigit c (List.mem_of_mem_getLast? hc)

theorem readOption_sid_ok {d : Draft} (hsid : d.sid = none) (sid : UInt32) (negated : Bool) :
    readOption d ⟨"sid".toList, some (Nat.toDigits 10 sid.toNat), negated⟩ =
      .ok { d with sid := some sid } := by
  have hk : Keyword.read "sid".toList = some .sid := rfl
  simp only [readOption, hk, hsid, rejectDuplicate, parseU32Option, requireValue, ok_bind,
    trim_toDigits,
    parseU32_toDigits, Option.isSome_none, Bool.false_eq_true, if_false]
  rfl

/-- The options of a rule with nothing but a message and a signature id. -/
def messageOptions (value written : Text) (sid : UInt32) : List WrittenOption :=
  [⟨"msg".toList, value, written⟩,
    ⟨"sid".toList, Nat.toDigits 10 sid.toNat, Nat.toDigits 10 sid.toNat⟩]

theorem escapes_toDigits (n : ℕ) : Escapes (Nat.toDigits 10 n) (Nat.toDigits 10 n) := by
  have hdigit : ∀ c ∈ Nat.toDigits 10 n, c ≠ '\\' ∧ c ≠ '"' := by
    intro c hc
    obtain ⟨d, hd, rfl⟩ := mem_toDigits (by decide) hc
    interval_cases d <;> decide
  generalize Nat.toDigits 10 n = digits at hdigit
  induction digits with
  | nil => exact .nil
  | cons c digits ih =>
    have hc := hdigit c List.mem_cons_self
    exact .plain hc.1 hc.2 (ih fun d hd => hdigit d (List.mem_cons_of_mem _ hd))

theorem messageOptions_sound {value written : Text} (h : Escapes value written) (sid : UInt32) :
    ∀ o ∈ messageOptions value written sid, o.Sound := by
  intro o ho
  rcases List.mem_cons.1 ho with rfl | ho
  · exact ⟨show IsName "msg".toList by decide, h⟩
  · rw [List.mem_singleton] at ho
    subst ho
    exact ⟨show IsName "sid".toList by decide, escapes_toDigits _⟩

theorem readOptions_message {d : Draft} (hmsg : d.msg = none) (hsid : d.sid = none) {value : Text}
    (hblank : trim value ≠ []) (written : Text) (sid : UInt32) :
    ((messageOptions value written sid).map WrittenOption.raw).foldlM readOption d =
      .ok { d with msg := some (String.ofList value), sid := some sid } := by
  rw [messageOptions, List.map_cons, List.foldlM_cons]
  have hfirst := readOption_msg_ok hmsg hblank false
  have hsecond := readOption_sid_ok (d := d.withMsg (some (String.ofList value))) hsid sid false
  rw [WrittenOption.raw, hfirst, ok_bind, List.map_singleton, List.foldlM_cons,
    WrittenOption.raw, hsecond]
  rfl

/-- Options that are written in quotes are read back as they are, none of them negated, and the
message of a rule is the one that was written. -/
theorem written_options_read_back {options : List WrittenOption} (h : ∀ o ∈ options, o.Sound) :
    parseOptions (render options) = .ok (options.map WrittenOption.raw) ∧
      ∀ header rest : Text, '(' ∉ header → ')' ∉ rest →
        (∀ rule, parseRule (header ++ '(' :: (render options ++ ')' :: rest)) = .ok rule →
          ∀ o ∈ options, o.name = "msg".toList → rule.msg = String.ofList o.value) ∧
        ∀ parsed, parseHeader header = .ok parsed →
          ∀ value written, Escapes value written → trim value ≠ [] → ∀ sid, ∃ rule,
            parseRule (header ++ '(' ::
              (render (messageOptions value written sid) ++ ')' :: rest)) = .ok rule ∧
              rule.msg = String.ofList value := by
  refine ⟨parseOptions_render h, fun header rest hopen hclose => ⟨?_, ?_⟩⟩
  · intro rule hrule o ho hname
    rw [parseRule_block hopen hclose, parseOptions_render h] at hrule
    obtain ⟨parsed, _, hbuild⟩ := bind_eq_ok.1 hrule
    have hmem : ⟨"msg".toList, some o.value, false⟩ ∈ options.map WrittenOption.raw :=
      List.mem_map.2 ⟨o, ho, by rw [WrittenOption.raw, hname]⟩
    exact buildRule_msg hbuild hmem
  · intro parsed hparsed value written hwritten hblank sid
    rw [parseRule_block hopen hclose, hparsed,
      parseOptions_render (messageOptions_sound hwritten sid)]
    rw [ok_bind, ok_bind, buildRule, readOptions_message rfl rfl hblank]
    exact ⟨_, rfl, rfl⟩

/-- Every structural character in one value, and the message read out of the rule. -/
def structuralOptions : List WrittenOption :=
  messageOptions "! a;b:(\"\\)".toList (escape true "! a;b:(\"\\)".toList) 7

theorem written_options_read_back_structural :
    parseOptions (render structuralOptions) = .ok (structuralOptions.map WrittenOption.raw) ∧
      ∃ rule, parseRule ("alert tcp any any -> any any ".toList ++
          '(' :: (render structuralOptions ++ [')'])) = .ok rule ∧
        rule.msg = "! a;b:(\"\\)" :=
  have hall := written_options_read_back
    (messageOptions_sound (escapes_escape true "! a;b:(\"\\)".toList) 7)
  ⟨hall.1, (hall.2 "alert tcp any any -> any any ".toList [] (by decide) (by decide)).2 _ rfl _ _
    (escapes_escape true _) (by decide) 7⟩

end CyberSentinel.Rules
