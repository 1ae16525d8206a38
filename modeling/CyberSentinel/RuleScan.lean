import CyberSentinel.Blanks
import CyberSentinel.RuleParser
import Mathlib.Data.List.ReduceOption

/-!
# Where options end

The three scanners of an option block agree on which characters stand in quotes and which behind a
backslash. `scan` follows them over a text in which no option ends; a block falls into its options
at the semicolons in between, and a rule into its header and its block at the outer parentheses.
-/

namespace CyberSentinel.Rules

open Texts
open Evtx (trim)

theorem trim_eq_strip (text : Text) : trim text = Blanks.strip isWhitespace text := rfl

/-- Whether the text ends in quotes, if no option ends in it and no escape is cut off. -/
def scan : (inQuotes : Bool) → Text → Option Bool
  | inQuotes, [] => some inQuotes
  | inQuotes, c :: rest =>
    if c = '\\' then
      match rest with
      | [] => none
      | _ :: rest => scan inQuotes rest
    else if c = '"' then scan (!inQuotes) rest
    else if c = ';' ∧ inQuotes = false then none
    else scan inQuotes rest

section Scan

variable (q : Bool) (rest : Text)

theorem scan_escape (c : Char) : scan q ('\\' :: c :: rest) = scan q rest := by
  rw [scan.eq_def]
  simp

theorem scan_quote : scan q ('"' :: rest) = scan (!q) rest := by
  rw [scan.eq_def]
  simp

variable {q}

theorem scan_end {c : Char} (hslash : c ≠ '\\') (hquote : c ≠ '"') (hend : c = ';' ∧ q = false) :
    scan q (c :: rest) = none := by
  rw [scan.eq_def]
  simp only [if_neg hslash, if_neg hquote, if_pos hend]

theorem scan_cons {c : Char} (hslash : c ≠ '\\') (hquote : c ≠ '"')
    (hend : ¬(c = ';' ∧ q = false)) :
    scan q (c :: rest) = scan q rest := by
  rw [scan.eq_def]
  simp only [if_neg hslash, if_neg hquote, if_neg hend]

end Scan

theorem splitOptionsFrom_scan {q q' : Bool} {text : Text} (h : scan q text = some q')
    (current rest : Text) :
    splitOptionsFrom current q (text ++ rest) = splitOptionsFrom (current ++ text) q' rest := by
  induction q, text using scan.induct generalizing current with
  | case1 q =>
    rw [scan, Option.some.injEq] at h
    rw [h, List.nil_append, List.append_nil]
  | case2 q => simp [scan] at h
  | case3 q c text ih =>
    rw [scan_escape] at h
    rw [List.cons_append, List.cons_append, splitOptionsFrom_escape, ih h, List.append_assoc]
    rfl
  | case4 q text hslash ih =>
    rw [scan_quote] at h
    rw [List.cons_append, splitOptionsFrom_quote, ih h, List.append_assoc]
    rfl
  | case5 q c text hslash hquote hend =>
    rw [scan_end _ hslash hquote hend] at h
    exact absurd h (by simp)
  | case6 q c text hslash hquote hend ih =>
    rw [scan_cons _ hslash hquote hend] at h
    rw [List.cons_append, splitOptionsFrom_cons _ _ hslash hquote hend, ih h, List.append_assoc]
    rfl

theorem scan_append {q q' : Bool} {text : Text} (h : scan q text = some q') (rest : Text) :
    scan q (text ++ rest) = scan q' rest := by
  induction q, text using scan.induct with
  | case1 q =>
    rw [scan, Option.some.injEq] at h
    rw [h, List.nil_append]
  | case2 q => simp [scan] at h
  | case3 q c text ih =>
    rw [scan_escape] at h
    rw [List.cons_append, List.cons_append, scan_escape, ih h]
  | case4 q text hslash ih =>
    rw [scan_quote] at h
    rw [List.cons_append, scan_quote, ih h]
  | case5 q c text hslash hquote hend =>
    rw [scan_end _ hslash hquote hend] at h
    exact absurd h (by simp)
  | case6 q c text hslash hquote hend ih =>
    rw [scan_cons _ hslash hquote hend] at h
    rw [List.cons_append, scan_cons _ hslash hquote hend, ih h]

def scannedChars : List Char := ['\\', '"', ';', ':']

theorem scan_plain {text : Text} (h : ∀ c ∈ text, c ∉ ['\\', '"', ';']) (q : Bool) :
    scan q text = some q := by
  induction text with
  | nil => rfl
  | cons c text ih =>
    have hc := h c List.mem_cons_self
    simp only [List.mem_cons, List.not_mem_nil, or_false, not_or] at hc
    rw [scan_cons _ hc.1 hc.2.1 fun hend => hc.2.2 hend.1]
    exact ih fun d hd => h d (List.mem_cons_of_mem _ hd)

def joinOptions (chunks : List Text) : Text := chunks.flatMap fun chunk => chunk ++ [';']

theorem splitOptionsFrom_joinOptions {chunks : List Text}
    (h : ∀ chunk ∈ chunks, scan false chunk = some false) (rest : Text) :
    splitOptionsFrom [] false (joinOptions chunks ++ rest) =
      (splitOptionsFrom [] false rest).map (chunks ++ ·) := by
  induction chunks with
  | nil =>
    simp only [joinOptions, List.flatMap_nil, List.nil_append]
    cases splitOptionsFrom [] false rest <;> rfl
  | cons chunk chunks ih =>
    have hsplit : joinOptions (chunk :: chunks) ++ rest =
        chunk ++ ';' :: (joinOptions chunks ++ rest) := by simp [joinOptions]
    rw [hsplit, splitOptionsFrom_scan (h chunk List.mem_cons_self), List.nil_append,
      splitOptionsFrom_end,
      ih fun other hother => h other (List.mem_cons_of_mem _ hother)]
    cases splitOptionsFrom [] false rest <;> rfl

theorem splitNameValue_name {name : Text} (h : ∀ c ∈ name, c ∉ scannedChars) (value : Text) :
    splitNameValue (name ++ ':' :: value) = some (name, value) := by
  rw [splitNameValue]
  induction name with
  | nil => rfl
  | cons c name ih =>
    have hc := h c List.mem_cons_self
    simp only [scannedChars, List.mem_cons, List.not_mem_nil, or_false, not_or] at hc
    rw [List.cons_append, splitNameValueFrom, if_neg (by simp), if_neg hc.1, if_neg hc.2.1,
      if_neg (fun hend => hc.2.2.2 hend.1), ih fun d hd => h d (List.mem_cons_of_mem _ hd)]
    rfl

theorem trim_append_ne_nil {text : Text} (h : trim text ≠ []) (rest : Text) :
    trim (text ++ rest) ≠ [] := by
  intro hnil
  rw [trim_eq_strip, Blanks.strip_eq_nil_iff] at hnil
  exact h (Blanks.strip_eq_nil_iff.2 fun c hc => hnil c (List.mem_append_left _ hc))

/-- What follows the beginning of an option is the rest of that option, up to a semicolon, and the
others. Or it is refused, whatever the beginning. -/
def EndsOption (q : Bool) (text : Text) : Prop :=
  (∃ e, ∀ current, trim current ≠ [] → splitOptionsFrom current q text = .error e) ∨
    ∃ tail more rest, text = tail ++ rest ∧ (∀ c ∈ rest.head?, c = ';') ∧
      ∀ current, trim current ≠ [] →
      splitOptionsFrom current q text = .ok ((current ++ tail) :: more)

theorem EndsOption.add {q q' : Bool} {added text : Text} (h : EndsOption q' text)
    (hadd : ∀ current,
      splitOptionsFrom current q (added ++ text) = splitOptionsFrom (current ++ added) q' text) :
    EndsOption q (added ++ text) := by
  rcases h with ⟨e, he⟩ | ⟨tail, more, rest, rfl, hrest, hok⟩
  · exact .inl ⟨e, fun current hcurrent =>
      (hadd current).trans (he _ (trim_append_ne_nil hcurrent _))⟩
  · refine .inr ⟨added ++ tail, more, rest, by
      rw [List.append_assoc], hrest, fun current hcurrent => ?_⟩
    rw [hadd, hok _ (trim_append_ne_nil hcurrent _), List.append_assoc]

theorem endsOption (q : Bool) (text : Text) : EndsOption q text := by
  induction q, text using scan.induct with
  | case1 q =>
    cases q with
    | true => exact .inl ⟨_, fun _ _ => rfl⟩
    | false =>
      refine .inr ⟨[], [], [], rfl, by simp, fun current hcurrent => ?_⟩
      rw [splitOptionsFrom, if_neg (by decide), if_neg hcurrent, List.append_nil]
  | case2 q => exact .inl ⟨.unterminatedString, fun current _ => by simp [splitOptionsFrom]⟩
  | case3 q c text ih =>
    show EndsOption q (['\\', c] ++ text)
    exact ih.add fun current => splitOptionsFrom_escape current q text c
  | case4 q text hslash ih =>
    show EndsOption q (['"'] ++ text)
    exact ih.add fun current => splitOptionsFrom_quote current q text
  | case5 q c text hslash hquote hend =>
    obtain ⟨rfl, rfl⟩ := hend
    cases hmore : splitOptionsFrom [] false text with
    | error e =>
      refine .inl ⟨e, fun current _ => ?_⟩
      rw [splitOptionsFrom_end, hmore]
      rfl
    | ok more =>
      refine .inr ⟨[], more, ';' :: text, rfl, by simp, fun current _ => ?_⟩
      rw [splitOptionsFrom_end, hmore, List.append_nil]
      rfl
  | case6 q c text hslash hquote hend ih =>
    show EndsOption q ([c] ++ text)
    exact ih.add fun current => splitOptionsFrom_cons current text hslash hquote hend

theorem parseOption_named {name : Text} (h : ∀ c ∈ name, c ∉ scannedChars) (value : Text) :
    parseOption (name ++ ':' :: value) =
      (unescape (splitBang (trim value)).2).map fun text =>
        some ⟨lowercase (trim name), some text, (splitBang (trim value)).1⟩ := by
  have hchunk : trim (name ++ ':' :: value) =
      name.dropWhile isWhitespace ++ ':' :: value.rdropWhile isWhitespace := by
    rw [trim_eq_strip, Blanks.strip_append_cons (by decide)]
  have hname : trim (name.dropWhile isWhitespace) = trim name := Blanks.strip_dropWhile name
  have hvalue : trim (value.rdropWhile isWhitespace) = trim value := Blanks.strip_rdropWhile value
  have hsplit := splitNameValue_name (fun c hc =>
    h c ((List.dropWhile_suffix isWhitespace).subset hc))
    (value.rdropWhile isWhitespace)
  simp only [parseOption, hchunk]
  rw [if_neg (by simp), hsplit]
  simp only [hname, hvalue]
  rfl

theorem parseOptions_pieces {body chunk : Text} {before more : List Text}
    (h : splitOptionList body = .ok (before ++ chunk :: more)) :
    parseOptions body = before.mapM parseOption >>= fun front => parseOption chunk >>= fun option =>
      more.mapM parseOption >>= fun back =>
        .ok (front.reduceOption ++ (option.toList ++ back.reduceOption)) := by
  rw [parseOptions, h]
  show ((before ++ chunk :: more).mapM parseOption >>= fun parsed => pure parsed.reduceOption) = _
  rw [List.mapM_append]
  cases before.mapM parseOption with
  | error e => rfl
  | ok front =>
    rw [List.mapM_cons]
    cases parseOption chunk with
    | error e => rfl
    | ok option =>
      cases more.mapM parseOption with
      | error e => rfl
      | ok back =>
        have hreduce : (front ++ option :: back).reduceOption =
            front.reduceOption ++ (option.toList ++ back.reduceOption) := by
          rw [List.reduceOption_append]
          cases option <;> rfl
        exact congrArg Except.ok hreduce

theorem splitWhitespace_dropWhile (text : Text) :
    splitWhitespace (text.dropWhile isWhitespace) = splitWhitespace text := by
  induction text with
  | nil => rfl
  | cons c text ih =>
    by_cases hc : isWhitespace c = true
    · have hempty := splitWhitespace_append hc [] text
      rw [List.nil_append, splitWhitespace_nil, List.nil_append] at hempty
      rw [List.dropWhile_cons_of_pos hc, ih, hempty]
    · rw [List.dropWhile_cons_of_neg hc]

theorem splitBlock_append {header body rest : Text} (hopen : '(' ∉ header) (hclose : ')' ∉ rest) :
    splitBlock (header ++ '(' :: (body ++ ')' :: rest)) = .ok (header, body) := by
  simp only [splitBlock, splitOnce_append hopen, rsplitOnce_append hclose]

theorem parseRule_block {header body rest : Text} (hopen : '(' ∉ header) (hclose : ')' ∉ rest) :
    parseRule (header ++ '(' :: (body ++ ')' :: rest)) =
      parseHeader header >>= fun parsed => parseOptions body >>= fun options =>
        buildRule parsed options (trim (header ++ '(' :: (body ++ ')' :: rest))) := by
  have htrim : trim (header ++ '(' :: (body ++ ')' :: rest)) =
      header.dropWhile isWhitespace ++ '(' :: (body ++ ')' :: rest.rdropWhile isWhitespace) := by
    rw [trim_eq_strip, Blanks.strip_append_cons
      (by decide), Blanks.rdropWhile_append_cons (by decide)]
  have hblock : splitBlock (header.dropWhile isWhitespace ++
      '(' :: (body ++ ')' :: rest.rdropWhile isWhitespace)) =
      .ok (header.dropWhile isWhitespace, body) :=
    splitBlock_append (fun hmem => hopen ((List.dropWhile_suffix isWhitespace).subset hmem))
      (fun hmem => hclose ((List.rdropWhile_prefix isWhitespace rest).subset hmem))
  have hheader : parseHeader (header.dropWhile isWhitespace) = parseHeader header := by
    rw [parseHeader, parseHeader, splitWhitespace_dropWhile]
  rw [parseRule, if_neg (by rw [htrim]; simp)]
  conv_lhs => rw [htrim, hblock]
  rw [htrim]
  show parseHeader (header.dropWhile isWhitespace) >>= _ = _
  rw [hheader]

end CyberSentinel.Rules
