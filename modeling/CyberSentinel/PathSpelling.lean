import CyberSentinel.DecodeRounds
import CyberSentinel.PathCollapse

/-!
# Spellings of a path

A path can be written with segments that lead nowhere, and each of its bytes as it is, escaped, or
with the escape itself escaped. Two rounds of decoding and one of collapsing read every such
spelling as the path, and say how far the escapes went.
-/

namespace CyberSentinel

inductive Spelling
  | raw
  /-- `%XX` -/
  | escaped (high low : UInt8)
  /-- `%25XX` -/
  | doubled (high low : UInt8)
  deriving DecidableEq, Repr

def HexDigits (high low byte : UInt8) : Prop :=
  ∃ h l, hexValue high = some h ∧ hexValue low = some l ∧ byte.toNat = 16 * h.toNat + l.toNat

namespace Spelling

def Spells (byte : UInt8) : Spelling → Prop
  | raw => True
  | escaped high low => HexDigits high low byte
  | doubled high low => HexDigits high low byte

def write (byte : UInt8) : Spelling → List UInt8
  | raw => [byte]
  | escaped high low => [percentSign, high, low]
  | doubled high low => [percentSign, 0x32, 0x35, high, low]

def decoded : Spelling → Spelling
  | raw => raw
  | escaped _ _ => raw
  | doubled high low => escaped high low

def isRaw : Spelling → Bool
  | raw => true
  | _ => false

def isDoubled : Spelling → Bool
  | doubled _ _ => true
  | _ => false

theorem length_write (byte : UInt8) (spelling : Spelling) :
    (spelling.write byte).length =
      (spelling.decoded.write byte).length + if !spelling.isRaw then 2 else 0 := by
  cases spelling <;> rfl

end Spelling

abbrev SpelledText := List (UInt8 × Spelling)

namespace SpelledText

def bytes (text : SpelledText) : List UInt8 := text.map Prod.fst

def written (text : SpelledText) : List UInt8 := text.flatMap fun e => e.2.write e.1

def decoded (text : SpelledText) : SpelledText := text.map fun e => (e.1, e.2.decoded)

/-- No byte is a `%`, and the digits are those of the bytes. -/
def Valid (text : SpelledText) : Prop := ∀ e ∈ text, e.1 ≠ percentSign ∧ e.2.Spells e.1

def hasEscape (text : SpelledText) : Bool := text.any fun e => !e.2.isRaw

def hasDoubled (text : SpelledText) : Bool := text.any fun e => e.2.isDoubled

theorem bytes_decoded (text : SpelledText) : text.decoded.bytes = text.bytes := by
  rw [bytes, decoded, List.map_map]
  rfl

theorem hasEscape_decoded (text : SpelledText) : text.decoded.hasEscape = text.hasDoubled := by
  rw [hasEscape, decoded, List.any_map, hasDoubled]
  congr 1
  funext e
  obtain ⟨byte, spelling⟩ := e
  cases spelling <;> rfl

theorem hasDoubled_decoded (text : SpelledText) : text.decoded.hasDoubled = false := by
  rw [hasDoubled, decoded, List.any_map, List.any_eq_false]
  rintro ⟨byte, spelling⟩ -
  cases spelling <;> exact Bool.false_ne_true

theorem Valid.decoded {text : SpelledText} (h : text.Valid) : text.decoded.Valid := by
  intro e he
  obtain ⟨⟨byte, spelling⟩, hmem, rfl⟩ := List.mem_map.1 he
  obtain ⟨hbyte, hspells⟩ := h _ hmem
  cases spelling with
  | raw => exact ⟨hbyte, trivial⟩
  | escaped high low => exact ⟨hbyte, trivial⟩
  | doubled high low => exact ⟨hbyte, hspells⟩

theorem written_of_not_hasEscape {text : SpelledText} (h : text.hasEscape = false) :
    text.written = text.bytes := by
  induction text with
  | nil => rfl
  | cons e text ih =>
    obtain ⟨byte, spelling⟩ := e
    rw [hasEscape, List.any_cons, Bool.or_eq_false_iff] at h
    have htext : SpelledText.written text = SpelledText.bytes text := ih h.2
    cases spelling with
    | raw => exact congrArg (List.cons byte) htext
    | escaped high low => exact absurd h.1 Bool.noConfusion
    | doubled high low => exact absurd h.1 Bool.noConfusion

/-- Each escape that a round of decoding resolves takes two bytes off the text. -/
theorem length_written (text : SpelledText) :
    text.written.length = text.decoded.written.length + 2 * text.countP fun e => !e.2.isRaw := by
  induction text with
  | nil => rfl
  | cons e text ih =>
    rw [written, written] at ih
    have hdecoded : decoded (e :: text) = (e.1, e.2.decoded) :: decoded text := rfl
    rw [hdecoded, written, written, List.flatMap_cons, List.flatMap_cons, List.length_append,
      List.length_append, ih, e.2.length_write, List.countP_cons]
    dsimp only
    split_ifs with hraw
    · omega
    · omega

/-- Where nothing is escaped, no round of decoding finds an escape. -/
theorem hasDoubled_of_not_hasEscape {text : SpelledText} (h : text.hasEscape = false) :
    text.hasDoubled = false := by
  rw [hasDoubled, List.any_eq_false]
  rw [hasEscape, List.any_eq_false] at h
  rintro ⟨byte, spelling⟩ he
  cases spelling with
  | raw => exact Bool.false_ne_true
  | escaped high low => exact Bool.false_ne_true
  | doubled high low => exact absurd rfl (h _ he)

theorem decoded_written_eq_iff (text : SpelledText) :
    text.decoded.written = text.written ↔ text.hasEscape = false := by
  constructor
  · intro heq
    have hlength := text.length_written
    rw [heq] at hlength
    rw [hasEscape, List.any_eq_false]
    exact List.countP_eq_zero.1 (by omega)
  · intro hescape
    have hdoubled : text.decoded.hasEscape = false := by
      rw [hasEscape_decoded, hasDoubled_of_not_hasEscape hescape]
    rw [written_of_not_hasEscape hdoubled, written_of_not_hasEscape hescape, bytes_decoded]

end SpelledText

theorem HexDigits.decoded_eq {high low byte h l : UInt8} (hdigits : HexDigits high low byte)
    (hhigh : hexValue high = some h) (hlow : hexValue low = some l) : (h <<< 4) ||| l = byte := by
  obtain ⟨h', l', hhigh', hlow', hbyte⟩ := hdigits
  obtain rfl : h = h' := Option.some.inj (hhigh.symm.trans hhigh')
  obtain rfl : l = l' := Option.some.inj (hlow.symm.trans hlow')
  rw [← UInt8.toNat_inj, toNat_digits hhigh hlow, hbyte]

theorem percentDecode_escape {high low byte : UInt8} (h : HexDigits high low byte)
    (rest : List UInt8) :
    percentDecode (percentSign :: high :: low :: rest) =
      (byte :: (percentDecode rest).1,
        { (percentDecode rest).2 with
          nullByte := (percentDecode rest).2.nullByte || byte == 0
          percentEncoded := true }) := by
  obtain ⟨value, value', hhigh, hlow, -⟩ := id h
  rw [percentDecode_digits hhigh hlow, h.decoded_eq hhigh hlow]

theorem hexDigits_percentSign : HexDigits 0x32 0x35 percentSign := ⟨2, 5, rfl, rfl, rfl⟩

theorem percentDecode_written {text : SpelledText} (h : text.Valid) :
    (percentDecode text.written).1 = text.decoded.written ∧
      (percentDecode text.written).2.percentEncoded = text.hasEscape ∧
      (percentDecode text.written).2.doubleEncoded = false := by
  induction text with
  | nil => exact ⟨rfl, rfl, rfl⟩
  | cons e text ih =>
    obtain ⟨byte, spelling⟩ := e
    obtain ⟨hbyte, hspells⟩ := h _ List.mem_cons_self
    obtain ⟨hbytes, hescape, hdouble⟩ := ih fun e he => h e (List.mem_cons_of_mem _ he)
    cases spelling with
    | raw =>
      have hpass := percentDecode_of_ne hbyte (SpelledText.written text)
      refine ⟨?_, ?_, ?_⟩
      · exact (congrArg Prod.fst hpass).trans (congrArg (List.cons byte) hbytes)
      · exact (congrArg (fun r => r.2.percentEncoded) hpass).trans hescape
      · exact (congrArg (fun r => r.2.doubleEncoded) hpass).trans hdouble
    | escaped high low =>
      have hpass := percentDecode_escape hspells (SpelledText.written text)
      refine ⟨?_, congrArg (fun r => r.2.percentEncoded) hpass, ?_⟩
      · exact (congrArg Prod.fst hpass).trans (congrArg (List.cons byte) hbytes)
      · exact (congrArg (fun r => r.2.doubleEncoded) hpass).trans hdouble
    | doubled high low =>
      obtain ⟨value, value', hhigh, hlow, -⟩ := hspells
      have hpass := percentDecode_escape hexDigits_percentSign
        (high :: low :: SpelledText.written text)
      rw [percentDecode_of_ne (ne_percentSign_of_hexValue hhigh),
        percentDecode_of_ne (ne_percentSign_of_hexValue hlow)] at hpass
      refine ⟨?_, congrArg (fun r => r.2.percentEncoded) hpass, ?_⟩
      · exact (congrArg Prod.fst hpass).trans
          (congrArg (fun rest => percentSign :: high :: low :: rest) hbytes)
      · exact (congrArg (fun r => r.2.doubleEncoded) hpass).trans hdouble

theorem percentDecode_eq_self_iff {text : SpelledText} (h : text.Valid) :
    (percentDecode text.written).1 = text.written ↔ text.hasEscape = false := by
  rw [(percentDecode_written h).1]
  exact text.decoded_written_eq_iff

theorem percentDecodeRepeatedly_written {text : SpelledText} (h : text.Valid) :
    let n := percentDecodeRepeatedly text.written 2
    n.bytes = text.bytes ∧
      n.roundsApplied = (if text.hasDoubled then 2 else if text.hasEscape then 1 else 0) ∧
      n.flags.percentEncoded = text.hasEscape ∧ n.flags.doubleEncoded = text.hasDoubled := by
  obtain ⟨hbytes, hescape, hdouble⟩ := percentDecode_written h
  obtain ⟨hbytes', hescape', hdouble'⟩ := percentDecode_written h.decoded
  have hfirst := percentDecode_eq_self_iff h
  have hsecond := percentDecode_eq_self_iff h.decoded
  have hthird := percentDecode_eq_self_iff h.decoded.decoded
  rw [SpelledText.hasEscape_decoded] at hescape' hsecond hthird
  rw [SpelledText.hasDoubled_decoded] at hthird
  cases hany : text.hasEscape with
  | false =>
    have hnone := SpelledText.hasDoubled_of_not_hasEscape hany
    have hloop := decodeLoop_of_eq (hfirst.2 hany) 2 0 {}
    intro n
    have hn : n = ⟨text.written, 0, {}⟩ := by
      rw [← hloop]
      exact percentDecodeRepeatedly_of_fixed (by rw [hloop]; exact hfirst.2 hany)
    rw [hn, hnone]
    exact ⟨SpelledText.written_of_not_hasEscape hany, rfl, rfl, rfl⟩
  | true =>
    have hloop := decodeLoop_of_ne (fun heq =>
      Bool.noConfusion ((hfirst.1 heq).symm.trans hany)) 1 0 {}
    rw [hbytes] at hloop
    cases hagain : text.hasDoubled with
    | false =>
      have hfixed := hsecond.2 hagain
      rw [decodeLoop_of_eq hfixed] at hloop
      intro n
      have hn : n = decodeLoop 2 0 text.written {} :=
        percentDecodeRepeatedly_of_fixed (by rw [hloop]; exact hfixed)
      rw [hn, hloop]
      refine ⟨?_, rfl, ?_, ?_⟩
      · rw [← text.bytes_decoded]
        exact SpelledText.written_of_not_hasEscape (by rw [SpelledText.hasEscape_decoded, hagain])
      · exact (Bool.false_or _).trans (hescape.trans hany)
      · exact (Bool.or_false _).trans ((Bool.false_or _).trans hdouble)
    | true =>
      have hfixed := hthird.2 rfl
      rw [decodeLoop_of_ne fun heq => Bool.noConfusion ((hsecond.1 heq).symm.trans hagain), hbytes',
        decodeLoop_of_eq hfixed] at hloop
      intro n
      have hn : n = decodeLoop 2 0 text.written {} :=
        percentDecodeRepeatedly_of_fixed (by rw [hloop]; exact hfixed)
      rw [hn, hloop]
      refine ⟨?_, rfl, ?_, Bool.or_true _⟩
      · rw [← text.bytes_decoded, ← SpelledText.bytes_decoded text.decoded]
        exact SpelledText.written_of_not_hasEscape
          (by rw [SpelledText.hasEscape_decoded, SpelledText.hasDoubled_decoded])
      · change (false || (percentDecode text.written).2.percentEncoded ||
          (percentDecode text.decoded.written).2.percentEncoded) = true
        rw [hescape, hany, Bool.false_or, Bool.true_or]

def absolutePath (segments : List (List UInt8)) : List UInt8 :=
  slash :: [slash].intercalate segments

/-- Segments that lead nowhere: an empty one, the current one, or one and back. -/
inductive Detour : List (List UInt8) → Prop
  | empty : Detour [[]]
  | current : Detour [[dot]]
  | back {segment : List UInt8} (hne : segment ≠ []) (hslash : slash ∉ segment)
      (hpercent : percentSign ∉ segment) (hdot : segment ≠ [dot]) (hdots : segment ≠ [dot, dot]) :
      Detour [segment, [dot, dot]]

inductive Detoured (segments : List (List UInt8)) : List (List UInt8) → Prop
  | none : Detoured segments segments
  | insert {before detour after : List (List UInt8)} (h : Detoured segments (before ++ after))
      (hafter : after ≠ []) (hdetour : Detour detour) :
      Detoured segments (before ++ detour ++ after)

theorem splitOn_absolutePath {segments : List (List UInt8)} (hne : segments ≠ [])
    (h : ∀ segment ∈ segments, slash ∉ segment) :
    (absolutePath segments).splitOn slash = [] :: segments := by
  have hcons : absolutePath segments = [slash].intercalate ([] :: segments) := by
    rw [List.intercalate_cons_of_ne_nil hne]
    rfl
  rw [hcons]
  refine List.splitOn_intercalate slash ?_ (List.cons_ne_nil _ _)
  intro segment hsegment
  rcases List.mem_cons.1 hsegment with rfl | hsegment
  · exact List.not_mem_nil
  · exact h _ hsegment

theorem Detour.foldl_step {detour : List (List UInt8)} (h : Detour detour)
    (s : List (List UInt8) × Bool) :
    ((detour.map partMove).foldl Stacks.Move.step s).1 = s.1 := by
  cases h with
  | empty => rfl
  | current => rfl
  | @back segment hne hslash hpercent hdot hdots =>
    have hpush : partMove segment = .push segment := partMove_of_isOrdinary ⟨hne, hdot, hdots⟩
    rw [List.map_cons, hpush]
    exact List.dropLast_concat

theorem Detoured.keptSegments_eq {segments detoured : List (List UInt8)}
    (h : Detoured segments detoured) :
    (keptSegments detoured).1 = (keptSegments segments).1 := by
  induction h with
  | none => rfl
  | @insert before detour after h hafter hdetour ih =>
    rw [← ih, keptSegments, keptSegments, Stacks.run, Stacks.run, List.map_append, List.map_append,
      List.map_append, List.foldl_append, List.foldl_append, List.foldl_append]
    exact Stacks.foldl_step_congr (hdetour.foldl_step _) _

theorem Detoured.getLast? {segments detoured : List (List UInt8)} (h : Detoured segments detoured) :
    detoured.getLast? = segments.getLast? := by
  induction h with
  | none => rfl
  | @insert before detour after h hafter hdetour ih =>
    rw [← ih, List.getLast?_append_of_ne_nil _ hafter, List.getLast?_append_of_ne_nil _ hafter]

def Clean (parts : List (List UInt8)) : Prop := ∀ part ∈ parts, slash ∉ part ∧ percentSign ∉ part

theorem Detour.clean {detour : List (List UInt8)} (h : Detour detour) : Clean detour := by
  intro part hpart
  cases h with
  | empty =>
    obtain rfl := List.mem_singleton.1 hpart
    exact ⟨List.not_mem_nil, List.not_mem_nil⟩
  | current =>
    obtain rfl := List.mem_singleton.1 hpart
    exact ⟨by decide, by decide⟩
  | back hne hslash hpercent hdot hdots =>
    rcases List.mem_pair.1 hpart with rfl | rfl
    · exact ⟨hslash, hpercent⟩
    · exact ⟨by decide, by decide⟩

theorem Detoured.clean {segments detoured : List (List UInt8)} (h : Detoured segments detoured)
    (hclean : Clean segments) : Clean detoured := by
  induction h with
  | none => exact hclean
  | @insert before detour after h hafter hdetour ih =>
    intro part hpart
    rw [List.append_assoc, List.mem_append, List.mem_append] at hpart
    rcases hpart with hbefore | hin | hafter
    · exact ih part (List.mem_append_left _ hbefore)
    · exact hdetour.clean part hin
    · exact ih part (List.mem_append_right _ hafter)

theorem not_mem_absolutePath {segments : List (List UInt8)} (h : Clean segments) :
    percentSign ∉ absolutePath segments := by
  intro hmem
  rcases List.mem_cons.1 hmem with heq | hmem
  · exact absurd heq (by decide)
  · rcases Lines.mem_intercalate hmem with hin | ⟨part, hpart, hin⟩
    · exact absurd (List.mem_singleton.1 hin) (by decide)
    · exact (h part hpart).2 hin

theorem collapsePath_escapes (path : List UInt8) (b : Bool) :
    (collapsePath path b).2.percentEncoded = false ∧
    (collapsePath path b).2.doubleEncoded = false := by
  rw [collapsePath_eq]
  exact ⟨rfl, rfl⟩

/-- An absolute path is written from the segments that are left of it. -/
theorem collapsePath_absolutePath {segments : List (List UInt8)} (hne : segments ≠ [])
    (h : ∀ segment ∈ segments, slash ∉ segment) :
    (collapsePath (absolutePath segments) false).1 =
      writePath true (decide (NamesDirectory segments) && !(keptSegments segments).1.isEmpty)
        (keptSegments segments).1 := by
  have hparts : pathParts false (absolutePath segments) = [] :: segments :=
    splitOn_absolutePath hne h
  have habsolute : IsAbsolute false (absolutePath segments) := rfl
  have hends : NamesDirectory ([] :: segments) ↔ NamesDirectory segments := by
    rw [NamesDirectory, NamesDirectory, List.getLast?_cons_of_ne_nil hne]
  have hkept : keptSegments ([] :: segments) = keptSegments segments := rfl
  rw [collapsePath_eq, hparts, hkept, decide_eq_decide.2 hends, decide_eq_true habsolute]

theorem Detoured.collapsePath_eq {segments detoured : List (List UInt8)}
    (h : Detoured segments detoured)
    (hne : segments ≠ []) (hclean : Clean segments) :
    (collapsePath (absolutePath detoured) false).1 =
    (collapsePath (absolutePath segments) false).1 := by
  have hne' : detoured ≠ [] := by
    intro hnil
    have hlast := h.getLast?
    rw [hnil, List.getLast?_nil] at hlast
    exact hne (List.getLast?_eq_none_iff.1 hlast.symm)
  have hends : NamesDirectory detoured ↔ NamesDirectory segments := by
    rw [NamesDirectory, NamesDirectory, h.getLast?]
  rw [collapsePath_absolutePath hne fun part hpart => (hclean part hpart).1,
    collapsePath_absolutePath hne' fun part hpart =>
    (h.clean hclean part hpart).1, h.keptSegments_eq,
    decide_eq_decide.2 hends]

theorem SpelledText.valid_of_bytes {text : SpelledText} {bytes : List UInt8}
    (h : percentSign ∉ bytes) (hbytes : text.bytes = bytes) (hspells : ∀ e ∈ text, e.2.Spells e.1) :
    text.Valid := by
  intro e he
  refine ⟨fun heq => h ?_, hspells e he⟩
  rw [← hbytes, ← heq]
  exact List.mem_map_of_mem he

def SpelledText.plain (bytes : List UInt8) : SpelledText := bytes.map fun byte => (byte, .raw)

theorem SpelledText.bytes_plain (bytes : List UInt8) : (plain bytes).bytes = bytes := by
  rw [SpelledText.bytes, plain, List.map_map]
  exact List.map_id bytes

theorem SpelledText.hasEscape_plain (bytes : List UInt8) : (plain bytes).hasEscape = false := by
  rw [hasEscape, List.any_eq_false]
  intro e he
  obtain ⟨byte, -, rfl⟩ := List.mem_map.1 he
  exact Bool.false_ne_true

theorem SpelledText.spells_plain (bytes : List UInt8) : ∀ e ∈ plain bytes, e.2.Spells e.1 := by
  intro e he
  obtain ⟨byte, -, rfl⟩ := List.mem_map.1 he
  exact trivial

theorem normalizePath_bytes {options : NormalizeConfig} (hrounds : options.decodeRounds = 2)
    (hcollapse : options.collapsePath = true) (hbackslash : options.backslashIsSeparator = false)
    {text : SpelledText} (h : text.Valid) :
    (normalizePath text.written options).bytes = (collapsePath text.bytes false).1 := by
  rw [normalizePath, hrounds, hbackslash, (percentDecodeRepeatedly_written h).1, if_pos hcollapse]

/-- However a path is spelled, it is normalized to what it is normalized to as it stands, and the
rounds and the flags tell whether anything was escaped, and whether an escape was. -/
theorem spellings_normalized_alike (options : NormalizeConfig) (hrounds : options.decodeRounds = 2)
    (hcollapse : options.collapsePath = true) (hbackslash : options.backslashIsSeparator = false)
    (rest : List UInt8) (hpercent : percentSign ∉ rest) (detoured : List (List UInt8))
    (hdetoured : Detoured (rest.splitOn slash) detoured) (text : SpelledText)
    (hbytes : text.bytes = absolutePath detoured) (hspells : ∀ e ∈ text, e.2.Spells e.1) :
    let n := normalizePath text.written options
    n.bytes = (normalizePath (slash :: rest) options).bytes ∧
      n.roundsApplied = (if text.hasDoubled then 2 else if text.hasEscape then 1 else 0) ∧
      n.flags.percentEncoded = text.hasEscape ∧ n.flags.doubleEncoded = text.hasDoubled := by
  intro n
  have hpath : absolutePath (rest.splitOn slash) = slash :: rest :=
    congrArg (List.cons slash) (List.intercalate_splitOn slash)
  have hclean : Clean (rest.splitOn slash) := fun part hpart =>
    ⟨fun hin => (Lines.mem_of_mem_splitOn hpart hin).2 rfl,
      fun hin => hpercent (Lines.mem_of_mem_splitOn hpart hin).1⟩
  have hvalid := SpelledText.valid_of_bytes
    (not_mem_absolutePath (hdetoured.clean hclean)) hbytes hspells
  have hplain : (SpelledText.plain (slash :: rest)).Valid :=
    SpelledText.valid_of_bytes (hpath ▸ not_mem_absolutePath hclean) (SpelledText.bytes_plain _)
      (SpelledText.spells_plain _)
  have hwritten : (SpelledText.plain (slash :: rest)).written = slash :: rest :=
    (SpelledText.written_of_not_hasEscape (SpelledText.hasEscape_plain _)).trans
      (SpelledText.bytes_plain _)
  obtain ⟨hdecoded, hround, hescape, hdouble⟩ := percentDecodeRepeatedly_written hvalid
  obtain ⟨hpercent', hdouble'⟩ := collapsePath_escapes (absolutePath detoured) false
  have hn : n = { percentDecodeRepeatedly text.written 2 with
      bytes := (collapsePath (absolutePath detoured) false).1
      flags := (percentDecodeRepeatedly text.written 2).flags.merge
        (collapsePath (absolutePath detoured) false).2 } := by
    change normalizePath text.written options = _
    rw [normalizePath, hrounds, hbackslash, hdecoded, if_pos hcollapse, hbytes]
  refine ⟨?_, ?_, ?_, ?_⟩
  · have hstand := normalizePath_bytes hrounds hcollapse hbackslash hplain
    rw [hwritten, SpelledText.bytes_plain, ← hpath] at hstand
    rw [← hpath, hstand, ← hdetoured.collapsePath_eq (List.splitOn_ne_nil _ _) hclean, ← hbytes]
    exact normalizePath_bytes hrounds hcollapse hbackslash hvalid
  · rw [hn]
    exact hround
  · rw [hn]
    exact (congrArg₂ or hescape hpercent').trans (Bool.or_false _)
  · rw [hn]
    exact (congrArg₂ or hdouble hdouble').trans (Bool.or_false _)

/-- `/a/b` written as `/x/.%2e/%2561//b`. -/
def spelledSample : SpelledText :=
  [(slash, .raw), (0x78, .raw), (slash, .raw), (dot, .raw), (dot, .escaped 0x32 0x65),
    (slash, .raw),
    (0x61, .doubled 0x36 0x31), (slash, .raw), (slash, .raw), (0x62, .raw)]

theorem spellings_normalized_alike_sample :
    let n := normalizePath spelledSample.written {}
    n.bytes = [slash, 0x61, slash, 0x62] ∧ n.roundsApplied = 2 ∧ n.flags.percentEncoded = true ∧
      n.flags.doubleEncoded = true := by
  have hinner : Detoured [[0x61], [0x62]] ([[0x61]] ++ [[]] ++ [[0x62]]) :=
    .insert .none (List.cons_ne_nil _ _) .empty
  have hback : Detour [[0x78], [dot, dot]] :=
    .back (by decide) (by decide) (by decide) (by decide) (by decide)
  have hdetoured : Detoured [[0x61], [0x62]] ([] ++ [[0x78], [dot, dot]] ++ [[0x61], [], [0x62]]) :=
    .insert hinner (List.cons_ne_nil _ _) hback
  have hspells : ∀ e ∈ spelledSample, e.2.Spells e.1 := by
    simp only [spelledSample, List.forall_mem_cons, List.not_mem_nil, false_imp_iff,
      forall_true_iff]
    exact ⟨trivial, trivial, trivial, trivial, ⟨2, 14, rfl, rfl, rfl⟩, trivial,
      ⟨6, 1, rfl, rfl, rfl⟩,
      trivial, trivial, trivial, trivial⟩
  obtain ⟨hbytes, hrest⟩ :=
    spellings_normalized_alike {} rfl rfl rfl [0x61, slash, 0x62] (by decide) _
    hdetoured spelledSample rfl hspells
  exact ⟨hbytes, hrest⟩

end CyberSentinel
