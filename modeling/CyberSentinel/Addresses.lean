import CyberSentinel.Net
import CyberSentinel.Numerals
import CyberSentinel.Texts

/-!
# Addresses as texts

The texts of addresses and how they are read back, as the standard library has them: dotted decimal
for IPv4, groups of hexadecimal digits with the longest run of zeros left out for IPv6. What is
displayed is read back as the same address (`parse_display`), and is made of hexadecimal digits,
colons and dots.
-/

namespace CyberSentinel.IpAddr

open Numerals Texts

/-- From the second group on, the separator comes before the group. -/
def readSeparator {β : Type*} (separator : Char) (index : ℕ)
    (inner : List Char → Option (β × List Char)) (text : List Char) : Option (β × List Char) :=
  if index = 0 then inner text
  else
    match text with
    | [] => none
    | c :: rest => if c = separator then inner rest else none

/-- One octet. Octal numbers are not allowed. -/
def readOctet (index : ℕ) : List Char → Option (ℕ × List Char) :=
  readSeparator '.' index (readNumber 10 3 false 256)

def readIpv4Addr (text : List Char) : Option (List ℕ × List Char) := do
  let (one, text) ← readOctet 0 text
  let (two, text) ← readOctet 1 text
  let (three, text) ← readOctet 2 text
  let (four, text) ← readOctet 3 text
  return ([one, two, three, four], text)

/-- Read at most `slots` groups from the one with the index on, and whether an embedded IPv4 address
ended them. -/
def readGroups : (slots index : ℕ) → List Char → List ℕ × Bool × List Char
  | 0, _, text => ([], false, text)
  | slots + 1, index, text =>
    -- an embedded address takes two groups
    match if 0 < slots then readSeparator ':' index readIpv4Addr text else none with
    | some (octets, rest) => (places 65536 2 (ofPlaces 256 octets), true, rest)
    | none =>
      match readSeparator ':' index (readNumber 16 4 true 65536) text with
      | some (group, rest) =>
        let (groups, ipv4, rest) := readGroups slots (index + 1) rest
        (group :: groups, ipv4, rest)
      | none => ([], false, text)

def readIpv6Addr (text : List Char) : Option (List ℕ × List Char) :=
  let (head, headIpv4, rest) := readGroups 8 0 text
  if head.length = 8 then some (head, rest)
  else if headIpv4 then none
  else
    match rest with
    | ':' :: ':' :: rest =>
      -- the two colons stand for at least one group
      let (tail, _, rest) := readGroups (8 - (head.length + 1)) 0 rest
      some (head ++ List.replicate (8 - head.length - tail.length) 0 ++ tail, rest)
    | _ => none

def ofOctets (octets : List ℕ) : BitVec 32 := BitVec.ofNat 32 (ofPlaces 256 octets)

def ofSegments (segments : List ℕ) : BitVec 128 := BitVec.ofNat 128 (ofPlaces 65536 segments)

def parse (text : List Char) : Option IpAddr :=
  match readIpv4Addr text with
  | some (octets, rest) => if rest.isEmpty then some (v4 (ofOctets octets)) else none
  | none =>
    match readIpv6Addr text with
    | some (segments, rest) => if rest.isEmpty then some (v6 (ofSegments segments)) else none
    | none => none

def quads (address : BitVec 32) : List ℕ := places 256 4 address.toNat

def segments (address : BitVec 128) : List ℕ := places 65536 8 address.toNat

def displayIpv4 (octets : List ℕ) : List Char :=
  ['.'].intercalate (octets.map (Nat.toDigits 10))

structure Span where
  start : ℕ := 0
  len : ℕ := 0
  deriving DecidableEq, Repr

/-- One step of the search: the longest run of zeros so far, and the one it is in. -/
def scan (spans : Span × Span) (segment : ℕ × ℕ) : Span × Span :=
  if segment.1 = 0 then
    let current : Span :=
      ⟨if spans.2.len = 0 then segment.2 else spans.2.start, spans.2.len + 1⟩
    (if spans.1.len < current.len then current else spans.1, current)
  else (spans.1, {})

/-- The longest run of zeros, the first of them when there are several. -/
def zeroes (segments : List ℕ) : Span := (segments.zipIdx.foldl scan ({}, {})).1

def fmtSubslice (chunk : List ℕ) : List Char := [':'].intercalate (chunk.map (Nat.toDigits 16))

def displayIpv6 (segments : List ℕ) : List Char :=
  if segments.take 6 = [0, 0, 0, 0, 0, 0xffff] then
    "::ffff:".toList ++ displayIpv4 ((segments.drop 6).flatMap (places 256 2))
  else
    let span := zeroes segments
    if 1 < span.len then
      fmtSubslice (segments.take span.start) ++ "::".toList ++
        fmtSubslice (segments.drop (span.start + span.len))
    else fmtSubslice segments

def display : IpAddr → List Char
  | v4 address => displayIpv4 (quads address)
  | v6 address => displayIpv6 (segments address)

def text (address : IpAddr) : String := String.ofList address.display

theorem readSeparator_first {β : Type*} (separator : Char)
    (inner : List Char → Option (β × List Char)) (text : List Char) :
    readSeparator separator 0 inner text = inner text := if_pos rfl

theorem readSeparator_same {β : Type*} (separator : Char) (index : ℕ)
    (inner : List Char → Option (β × List Char)) (rest : List Char) :
    readSeparator separator (index + 1) inner (separator :: rest) = inner rest := if_pos rfl

theorem readSeparator_other {β : Type*} {separator c : Char} (h : c ≠ separator) (index : ℕ)
    (inner : List Char → Option (β × List Char)) (rest : List Char) :
    readSeparator separator (index + 1) inner (c :: rest) = none := if_neg h

theorem readIpv4Addr_none {text : List Char} (h : '.' ∉ text) : readIpv4Addr text = none := by
  rw [readIpv4Addr]
  cases hone : readOctet 0 text with
  | none => rfl
  | some one =>
    have htwo : readOctet 1 one.2 = none := by
      have hsuffix : one.2 <:+ text := readNumber_suffix hone
      cases hrest : one.2 with
      | nil => rfl
      | cons c rest =>
        refine readSeparator_other (fun hc => h (hsuffix.subset ?_)) 0 _ rest
        rw [hrest, hc]
        exact List.mem_cons_self
    simp [htwo]

theorem readOctet_toDigits {n : ℕ} (hn : n < 256) {rest : List Char}
    (hrest : ∀ c ∈ rest.head?, isDigitIn 10 c = false) :
    readOctet 0 (Nat.toDigits 10 n ++ rest) = some (n, rest) ∧
      readOctet 1 ('.' :: (Nat.toDigits 10 n ++ rest)) = some (n, rest) ∧
      readOctet 2 ('.' :: (Nat.toDigits 10 n ++ rest)) = some (n, rest) ∧
      readOctet 3 ('.' :: (Nat.toDigits 10 n ++ rest)) = some (n, rest) := by
  have h : readNumber 10 3 false 256 (Nat.toDigits 10 n ++ rest) = some (n, rest) :=
    readNumber_toDigits (by decide) (by decide) (by decide) (by omega) hn hrest
  exact ⟨h, h, h, h⟩

theorem readIpv4Addr_display {a b c d : ℕ} (ha : a < 256) (hb : b < 256) (hc : c < 256)
    (hd : d < 256) :
    readIpv4Addr (displayIpv4 [a, b, c, d]) = some ([a, b, c, d], []) := by
  have hdot (text : List Char) : ∀ c ∈ ('.' :: text).head?, isDigitIn 10 c = false := by
    rintro c ⟨⟩
    decide
  have htext : displayIpv4 [a, b, c, d] = Nat.toDigits 10 a ++ '.' :: (Nat.toDigits 10 b ++
      '.' :: (Nat.toDigits 10 c ++ '.' :: (Nat.toDigits 10 d ++ []))) := by
    simp [displayIpv4, List.intercalate]
  rw [htext, readIpv4Addr, (readOctet_toDigits ha (hdot _)).1]
  simp only [Option.bind_eq_bind, Option.bind_some]
  rw [(readOctet_toDigits hb (hdot _)).2.1]
  simp only [Option.bind_some]
  rw [(readOctet_toDigits hc (hdot _)).2.2.1]
  simp only [Option.bind_some]
  rw [(readOctet_toDigits hd (by simp)).2.2.2]
  rfl

def groupsText (groups : List ℕ) : List Char := groups.flatMap (fun g => ':' :: Nat.toDigits 16 g)

theorem fmtSubslice_cons (group : ℕ) (groups : List ℕ) :
    fmtSubslice (group :: groups) = Nat.toDigits 16 group ++ groupsText groups := by
  induction groups generalizing group with
  | nil => simp [fmtSubslice, groupsText, List.intercalate]
  | cons next groups ih =>
    have hstep : fmtSubslice (group :: next :: groups) =
        Nat.toDigits 16 group ++ ':' :: fmtSubslice (next :: groups) := by
      simp [fmtSubslice, List.intercalate]
    rw [hstep, ih, groupsText, groupsText, List.flatMap_cons, List.cons_append]

theorem dot_not_mem_toDigits (n : ℕ) : '.' ∉ Nat.toDigits 16 n := fun h =>
  absurd (isDigitIn_of_mem_toDigits (by decide) (by decide) h) (by decide)

theorem dot_not_mem_groupsText (groups : List ℕ) : '.' ∉ groupsText groups := by
  simp [groupsText, dot_not_mem_toDigits]

theorem dot_not_mem_fmtSubslice (chunk : List ℕ) : '.' ∉ fmtSubslice chunk := by
  cases chunk with
  | nil => simp [fmtSubslice, List.intercalate]
  | cons group groups =>
    simp [fmtSubslice_cons, dot_not_mem_toDigits, dot_not_mem_groupsText]

/-- Where groups stop: at the end of the text or at two colons. -/
def Stops (rest : List Char) : Prop := rest = [] ∨ ∃ tail, rest = ':' :: ':' :: tail

theorem readGroups_stops {rest : List Char} (hrest : Stops rest) (hdot : '.' ∉ rest)
    (slots index : ℕ) : readGroups slots index rest = ([], false, rest) := by
  cases slots with
  | zero => rfl
  | succ slots =>
    have hipv4 : readSeparator ':' index readIpv4Addr rest = none := by
      cases index with
      | zero => exact readIpv4Addr_none hdot
      | succ index =>
        rcases hrest with rfl | ⟨tail, rfl⟩
        · rfl
        · rw [readSeparator_same]
          exact readIpv4Addr_none (fun h => hdot (List.mem_cons_of_mem _ h))
    have hgroup : readSeparator ':' index (readNumber 16 4 true 65536) rest = none := by
      have hcolon (tail : List Char) : ∀ c ∈ (':' :: tail).head?, isDigitIn 16 c = false := by
        rintro c ⟨⟩
        decide
      rcases hrest with rfl | ⟨tail, rfl⟩
      · cases index with
        | zero => rfl
        | succ index => rfl
      · cases index with
        | zero =>
          rw [readSeparator_first]
          exact readNumber_none (hcolon _)
        | succ index =>
          rw [readSeparator_same]
          exact readNumber_none (hcolon _)
    simp [readGroups, hipv4, hgroup]

theorem readGroups_cons (slots index : ℕ) {group : ℕ} {text rest : List Char}
    (hgroup : group < 65536)
    (hdot : '.' ∉ text) (hrest : ∀ c ∈ rest.head?, isDigitIn 16 c = false)
    (htext : text = (if index = 0 then [] else [':']) ++ (Nat.toDigits 16 group ++ rest)) :
    readGroups (slots + 1) index text =
      (group :: (readGroups slots (index + 1) rest).1, (readGroups slots (index + 1) rest).2) := by
  have hread : readNumber 16 4 true 65536 (Nat.toDigits 16 group ++ rest) = some (group, rest) :=
    readNumber_toDigits (by decide) (by decide) (by decide) (by omega) hgroup hrest
  subst htext
  have hboth : readSeparator ':' index readIpv4Addr
        ((if index = 0 then [] else [':']) ++ (Nat.toDigits 16 group ++ rest)) = none ∧
      readSeparator ':' index (readNumber 16 4 true 65536)
        ((if index = 0 then [] else [':']) ++ (Nat.toDigits 16 group ++ rest)) =
          some (group, rest) := by
    cases index with
    | zero => exact ⟨readIpv4Addr_none hdot, hread⟩
    | succ index =>
      exact ⟨readIpv4Addr_none (fun h => hdot (List.mem_cons_of_mem _ h)), hread⟩
  simp [readGroups, hboth]

theorem head_groupsText {groups : List ℕ} {rest : List Char} (hrest : Stops rest) :
    ∀ c ∈ (groupsText groups ++ rest).head?, isDigitIn 16 c = false := by
  cases groups with
  | nil =>
    rcases hrest with rfl | ⟨tail, rfl⟩
    · rintro c ⟨⟩
    · rintro c ⟨⟩
      decide
  | cons group groups =>
    rintro c ⟨⟩
    decide

theorem readGroups_groupsText {groups : List ℕ} (hgroups : ∀ group ∈ groups, group < 65536)
    {slots index : ℕ} (hslots : groups.length ≤ slots) {rest : List Char} (hrest : Stops rest)
    (hdot : '.' ∉ rest) :
    readGroups slots (index + 1) (groupsText groups ++ rest) = (groups, false, rest) := by
  induction groups generalizing slots index with
  | nil => exact readGroups_stops hrest hdot slots (index + 1)
  | cons group groups ih =>
    obtain ⟨slots, rfl⟩ := Nat.exists_eq_add_one_of_ne_zero (Nat.ne_zero_of_lt hslots)
    have hnodot : '.' ∉ groupsText (group :: groups) ++ rest := by
      simp [dot_not_mem_groupsText, hdot]
    have htext : groupsText (group :: groups) ++ rest =
        (if index + 1 = 0 then [] else [':']) ++
          (Nat.toDigits 16 group ++ (groupsText groups ++ rest)) := by
      simp [groupsText]
    rw [readGroups_cons slots (index + 1) (hgroups group List.mem_cons_self) hnodot
        (head_groupsText hrest) htext,
      ih (fun g hg => hgroups g (List.mem_cons_of_mem _ hg)) (Nat.le_of_succ_le_succ hslots)]

theorem readGroups_fmtSubslice {chunk : List ℕ} (hchunk : ∀ group ∈ chunk, group < 65536)
    {slots : ℕ} (hslots : chunk.length ≤ slots) {rest : List Char} (hrest : Stops rest)
    (hdot : '.' ∉ rest) :
    readGroups slots 0 (fmtSubslice chunk ++ rest) = (chunk, false, rest) := by
  cases chunk with
  | nil => exact readGroups_stops hrest hdot slots 0
  | cons group groups =>
    obtain ⟨slots, rfl⟩ := Nat.exists_eq_add_one_of_ne_zero (Nat.ne_zero_of_lt hslots)
    have hnodot : '.' ∉ fmtSubslice (group :: groups) ++ rest := by
      simp [dot_not_mem_fmtSubslice, hdot]
    have htext : fmtSubslice (group :: groups) ++ rest =
        (if 0 = 0 then [] else [':']) ++
          (Nat.toDigits 16 group ++ (groupsText groups ++ rest)) := by
      simp [fmtSubslice_cons]
    rw [readGroups_cons slots 0 (hchunk group List.mem_cons_self) hnodot
        (head_groupsText hrest) htext,
      readGroups_groupsText (fun g hg => hchunk g (List.mem_cons_of_mem _ hg))
        (Nat.le_of_succ_le_succ hslots) hrest hdot]

def ZeroRun (segments : List ℕ) (span : Span) : Prop :=
  ∃ before after, segments = before ++ List.replicate span.len 0 ++ after ∧
    before.length = span.start

theorem ZeroRun.append {segments : List ℕ} {span : Span} (h : ZeroRun segments span) (s : ℕ) :
    ZeroRun (segments ++ [s]) span := by
  obtain ⟨before, after, rfl, hlength⟩ := h
  exact ⟨before, after ++ [s], by simp, hlength⟩

/-- Both spans the search carries are runs of zeros of what it has seen, and the current one, unless
empty, reaches to its end. -/
structure Scanned (seen : List ℕ) (spans : Span × Span) : Prop where
  longest : ZeroRun seen spans.1
  current : spans.2.len ≠ 0 →
    ∃ before, seen = before ++ List.replicate spans.2.len 0 ∧ before.length = spans.2.start

theorem Scanned.scan {seen : List ℕ} {spans : Span × Span} (h : Scanned seen spans) (s : ℕ) :
    Scanned (seen ++ [s]) (scan spans (s, seen.length)) := by
  by_cases hs : s = 0
  · subst hs
    have hcurrent : ∃ before, seen ++ [0] = before ++ List.replicate (spans.2.len + 1) 0 ∧
        before.length = if spans.2.len = 0 then seen.length else spans.2.start := by
      by_cases hlen : spans.2.len = 0
      · exact ⟨seen, by simp [hlen], by simp [hlen]⟩
      · obtain ⟨before, hbefore, hlength⟩ := h.current hlen
        refine ⟨before, ?_, by rw [if_neg hlen, hlength]⟩
        rw [List.replicate_succ', ← List.append_assoc, ← hbefore]
    rw [IpAddr.scan, if_pos rfl]
    refine ⟨?_, fun _ => hcurrent⟩
    by_cases hlonger : spans.1.len < spans.2.len + 1
    · obtain ⟨before, hbefore, hlength⟩ := hcurrent
      simp only [if_pos hlonger]
      exact ⟨before, [], by rw [List.append_nil]; exact hbefore, hlength⟩
    · simp only [if_neg hlonger]
      exact h.longest.append 0
  · rw [IpAddr.scan, if_neg hs]
    exact ⟨h.longest.append s, fun hlen => absurd rfl hlen⟩

theorem Scanned.foldl {seen : List ℕ} {spans : Span × Span} (h : Scanned seen spans)
    (rest : List ℕ) :
    Scanned (seen ++ rest) ((rest.zipIdx seen.length).foldl IpAddr.scan spans) := by
  induction rest generalizing seen spans with
  | nil => simpa using h
  | cons s rest ih =>
    have hnext := ih (h.scan s)
    rw [List.length_append, List.length_singleton] at hnext
    rw [List.zipIdx_cons, List.foldl_cons, List.append_cons]
    exact hnext

theorem zeroes_run (segments : List ℕ) : ZeroRun segments (zeroes segments) := by
  have hstart : Scanned [] ({}, {}) := ⟨⟨[], [], rfl, rfl⟩, fun hlen => absurd rfl hlen⟩
  exact (hstart.foldl segments).longest

theorem readIpv6Addr_compressed {before after : List ℕ} {len : ℕ}
    (hbefore : ∀ group ∈ before, group < 65536) (hafter : ∀ group ∈ after, group < 65536)
    (hlen : 0 < len) (hlength : before.length + len + after.length = 8) :
    readIpv6Addr (fmtSubslice before ++ "::".toList ++ fmtSubslice after) =
      some (before ++ List.replicate len 0 ++ after, []) := by
  have hdot : '.' ∉ "::".toList ++ fmtSubslice after := by simp [dot_not_mem_fmtSubslice]
  have hhead : readGroups 8 0 (fmtSubslice before ++ ("::".toList ++ fmtSubslice after)) =
      (before, false, "::".toList ++ fmtSubslice after) :=
    readGroups_fmtSubslice hbefore (by omega) (.inr ⟨fmtSubslice after, rfl⟩) hdot
  have htail : readGroups (7 - before.length) 0 (fmtSubslice after ++ []) = (after, false, []) :=
    readGroups_fmtSubslice hafter (by omega) (.inl rfl) List.not_mem_nil
  rw [List.append_nil] at htail
  have hne : before.length ≠ 8 := by omega
  have hzeros : 8 - before.length - after.length = len := by omega
  rw [readIpv6Addr, List.append_assoc, hhead]
  simp [hne, htail, hzeros]

theorem readIpv6Addr_full {segments : List ℕ} (h : ∀ group ∈ segments, group < 65536)
    (hlength : segments.length = 8) :
    readIpv6Addr (fmtSubslice segments) = some (segments, []) := by
  have hhead : readGroups 8 0 (fmtSubslice segments ++ []) = (segments, false, []) :=
    readGroups_fmtSubslice h (by omega) (.inl rfl) List.not_mem_nil
  rw [List.append_nil] at hhead
  rw [readIpv6Addr, hhead]
  simp [hlength]

theorem readIpv4Addr_none_of_head {text : List Char}
    (h : ∀ c ∈ text.head?, isDigitIn 10 c = false) : readIpv4Addr text = none := by
  have hone : readOctet 0 text = none := readNumber_none h
  simp [readIpv4Addr, hone]

theorem places_ofPlaces_octets {high low : ℕ} (hhigh : high < 65536) (hlow : low < 65536) :
    places 65536 2 (ofPlaces 256 (places 256 2 high ++ places 256 2 low)) = [high, low] := by
  simp only [places, ofPlaces, List.nil_append, List.cons_append, List.foldl_cons, List.foldl_nil,
    List.cons.injEq, and_true]
  constructor
  · omega
  · omega

theorem readIpv6Addr_mapped {high low : ℕ} (hhigh : high < 65536) (hlow : low < 65536) :
    readIpv6Addr (':' :: ':' :: 'f' :: 'f' :: 'f' :: 'f' :: ':' ::
      displayIpv4 (places 256 2 high ++ places 256 2 low)) =
      some ([0, 0, 0, 0, 0, 0xffff, high, low], []) := by
  have hplaces := places_ofPlaces_octets hhigh hlow
  have hipv4 : readIpv4Addr (displayIpv4 (places 256 2 high ++ places 256 2 low)) =
      some (places 256 2 high ++ places 256 2 low, []) :=
    readIpv4Addr_display (Nat.mod_lt _ (by decide)) (Nat.mod_lt _ (by decide))
      (Nat.mod_lt _ (by decide)) (Nat.mod_lt _ (by decide))
  generalize places 256 2 high ++ places 256 2 low = octets at hplaces hipv4 ⊢
  have hcolon (text : List Char) : readGroups 8 0 (':' :: text) = ([], false, ':' :: text) := by
    have hnone : readIpv4Addr (':' :: text) = none := readIpv4Addr_none_of_head (by simp; decide)
    have hnumber : readNumber 16 4 true 65536 (':' :: text) = none :=
      readNumber_none (by simp; decide)
    simp [readGroups, readSeparator_first, hnone, hnumber]
  have htail : readGroups 7 0 ('f' :: 'f' :: 'f' :: 'f' :: ':' :: displayIpv4 octets) =
      ([0xffff, high, low], true, []) := by
    have hnone : readIpv4Addr ('f' :: 'f' :: 'f' :: 'f' :: ':' :: displayIpv4 octets) = none :=
      readIpv4Addr_none_of_head (by simp; decide)
    have hffff : readNumber 16 4 true 65536
        ('f' :: 'f' :: 'f' :: 'f' :: ':' :: displayIpv4 octets) =
          some (0xffff, ':' :: displayIpv4 octets) :=
      readNumber_toDigits (n := 0xffff) (by decide) (by decide) (by decide) (by decide) (by decide)
        (by simp; decide)
    have hrest : readGroups 6 1 (':' :: displayIpv4 octets) = ([high, low], true, []) := by
      rw [readGroups, if_pos (by decide), readSeparator_same, hipv4]
      simp only [hplaces]
    rw [readGroups]
    simp [readSeparator_first, hnone, hffff, hrest]
  rw [readIpv6Addr, hcolon]
  simp [htail]

theorem readIpv6Addr_display {segments : List ℕ} (h : ∀ group ∈ segments, group < 65536)
    (hlength : segments.length = 8) :
    readIpv4Addr (displayIpv6 segments) = none ∧
      readIpv6Addr (displayIpv6 segments) = some (segments, []) := by
  rw [displayIpv6]
  split_ifs with hmapped
  · obtain ⟨high, low, hlast⟩ : ∃ high low, segments.drop 6 = [high, low] :=
      List.length_eq_two.1 (by rw [List.length_drop, hlength])
    have hsegments : segments = [0, 0, 0, 0, 0, 0xffff, high, low] := by
      rw [← List.take_append_drop 6 segments, hmapped, hlast]
      rfl
    rw [hlast]
    refine ⟨readIpv4Addr_none_of_head (by simp; decide), ?_⟩
    rw [hsegments] at h ⊢
    exact readIpv6Addr_mapped (h high (by simp)) (h low (by simp))
  · dsimp only
    split_ifs with hspan
    · have hrun := zeroes_run segments
      generalize zeroes segments = span at hspan hrun ⊢
      obtain ⟨before, after, rfl, hstart⟩ := hrun
      have htake : (before ++ List.replicate span.len 0 ++ after).take span.start = before := by
        rw [← hstart, List.append_assoc, List.take_left]
      have hdrop : (before ++ List.replicate span.len 0 ++ after).drop (span.start + span.len) =
          after := by
        rw [List.drop_left' (by rw [List.length_append, hstart, List.length_replicate])]
      have hsum : before.length + span.len + after.length = 8 := by
        simpa [List.length_append, add_assoc] using hlength
      rw [htake, hdrop]
      refine ⟨readIpv4Addr_none (by simp [dot_not_mem_fmtSubslice]), ?_⟩
      exact readIpv6Addr_compressed (fun group hgroup => h group (by simp [hgroup]))
        (fun group hgroup => h group (by simp [hgroup])) (by omega) hsum
    · exact ⟨readIpv4Addr_none (dot_not_mem_fmtSubslice _), readIpv6Addr_full h hlength⟩

theorem parse_display (a : IpAddr) : parse a.display = some a := by
  cases a with
  | v4 address =>
    have hread : readIpv4Addr (displayIpv4 (quads address)) = some (quads address, []) :=
      readIpv4Addr_display (Nat.mod_lt _ (by decide)) (Nat.mod_lt _ (by decide))
        (Nat.mod_lt _ (by decide)) (Nat.mod_lt _ (by decide))
    have hvalue : ofOctets (quads address) = address := by
      have hlt : address.toNat < 256 ^ 4 := address.isLt
      rw [ofOctets, quads, ofPlaces_places, Nat.mod_eq_of_lt hlt, BitVec.ofNat_toNat,
        BitVec.setWidth_eq]
    simp [parse, display, hread, hvalue]
  | v6 address =>
    have hread := readIpv6Addr_display (fun group => lt_of_mem_places (by decide))
      (length_places 65536 8 address.toNat)
    have hvalue : ofSegments (segments address) = address := by
      have hlt : address.toNat < 65536 ^ 8 := address.isLt
      rw [ofSegments, segments, ofPlaces_places, Nat.mod_eq_of_lt hlt, BitVec.ofNat_toNat,
        BitVec.setWidth_eq]
    rw [← segments] at hread
    simp [parse, display, hread, hvalue]

def addressChar (c : Char) : Bool := isDigitIn 16 c || c == ':' || c == '.'

theorem addressChar_of_mem_toDigits {radix n : ℕ} (h1 : 1 < radix) (h16 : radix ≤ 16) {c : Char}
    (hc : c ∈ Nat.toDigits radix n) : addressChar c = true := by
  have hdigit := isDigitIn_of_mem_toDigits h1 h16 hc
  rw [isDigitIn, decide_eq_true_eq] at hdigit
  simp [addressChar, isDigitIn, hdigit.trans_le h16]

theorem addressChar_of_mem_intercalate {separator c : Char} {radix : ℕ} {numbers : List ℕ}
    (hseparator : addressChar separator = true) (h1 : 1 < radix) (h16 : radix ≤ 16)
    (hc : c ∈ [separator].intercalate (numbers.map (Nat.toDigits radix))) :
    addressChar c = true := by
  induction numbers with
  | nil => cases hc
  | cons n numbers ih =>
    cases numbers with
    | nil =>
      rw [List.map_singleton, List.intercalate_singleton] at hc
      exact addressChar_of_mem_toDigits h1 h16 hc
    | cons next numbers =>
      rw [List.map_cons, List.map_cons, List.intercalate_cons_cons, ← List.map_cons] at hc
      simp only [List.append_assoc, List.singleton_append, List.mem_append, List.mem_cons] at hc
      rcases hc with hc | rfl | hc
      · exact addressChar_of_mem_toDigits h1 h16 hc
      · exact hseparator
      · exact ih hc

theorem addressChar_of_mem_display {a : IpAddr} {c : Char} (hc : c ∈ a.display) :
    addressChar c = true := by
  have hdots {numbers : List ℕ} (h : c ∈ displayIpv4 numbers) : addressChar c = true :=
    addressChar_of_mem_intercalate (by decide) (by decide) (by decide) h
  have hcolons {numbers : List ℕ} (h : c ∈ fmtSubslice numbers) : addressChar c = true :=
    addressChar_of_mem_intercalate (by decide) (by decide) (by decide) h
  have hmapped : ∀ c ∈ "::ffff:".toList, addressChar c = true := List.all_eq_true.1 (by decide)
  have hgap : ∀ c ∈ "::".toList, addressChar c = true := List.all_eq_true.1 (by decide)
  cases a with
  | v4 address => exact hdots hc
  | v6 address =>
    rw [display, displayIpv6] at hc
    split_ifs at hc
    · rcases List.mem_append.1 hc with hc | hc
      · exact hmapped c hc
      · exact hdots hc
    · dsimp only at hc
      split_ifs at hc
      · rcases List.mem_append.1 hc with hc | hc
        · rcases List.mem_append.1 hc with hc | hc
          · exact hcolons hc
          · exact hgap c hc
        · exact hcolons hc
      · exact hcolons hc

theorem toNat_of_addressChar {c : Char} (h : addressChar c = true) :
    0x20 < c.toNat ∧ c.toNat < 0x7f := by
  simp only [addressChar, isDigitIn, Bool.or_eq_true, decide_eq_true_eq, beq_iff_eq] at h
  rcases h with (h | rfl) | rfl
  · rw [digitValue] at h
    split_ifs at h with h0 ha hA
    · have h9 : c.toNat ≤ '9'.toNat := h0.2
      have h0 : '0'.toNat ≤ c.toNat := h0.1
      simp only [Char.reduceToNat] at h0 h9
      omega
    · have hz : c.toNat ≤ 'z'.toNat := ha.2
      have ha : 'a'.toNat ≤ c.toNat := ha.1
      simp only [Char.reduceToNat] at ha hz
      omega
    · have hZ : c.toNat ≤ 'Z'.toNat := hA.2
      have hA : 'A'.toNat ≤ c.toNat := hA.1
      simp only [Char.reduceToNat] at hA hZ
      omega
    · omega
  · decide
  · decide

theorem isWhitespace_of_addressChar {c : Char} (h : addressChar c = true) :
    isWhitespace c = false := by
  have hc := toNat_of_addressChar h
  simp only [isWhitespace, Bool.or_eq_false_iff, Bool.and_eq_false_iff, decide_eq_false_iff_not,
    beq_eq_false_iff_ne]
  omega

end CyberSentinel.IpAddr
