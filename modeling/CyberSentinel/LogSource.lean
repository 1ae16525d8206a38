import CyberSentinel.Logs

/-!
# The source a log message names

The words of a failed login are those of the daemon, with the user name's own among them, and the
source is read after the first `from`. A user name with that word in it takes the daemon's place,
and one that is long enough has the message cut inside the address or the port. `source_genuine_iff`
says which user names leave the record with the genuine source or none.
-/

namespace CyberSentinel.Logs

open Texts Numerals

def portOf (rest : List Text) : Option UInt16 :=
  (rest[0]?.filter (· == "port".toList)).bind (fun _ => rest[1]?.bind parsePort)

theorem portOf_port (rest : List Text) :
    portOf ("port".toList :: rest) = rest[0]?.bind parsePort := rfl

theorem portOf_other {token : Text} (h : token ≠ "port".toList) (rest : List Text) :
    portOf (token :: rest) = none := by
  have hfilter : (some token).filter (· == "port".toList) = none := by
    rw [Option.filter, if_neg (by rwa [beq_iff_eq])]
  rw [portOf, List.getElem?_cons_zero, hfilter, Option.bind_none]

theorem portOf_eq_some_iff (rest : List Text) (q : UInt16) :
    portOf rest = some q ↔ rest[0]? = some "port".toList ∧ rest[1]?.bind parsePort = some q := by
  cases rest with
  | nil => exact ⟨fun h => (nomatch h), fun h => (nomatch h.1)⟩
  | cons token rest =>
    by_cases h : token = "port".toList
    · rw [h, portOf_port]
      exact (and_iff_right rfl).symm
    · rw [portOf_other h]
      exact ⟨fun hq => (nomatch hq), fun hq => absurd (Option.some.inj hq.1) h⟩

theorem portOf_singleton (token : Text) : portOf [token] = none := by
  by_cases h : token = "port".toList
  · rw [h, portOf_port]
    rfl
  · exact portOf_other h []

/-- The source that the words after `from` name. -/
def sourceOf : List Text → Option IpAddr × Option UInt16
  | [] => (none, none)
  | candidate :: rest =>
    match IpAddr.parse candidate with
    | none => (none, none)
    | some address => (some address, portOf rest)

/-- The words after the first `from`. -/
def afterFrom (tokens : List Text) : Option (List Text) :=
  (tokens.idxOf? "from".toList).map (fun position => tokens.drop (position + 1))

theorem afterFrom_none {tokens : List Text} (h : "from".toList ∉ tokens) :
    afterFrom tokens = none := by
  rw [afterFrom, List.idxOf?_eq_none_iff.2 h, Option.map_none]

theorem afterFrom_split {before : List Text} (h : "from".toList ∉ before) (rest : List Text) :
    afterFrom (before ++ "from".toList :: rest) = some rest := by
  have hposition : (before ++ "from".toList :: rest).idxOf? "from".toList = some before.length := by
    induction before with
    | nil => simp [List.idxOf?_cons]
    | cons token before ih =>
      rw [List.mem_cons, not_or] at h
      have hne : (token == "from".toList) = false := beq_false_of_ne (Ne.symm h.1)
      rw [List.cons_append, List.idxOf?_cons, hne, ih h.2]
      rfl
  rw [afterFrom, hposition, Option.map_some, List.append_cons]
  exact congrArg some (List.drop_left' (by simp))

theorem extractSource_eq (quoted : String → String) (tokens : List Text) :
    ((extractSource quoted tokens).1, (extractSource quoted tokens).2.1) =
      ((afterFrom tokens).map sourceOf).getD (none, none) := by
  rw [extractSource, afterFrom]
  cases tokens.idxOf? "from".toList with
  | none => rfl
  | some position =>
    have hget (i : ℕ) : tokens[position + 1 + i]? = (tokens.drop (position + 1))[i]? :=
      List.getElem?_drop.symm
    have h1 := hget 0
    have h2 := hget 1
    have h3 := hget 2
    rw [Option.map_some, Option.map_some, Option.getD_some]
    generalize tokens.drop (position + 1) = rest at h1 h2 h3 ⊢
    simp only [add_zero, add_assoc, Nat.reduceAdd] at h1 h2 h3
    dsimp only
    rw [h1, h2, h3]
    cases rest with
    | nil => rfl
    | cons candidate rest =>
      rw [sourceOf]
      dsimp only [List.getElem?_cons_zero]
      cases IpAddr.parse candidate with
      | none => rfl
      | some address => rfl

def opening (invalid : Bool) : Text :=
  "Failed password for".toList ++ if invalid then " invalid user ".toList else " ".toList

def closing (address : IpAddr) (port : UInt16) : Text :=
  " from ".toList ++ address.display ++ " port ".toList ++ Nat.toDigits 10 port.toNat ++
    " ssh2".toList

def failedPassword (invalid : Bool) (user : String) (address : IpAddr) (port : UInt16) : String :=
  String.ofList (opening invalid ++ user.toList ++ closing address port)

def keptUser (invalid : Bool) (user : String) : Text :=
  (sanitise user.toList (maxMessage - (opening invalid).length)).1

/-- How many bytes of the message kept are left after the user name. -/
def room (invalid : Bool) (user : String) : ℕ :=
  maxMessage - ((opening invalid).length + byteLength (user.toList.map cleanChar))

def Plain (c : Char) : Prop := cleanChar c = c ∧ Char.utf8Size c = 1

instance : DecidablePred Plain := fun _ => inferInstanceAs (Decidable (_ ∧ _))

theorem plain_of_all {text : Text} (h : text.all (fun c => decide (Plain c)) = true) :
    ∀ c ∈ text, Plain c := fun c hc => of_decide_eq_true (List.all_eq_true.1 h c hc)

theorem plain_of_addressChar {c : Char} (h : IpAddr.addressChar c = true) : Plain c := by
  have hc := IpAddr.toNat_of_addressChar h
  constructor
  · apply if_neg
    simp only [isControl, Bool.or_eq_true, Bool.and_eq_true, decide_eq_true_eq]
    omega
  · have hle : c.toNat ≤ 127 := by omega
    rw [Char.utf8Size_eq_one_iff, UInt32.le_iff_toNat_le]
    exact hle

theorem plain_of_mem_closing {address : IpAddr} {port : UInt16} {c : Char}
    (hc : c ∈ closing address port) : Plain c := by
  have hfrom : ∀ c ∈ " from ".toList, Plain c := plain_of_all (by decide)
  have hport : ∀ c ∈ " port ".toList, Plain c := plain_of_all (by decide)
  have hssh2 : ∀ c ∈ " ssh2".toList, Plain c := plain_of_all (by decide)
  rcases List.mem_append.1 hc with hc | hc
  · rcases List.mem_append.1 hc with hc | hc
    · rcases List.mem_append.1 hc with hc | hc
      · rcases List.mem_append.1 hc with hc | hc
        · exact hfrom c hc
        · exact plain_of_addressChar (IpAddr.addressChar_of_mem_display hc)
      · exact hport c hc
    · exact plain_of_addressChar (IpAddr.addressChar_of_mem_toDigits (by decide) (by decide) hc)
  · exact hssh2 c hc

theorem plain_of_mem_opening (invalid : Bool) : ∀ c ∈ opening invalid, Plain c := by
  cases invalid with
  | false => exact plain_of_all (by decide)
  | true => exact plain_of_all (by decide)

theorem map_cleanChar_of_plain {text : Text} (h : ∀ c ∈ text, Plain c) :
    text.map cleanChar = text :=
  (List.map_congr_left (fun c hc => (h c hc).1)).trans (List.map_id' text)

theorem size_of_plain {text : Text} (h : ∀ c ∈ text, Plain c) :
    size Char.utf8Size text = text.length := by
  rw [size, List.map_congr_left (fun c hc => (h c hc).2)]
  simp

/-- The message kept is the opening, what fits of the user name, and what fits of the rest. -/
theorem sanitise_failedPassword (invalid : Bool) (user : String) (address : IpAddr)
    (port : UInt16) :
    (sanitise (failedPassword invalid user address port).toList maxMessage).1 =
      opening invalid ++
        (keptUser invalid user ++ (closing address port).take (room invalid user)) := by
  have hopening := plain_of_mem_opening invalid
  have hlength : (opening invalid).length ≤ maxMessage := by
    cases invalid with
    | false => decide
    | true => decide
  have htake : (opening invalid).take (maxMessage - 0) = opening invalid :=
    List.take_of_length_le hlength
  have hkept : takeWithin Char.utf8Size maxMessage (opening invalid).length
      (user.toList.map cleanChar) = keptUser invalid user := by
    have hshift := takeWithin_add Char.utf8Size (maxMessage - (opening invalid).length) 0
      (opening invalid).length (user.toList.map cleanChar)
    rw [Nat.sub_add_cancel hlength, Nat.zero_add] at hshift
    rw [hshift, keptUser, sanitise, sanitiseFrom_fst]
    rfl
  have hclosing (c : Char) (hc : c ∈ closing address port) : Plain c := plain_of_mem_closing hc
  rw [sanitise, sanitiseFrom_fst, failedPassword, String.toList_ofList, List.append_assoc,
    List.map_append, List.map_append, map_cleanChar_of_plain hopening,
    map_cleanChar_of_plain hclosing, takeWithin_append, takeWithin_append,
    takeWithin_eq_take _ _ (fun c hc => (hopening c hc).2),
    takeWithin_eq_take _ _ (fun c hc => (hclosing c hc).2), size_of_plain hopening]
  have hzero : size Char.utf8Size [] = 0 := rfl
  rw [hzero, Nat.zero_add, htake, hkept, List.nil_append, room, byteLength]

theorem splitWhitespace_take {word : Text} (hne : word ≠ [])
    (hword : ∀ c ∈ word, isWhitespace c = false) {c : Char} (hc : isWhitespace c = true)
    (rest : Text) (m : ℕ) :
    splitWhitespace ((word ++ c :: rest).take m) =
      if m = 0 then [] else word.take m :: splitWhitespace (rest.take (m - word.length - 1)) := by
  split_ifs with hm
  · rw [hm, List.take_zero, splitWhitespace_nil]
  · by_cases hle : m ≤ word.length
    · have hcut : m - word.length - 1 = 0 := by omega
      have hpart : word.take m ≠ [] := by simp [hne, hm]
      rw [List.take_append_of_le_length hle, hcut, List.take_zero, splitWhitespace_nil,
        splitWhitespace_word hpart (fun c hc => hword c (List.mem_of_mem_take hc))]
    · have hm' : m = word.length + (m - word.length - 1 + 1) := by omega
      rw [List.take_of_length_le (by omega : word.length ≤ m)]
      nth_rewrite 1 [hm']
      rw [List.take_length_add_append, List.take_succ_cons, splitWhitespace_cons hne hword hc]

/-- The words the daemon writes after the user name, from the `from` on. -/
def closingWords (address : IpAddr) (port : UInt16) : Text :=
  "from".toList ++ ' ' :: (address.display ++ ' ' :: ("port".toList ++
    ' ' :: (Nat.toDigits 10 port.toNat ++ ' ' :: "ssh2".toList)))

theorem closing_eq (address : IpAddr) (port : UInt16) :
    closing address port = ' ' :: closingWords address port := by
  have hfrom : " from ".toList = ' ' :: ("from".toList ++ [' ']) := rfl
  have hport : " port ".toList = ' ' :: ("port".toList ++ [' ']) := rfl
  have hssh2 : " ssh2".toList = ' ' :: "ssh2".toList := rfl
  change " from ".toList ++ address.display ++ " port ".toList ++ Nat.toDigits 10 port.toNat ++
    " ssh2".toList = ' ' :: ("from".toList ++ ' ' :: (address.display ++ ' ' :: ("port".toList ++
    ' ' :: (Nat.toDigits 10 port.toNat ++ ' ' :: "ssh2".toList))))
  rw [hfrom, hport, hssh2]
  simp only [List.append_assoc, List.cons_append, List.nil_append]

theorem display_ne_nil (address : IpAddr) : address.display ≠ [] := by
  intro h
  have hparse := IpAddr.parse_display address
  rw [h] at hparse
  exact absurd hparse (by rw [(by decide : IpAddr.parse [] = none)]; simp)

theorem splitWhitespace_closing (address : IpAddr) (port : UInt16) (m : ℕ) :
    splitWhitespace ((closingWords address port).take m) =
      if m = 0 then [] else "from".toList.take m ::
        if m - 5 = 0 then [] else address.display.take (m - 5) ::
          if m - 6 - address.display.length = 0 then []
          else "port".toList.take (m - 6 - address.display.length) ::
            if m - 11 - address.display.length = 0 then []
            else (Nat.toDigits 10 port.toNat).take (m - 11 - address.display.length) ::
              splitWhitespace ("ssh2".toList.take (m - 12 - address.display.length -
                (Nat.toDigits 10 port.toNat).length)) := by
  have hspace : isWhitespace ' ' = true := by decide
  have hfromWord : ∀ c ∈ "from".toList, isWhitespace c = false := by
    simpa using List.all_eq_true.1 (by decide : "from".toList.all (fun c => !isWhitespace c) = true)
  have hportWord : ∀ c ∈ "port".toList, isWhitespace c = false := by
    simpa using List.all_eq_true.1 (by decide : "port".toList.all (fun c => !isWhitespace c) = true)
  have hdisplay (c : Char) (hc : c ∈ address.display) : isWhitespace c = false :=
    IpAddr.isWhitespace_of_addressChar (IpAddr.addressChar_of_mem_display hc)
  have hdigits (c : Char) (hc : c ∈ Nat.toDigits 10 port.toNat) : isWhitespace c = false :=
    IpAddr.isWhitespace_of_addressChar (IpAddr.addressChar_of_mem_toDigits
      (by decide) (by decide) hc)
  have hfrom : m - "from".toList.length - 1 = m - 5 := by simp; omega
  have hport : m - 5 - address.display.length - 1 = m - 6 - address.display.length := by omega
  have hnumber : m - 6 - address.display.length - "port".toList.length - 1 =
      m - 11 - address.display.length := by
    simp
    omega
  have hlast : m - 11 - address.display.length - (Nat.toDigits 10 port.toNat).length - 1 =
      m - 12 - address.display.length - (Nat.toDigits 10 port.toNat).length := by omega
  rw [closingWords, splitWhitespace_take (by decide) hfromWord hspace, hfrom,
    splitWhitespace_take (display_ne_nil address) hdisplay hspace, hport,
    splitWhitespace_take (by decide) hportWord hspace, hnumber,
    splitWhitespace_take Nat.toDigits_ne_nil hdigits hspace, hlast]

/-- The first of the daemon's words, or what is left of it, is no part of a source. -/
theorem head_closing {address : IpAddr} {port : UInt16} {m : ℕ} {token : Text}
    (h : token ∈ (splitWhitespace ((closingWords address port).take m)).head?) :
    IpAddr.parse token = none ∧ token ≠ "port".toList ∧ parsePort token = none := by
  rw [splitWhitespace_closing] at h
  split_ifs at h with hm
  · cases h
  all_goals
    obtain rfl : "from".toList.take m = token := Option.some.inj h
    rcases (by omega : m = 1 ∨ m = 2 ∨ m = 3 ∨ 4 ≤ m) with rfl | rfl | rfl | hm
    · decide
    · decide
    · decide
    · rw [List.take_of_length_le hm]
      decide

theorem portOf_append (rest : List Text) {more : List Text}
    (hmore : ∀ token ∈ more.head?, token ≠ "port".toList ∧ parsePort token = none) :
    portOf (rest ++ more) = portOf rest := by
  cases more with
  | nil => rw [List.append_nil]
  | cons token more =>
    obtain ⟨hport, hnumber⟩ := hmore token rfl
    rcases rest with _ | ⟨first, _ | ⟨second, rest⟩⟩
    · exact portOf_other hport more
    · by_cases hfirst : first = "port".toList
      · rw [hfirst]
        exact hnumber
      · rw [List.singleton_append, portOf_other hfirst, portOf_other hfirst]
    · rfl

theorem sourceOf_append (rest : List Text) {more : List Text}
    (hmore : ∀ token ∈ more.head?,
      IpAddr.parse token = none ∧ token ≠ "port".toList ∧ parsePort token = none) :
    sourceOf (rest ++ more) = sourceOf rest := by
  cases rest with
  | nil =>
    cases more with
    | nil => rfl
    | cons token more => simp only [List.nil_append, sourceOf, (hmore token rfl).1]
  | cons candidate rest =>
    rw [List.cons_append, sourceOf, sourceOf,
      portOf_append rest (fun token htoken => (hmore token htoken).2)]

/-- Where the user name says nothing, the source is what is left of the daemon's words. -/
theorem afterFrom_closing {before : List Text} (hbefore : "from".toList ∉ before)
    (address : IpAddr) (port : UInt16) (m : ℕ) :
    ((afterFrom (before ++ splitWhitespace ((closingWords address port).take m))).map sourceOf).getD
        (none, none) =
      (IpAddr.parse (address.display.take (m - 5)),
        parsePort ((Nat.toDigits 10 port.toNat).take (m - 11 - address.display.length))) := by
  have hempty : IpAddr.parse [] = none ∧ parsePort [] = none := by decide
  rw [splitWhitespace_closing]
  by_cases hm : m < 4
  · have hfrom : "from".toList.take m ≠ "from".toList := by
      interval_cases m <;> decide
    have hnone : afterFrom (before ++ (if m = 0 then [] else ["from".toList.take m])) = none := by
      refine afterFrom_none (fun h => ?_)
      rcases List.mem_append.1 h with h | h
      · exact hbefore h
      · split_ifs at h
        · cases h
        · exact hfrom (List.mem_singleton.1 h).symm
    have haddress : m - 5 = 0 := by omega
    have hport : m - 11 - address.display.length = 0 := by omega
    rw [if_pos haddress, hnone, haddress, hport, List.take_zero, List.take_zero, hempty.1, hempty.2]
    rfl
  · rw [if_neg (by omega), List.take_of_length_le (by simp; omega), afterFrom_split hbefore,
      Option.map_some, Option.getD_some]
    by_cases haddress : m - 5 = 0
    · have hport : m - 11 - address.display.length = 0 := by omega
      rw [if_pos haddress, haddress, hport, List.take_zero, List.take_zero, hempty.1, hempty.2]
      rfl
    · rw [if_neg haddress, sourceOf]
      by_cases hwhole : m - 5 < address.display.length
      · -- the address is cut, and nothing after it is left
        have hnext : m - 6 - address.display.length = 0 := by omega
        have hport : m - 11 - address.display.length = 0 := by omega
        rw [if_pos hnext, hport, List.take_zero, hempty.2]
        cases IpAddr.parse (address.display.take (m - 5)) with
        | none => rfl
        | some b => rfl
      · rw [List.take_of_length_le (by omega), IpAddr.parse_display]
        dsimp only
        by_cases hport : m - 11 - address.display.length = 0
        · rw [if_pos hport, hport, List.take_zero, hempty.2]
          split_ifs
          · rfl
          · rw [portOf_singleton]
        · rw [if_neg (by omega), if_neg hport, List.take_of_length_le (by simp; omega), portOf_port]
          rfl

def namedSource (invalid : Bool) (user : String) (address : IpAddr) (port : UInt16) :
    Option IpAddr × Option UInt16 :=
  match afterFrom (splitWhitespace (keptUser invalid user)) with
  | some rest => sourceOf rest
  | none =>
    (IpAddr.parse (address.display.take (room invalid user - 6)),
      parsePort ((Nat.toDigits 10 port.toNat).take
        (room invalid user - 12 - address.display.length)))

theorem splitWhitespace_failedPassword (invalid : Bool) (user : String) (address : IpAddr)
    (port : UInt16) :
    ∃ before, "from".toList ∉ before ∧
      splitWhitespace (sanitise (failedPassword invalid user address port).toList maxMessage).1 =
        before ++ (splitWhitespace (keptUser invalid user) ++
          splitWhitespace ((closingWords address port).take (room invalid user - 1))) := by
  have hspace : isWhitespace ' ' = true := by decide
  obtain ⟨front, hfront, hfrom⟩ : ∃ front, opening invalid = front ++ [' '] ∧
      "from".toList ∉ splitWhitespace front := by
    cases invalid with
    | false => exact ⟨"Failed password for".toList, by decide +kernel, by decide +kernel⟩
    | true => exact ⟨"Failed password for invalid user".toList, by
      decide +kernel, by decide +kernel⟩
  refine ⟨splitWhitespace front, hfrom, ?_⟩
  rw [sanitise_failedPassword, hfront, List.append_assoc, List.singleton_append,
    splitWhitespace_append hspace, closing_eq]
  cases room invalid user with
  | zero => simp
  | succ room => rw [List.take_succ_cons, splitWhitespace_append hspace, Nat.add_sub_cancel]

theorem afterFrom_eq_some {tokens rest : List Text} (h : afterFrom tokens = some rest) :
    ∃ before, "from".toList ∉ before ∧ tokens = before ++ "from".toList :: rest := by
  by_cases hmem : "from".toList ∈ tokens
  · obtain ⟨before, after, rfl, hbefore⟩ := List.eq_append_cons_of_mem hmem
    rw [afterFrom_split hbefore, Option.some.injEq] at h
    exact ⟨before, hbefore, by rw [h]⟩
  · rw [afterFrom_none hmem] at h
    cases h

theorem extractSource_failedPassword (quoted : String → String) (invalid : Bool) (user : String)
    (address : IpAddr) (port : UInt16) :
    let source := extractSource quoted
      (splitWhitespace (sanitise (failedPassword invalid user address port).toList maxMessage).1)
    (source.1, source.2.1) = namedSource invalid user address port := by
  obtain ⟨before, hbefore, hwords⟩ := splitWhitespace_failedPassword invalid user address port
  dsimp only
  rw [extractSource_eq, hwords, namedSource]
  cases hafter : afterFrom (splitWhitespace (keptUser invalid user)) with
  | some rest =>
    obtain ⟨front, hfront, hsplit⟩ := afterFrom_eq_some hafter
    have hnone : "from".toList ∉ before ++ front := by
      rw [List.mem_append, not_or]
      exact ⟨hbefore, hfront⟩
    rw [hsplit, List.append_assoc, List.cons_append, ← List.append_assoc, afterFrom_split hnone,
      Option.map_some, Option.getD_some]
    exact sourceOf_append rest (fun token => head_closing)
  | none =>
    have hnone : "from".toList ∉ before ++ splitWhitespace (keptUser invalid user) := by
      rw [afterFrom, Option.map_eq_none_iff, List.idxOf?_eq_none_iff] at hafter
      rw [List.mem_append, not_or]
      exact ⟨hbefore, hafter⟩
    have haddress : room invalid user - 1 - 5 = room invalid user - 6 := by omega
    have hport : room invalid user - 1 - 11 = room invalid user - 12 := by omega
    rw [← List.append_assoc, afterFrom_closing hnone, haddress, hport]

def Genuine (address : IpAddr) (port : UInt16) (source : Option IpAddr × Option UInt16) : Prop :=
  (source.1 = none ∨ source.1 = some address) ∧ (source.2 = none ∨ source.2 = some port)

/-- No record of the failed login carries another source than the genuine one. -/
def SourceGenuine (invalid : Bool) (user : String) (address : IpAddr) (port : UInt16) : Prop :=
  ∀ quoted service logSource parsed,
    parseAuthMessage quoted (failedPassword invalid user address port) service logSource =
      some parsed →
    Genuine address port (parsed.event.sourceAddress, parsed.event.sourcePort)

/-- If the kept part of the user name has the word `from`, what follows the first one is no other
address, nor the address with another port. If it has not, the limit does not cut the address or the
port to a text of another. -/
def NamesNoOther (invalid : Bool) (user : String) (address : IpAddr) (port : UInt16) : Prop :=
  match afterFrom (splitWhitespace (keptUser invalid user)) with
  | some rest =>
    ∀ b, rest[0]?.bind IpAddr.parse = some b →
      b = address ∧ ∀ q, rest[1]? = some "port".toList → rest[2]?.bind parsePort = some q → q = port
  | none =>
    (∀ b, IpAddr.parse (address.display.take (room invalid user - 6)) = some b → b = address) ∧
      ∀ q, parsePort ((Nat.toDigits 10 port.toNat).take
        (room invalid user - 12 - address.display.length)) = some q → q = port

theorem outcomeOf_failedPassword (invalid : Bool) (user : String) (address : IpAddr)
    (port : UInt16) :
    outcomeOf ((sanitise (failedPassword invalid user address port).toList maxMessage).1.map
      Char.toLower) = some .failure := by
  obtain ⟨rest, hrest⟩ : ∃ rest, opening invalid = "Failed password".toList ++ rest := by
    cases invalid with
    | false => exact ⟨" for ".toList, by decide +kernel⟩
    | true => exact ⟨" for invalid user ".toList, by decide +kernel⟩
  have hlower : "Failed password".toList.map Char.toLower = "failed password".toList := by
    decide +kernel
  rw [sanitise_failedPassword, hrest, List.append_assoc, List.map_append, hlower]
  exact if_pos (.inl (List.prefix_append _ _))

theorem parseAuthMessage_source (quoted : String → String) {message : String}
    {outcome : AuthOutcome}
    (houtcome : outcomeOf ((sanitise message.toList maxMessage).1.map Char.toLower) = some outcome)
    (service : Option String) (logSource : String) :
    ∃ parsed, parseAuthMessage quoted message service logSource = some parsed ∧
      (parsed.event.sourceAddress, parsed.event.sourcePort) =
        ((extractSource quoted (splitWhitespace (sanitise message.toList maxMessage).1)).1,
          (extractSource quoted (splitWhitespace (sanitise message.toList maxMessage).1)).2.1) := by
  rw [parseAuthMessage]
  generalize sanitise message.toList maxMessage = clean at houtcome ⊢
  obtain ⟨clean, changed⟩ := clean
  dsimp only at houtcome ⊢
  rw [houtcome]
  exact ⟨_, rfl, rfl⟩

theorem parseAuthMessage_failedPassword (quoted : String → String) (invalid : Bool) (user : String)
    (address : IpAddr) (port : UInt16) (service : Option String) (logSource : String) :
    ∃ parsed,
      parseAuthMessage quoted (failedPassword invalid user address port) service logSource =
        some parsed ∧
      (parsed.event.sourceAddress, parsed.event.sourcePort) =
        namedSource invalid user address port := by
  obtain ⟨parsed, hparsed, hsource⟩ := parseAuthMessage_source quoted
    (outcomeOf_failedPassword invalid user address port) service logSource
  have hnamed := extractSource_failedPassword quoted invalid user address port
  exact ⟨parsed, hparsed, hsource.trans hnamed⟩

theorem none_or_some_iff {β : Type*} (found : Option β) (b : β) :
    (found = none ∨ found = some b) ↔ ∀ c, found = some c → c = b := by
  cases found with
  | none => simp
  | some c => simp

theorem genuine_sourceOf_iff (address : IpAddr) (port : UInt16) (rest : List Text) :
    Genuine address port (sourceOf rest) ↔
      ∀ b, rest[0]?.bind IpAddr.parse = some b → b = address ∧
        ∀ q, rest[1]? = some "port".toList → rest[2]?.bind parsePort = some q → q = port := by
  cases rest with
  | nil => simp [Genuine, sourceOf]
  | cons candidate rest =>
    rw [sourceOf, List.getElem?_cons_zero, Option.bind_some]
    cases IpAddr.parse candidate with
    | none => simp [Genuine]
    | some b =>
      rw [Genuine, none_or_some_iff, none_or_some_iff]
      constructor
      · rintro ⟨haddress, hport⟩ c hc
        refine ⟨haddress c hc, fun q hword hnumber => hport q ?_⟩
        exact (portOf_eq_some_iff rest q).2 ⟨hword, hnumber⟩
      · intro h
        refine ⟨fun c hc => (h c hc).1, fun q hq => ?_⟩
        obtain ⟨hword, hnumber⟩ := (portOf_eq_some_iff rest q).1 hq
        exact (h b rfl).2 q hword hnumber

/-- Exactly the user names that name no other source leave the record's source alone. -/
theorem source_genuine_iff (invalid : Bool) (user : String) (address : IpAddr) (port : UInt16) :
    SourceGenuine invalid user address port ↔ NamesNoOther invalid user address port := by
  have hgenuine : SourceGenuine invalid user address port ↔
      Genuine address port (namedSource invalid user address port) := by
    constructor
    · intro h
      obtain ⟨parsed, hparsed, hsource⟩ :=
        parseAuthMessage_failedPassword id invalid user address port none ""
      rw [← hsource]
      exact h id none "" parsed hparsed
    · intro h quoted service logSource parsed hparsed
      obtain ⟨parsed', hparsed', hsource⟩ :=
        parseAuthMessage_failedPassword quoted invalid user address port service logSource
      obtain rfl : parsed' = parsed := Option.some.inj (hparsed'.symm.trans hparsed)
      rwa [hsource]
  rw [hgenuine, namedSource, NamesNoOther]
  cases afterFrom (splitWhitespace (keptUser invalid user)) with
  | some rest => exact genuine_sourceOf_iff address port rest
  | none => exact and_congr (none_or_some_iff _ _) (none_or_some_iff _ _)

/-- A user name that puts its own source before the genuine one. -/
theorem source_forged :
    ¬∀ (invalid : Bool) (user : String) (address : IpAddr) (port : UInt16), '\n' ∉ user.toList →
      SourceGenuine invalid user address port := by
  intro h
  have hforged : namedSource true "x from 1.2.3.4 port 99" (.v4 0xcb007107) 51000 =
      (some (.v4 0x01020304), some 99) := by decide +kernel
  obtain ⟨parsed, hparsed, hsource⟩ :=
    parseAuthMessage_failedPassword id true "x from 1.2.3.4 port 99" (.v4 0xcb007107) 51000 none ""
  have hgenuine := h true "x from 1.2.3.4 port 99" (.v4 0xcb007107) 51000 (by decide +kernel)
    id none "" parsed hparsed
  rw [hsource, hforged] at hgenuine
  exact absurd hgenuine.1 (by decide)

end CyberSentinel.Logs
