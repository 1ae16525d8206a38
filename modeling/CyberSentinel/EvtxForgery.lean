import CyberSentinel.Evtx

/-!
# Account names in rendered events

A rendered event is a template with the account name in one of its `Data` elements. An account name
put there as it is can add values of a field but not take away the genuine one, which makes the
field refused; one that is escaped is a value like any other, and decoding gives it back.
-/

namespace CyberSentinel.Evtx

open Numerals Substrings Texts

theorem dataFields_eq (xml name : Text) :
    dataFields xml name =
      match find (openingTag name) xml with
      | none => []
      | some start =>
        let after := xml.drop (start + (openingTag name).length)
        match find closingTag after with
        | some stop => after.take stop :: dataFields (after.drop stop) name
        | none => [] := by
  rw [dataFields]
  split
  · rename_i hnone
    rw [hnone]
  · rename_i start hstart
    rewrite [hstart]
    rfl

theorem dataFields_nil (name : Text) : dataFields [] name = [] := by
  rw [dataFields_eq]
  rfl

theorem dataFields_cons {name xml : Text} {c : Char} (h : ¬openingTag name <+: c :: xml) :
    dataFields (c :: xml) name = dataFields xml name := by
  rw [dataFields_eq, dataFields_eq xml, find_cons h]
  cases find (openingTag name) xml with
  | none => rfl
  | some start =>
    have hdrop : (c :: xml).drop (start + 1 + (openingTag name).length) =
        xml.drop (start + (openingTag name).length) := by
      rw [Nat.add_right_comm, List.drop_succ_cons]
    rw [Option.map_some]
    dsimp only
    rw [hdrop]

theorem dataFields_opening (name after : Text) :
    dataFields (openingTag name ++ after) name =
      match find closingTag after with
      | some stop => after.take stop :: dataFields (after.drop stop) name
      | none => [] := by
  rw [dataFields_eq, find_of_isPrefix (List.prefix_append _ _)]
  dsimp only
  rw [Nat.zero_add, List.drop_left]

def PlainName (name : Text) : Prop := '<' ∉ name ∧ '"' ∉ name

instance : DecidablePred PlainName := fun _ => inferInstanceAs (Decidable (_ ∧ _))

def tagBody (name : Text) : Text := "Data Name=\"".toList ++ name ++ "\">".toList

theorem tagBody_eq (name : Text) :
    tagBody name = "Data Name=\"".toList ++ (name ++ '"' :: ['>']) :=
  List.append_assoc _ name ['"', '>']

theorem openingTag_eq (name : Text) : openingTag name = '<' :: tagBody name := rfl

theorem lt_not_mem_tagBody {name : Text} (h : PlainName name) : '<' ∉ tagBody name := by
  intro hmem
  rcases List.mem_append.1 hmem with hmem | hmem
  · rcases List.mem_append.1 hmem with hmem | hmem
    · exact absurd hmem (by decide)
    · exact h.1 hmem
  · exact absurd hmem (by decide)

def tagStart : Text := '<' :: "Data Name=\"".toList

theorem tagStart_isInfix (name : Text) : tagStart <:+: openingTag name := by
  have hbegins : tagStart <+: openingTag name := by
    rw [openingTag_eq, tagBody_eq]
    exact ⟨_, rfl⟩
  exact hbegins.isInfix

/-- A part without the tag adds nothing, when the next one begins a tag. -/
theorem dataFields_skip {name part rest : Text} (hname : PlainName name)
    (hpart : ¬openingTag name <:+: part) (hrest : StartsWith '<' rest) :
    dataFields (part ++ rest) name = dataFields rest name := by
  induction part with
  | nil => rfl
  | cons c part ih =>
    have hnot : ¬openingTag name <+: c :: (part ++ rest) := fun h =>
      hpart (isPrefix_cons_of_append (lt_not_mem_tagBody hname) hrest h).isInfix
    rw [List.cons_append, dataFields_cons hnot]
    exact ih (fun h => hpart (h.trans (List.suffix_cons c part).isInfix))

theorem closingTag_eq : closingTag = '<' :: "/Data>".toList := rfl

theorem not_openingTag_closing (name : Text) {gap : Text} (hgap : '<' ∉ gap) :
    ¬openingTag name <:+: closingTag ++ gap := by
  rw [closingTag_eq, openingTag_eq, List.cons_append, List.infix_cons_iff]
  rintro (hbegins | hwithin)
  · have hfirst : 'D' = '/' := (List.cons_prefix_cons.1 (List.cons_prefix_cons.1 hbegins).2).1
    exact absurd hfirst (by decide)
  · have hmem := hwithin.subset List.mem_cons_self
    rcases List.mem_append.1 hmem with hmem | hmem
    · exact absurd hmem (by decide)
    · exact hgap hmem

/-- Whatever text comes before the end of an element, the values of the elements after it are still
found. -/
theorem dataFields_forged {name gap rest : Text} (hname : PlainName name) (hgap : '<' ∉ gap)
    (hrest : StartsWith '<' rest) (part : Text) :
    ∃ forged, dataFields (part ++ (closingTag ++ gap ++ rest)) name =
      forged ++ dataFields rest name := by
  induction hn : part.length using Nat.strong_induction_on generalizing part with
  | _ n ih =>
    subst hn
    cases part with
    | nil => exact ⟨[], dataFields_skip hname (not_openingTag_closing name hgap) hrest⟩
    | cons c part =>
      by_cases hopen : openingTag name <+: c :: part
      · obtain ⟨inner, hinner⟩ := hopen
        obtain ⟨stop, hstop, hfind⟩ := find_le closingTag inner (gap ++ rest)
        have hshorter : (inner.drop stop).length < (c :: part).length := by
          rw [← hinner, List.length_append, List.length_drop, openingTag_eq, List.length_cons]
          omega
        obtain ⟨forged, hforged⟩ := ih (inner.drop stop).length hshorter (inner.drop stop) rfl
        rw [← hinner]
        refine ⟨inner.take stop :: forged, ?_⟩
        rw [List.append_assoc, List.append_assoc closingTag, dataFields_opening, hfind]
        dsimp only
        rw [List.take_append_of_le_length hstop, List.drop_append_of_le_length hstop,
          List.cons_append, ← hforged, List.append_assoc]
      · have hnot : ¬openingTag name <+: c :: (part ++ (closingTag ++ gap ++ rest)) := fun h =>
          hopen (isPrefix_cons_of_append (lt_not_mem_tagBody hname) (fun c hc => by
            rw [← Option.some.inj hc]) h)
        obtain ⟨forged, hforged⟩ := ih part.length (Nat.lt_succ_self _) part rfl
        exact ⟨forged, by rw [List.cons_append, dataFields_cons hnot, hforged]⟩

/-- A `Data` element with the text up to the next tag. -/
structure DataElement where
  name : Text
  value : Text
  gap : Text
  name_plain : PlainName name
  value_plain : '<' ∉ value
  gap_plain : '<' ∉ gap

def DataElement.text (e : DataElement) : Text :=
  openingTag e.name ++ (e.value ++ (closingTag ++ e.gap))

/-- Two names with their quote agree as far as the shorter goes only when they are the same. -/
theorem eq_of_isPrefix_quote {m : Char} {a b x y : Text} (ha : m ∉ a) (hb : m ∉ b)
    (h : a ++ m :: x <+: b ++ m :: y) : a = b := by
  induction a generalizing b with
  | nil =>
    cases b with
    | nil => rfl
    | cons d b => exact absurd (List.cons_prefix_cons.1 h).1 (fun hd =>
      hb (hd ▸ List.mem_cons_self))
  | cons c a ih =>
    rw [List.mem_cons, not_or] at ha
    cases b with
    | nil => exact absurd (List.cons_prefix_cons.1 h).1.symm ha.1
    | cons d b =>
      rw [List.mem_cons, not_or] at hb
      obtain ⟨rfl, htail⟩ := List.cons_prefix_cons.1 h
      rw [ih ha.2 hb.2 htail]

theorem not_openingTag_value {name : Text} (hname : PlainName name) {e : DataElement}
    (hne : e.name ≠ name) : ¬openingTag name <:+: openingTag e.name ++ e.value := by
  rw [openingTag_eq e.name, openingTag_eq name, List.cons_append, List.infix_cons_iff]
  rintro (hbegins | hwithin)
  · have hbody := (List.cons_prefix_cons.1 hbegins).2
    rw [tagBody_eq, tagBody_eq, List.append_assoc, List.prefix_append_right_inj,
      List.append_assoc, List.cons_append] at hbody
    exact hne (eq_of_isPrefix_quote hname.2 e.name_plain.2 hbody).symm
  · rcases List.mem_append.1 (hwithin.subset List.mem_cons_self) with hmem | hmem
    · exact lt_not_mem_tagBody e.name_plain hmem
    · exact e.value_plain hmem

theorem dataFields_element {name rest : Text} (hname : PlainName name) (hrest : StartsWith '<' rest)
    (e : DataElement) :
    dataFields (e.text ++ rest) name =
      (if e.name = name then [e.value] else []) ++ dataFields rest name := by
  have hclosing : dataFields (closingTag ++ e.gap ++ rest) name = dataFields rest name :=
    dataFields_skip hname (not_openingTag_closing name e.gap_plain) hrest
  have hstart : StartsWith '<' (closingTag ++ e.gap ++ rest) := fun c hc =>
    (Option.some.inj hc).symm
  have htext : e.text ++ rest =
      openingTag e.name ++ (e.value ++ (closingTag ++ e.gap ++ rest)) := by
    simp only [DataElement.text, List.append_assoc]
  rw [htext]
  split_ifs with hsame
  · have hfind : find closingTag (e.value ++ (closingTag ++ e.gap ++ rest)) =
        some e.value.length := by
      have hzero : find closingTag (closingTag ++ e.gap ++ rest) = some 0 :=
        find_of_isPrefix (by rw [List.append_assoc]; exact List.prefix_append _ _)
      rw [closingTag_eq] at hzero ⊢
      rw [find_skip e.value_plain, hzero, Option.map_some, Nat.zero_add]
    rw [hsame, dataFields_opening, hfind]
    dsimp only
    rw [List.take_left, List.drop_left, hclosing, List.singleton_append]
  · rw [← List.append_assoc, dataFields_skip hname (not_openingTag_value hname hsame) hstart,
      hclosing, List.nil_append]

def elementsText (elements : List DataElement) : Text := elements.flatMap DataElement.text

def valuesOf (elements : List DataElement) (name : Text) : List Text :=
  (elements.filter (fun e => e.name == name)).map DataElement.value

theorem startsWith_elements {elements : List DataElement} {rest : Text}
    (hrest : StartsWith '<' rest) : StartsWith '<' (elementsText elements ++ rest) := by
  cases elements with
  | nil => exact hrest
  | cons e elements => exact fun c hc => (Option.some.inj hc).symm

theorem dataFields_elements {name rest : Text} (hname : PlainName name)
    (hrest : StartsWith '<' rest) (elements : List DataElement) :
    dataFields (elementsText elements ++ rest) name =
      valuesOf elements name ++ dataFields rest name := by
  induction elements with
  | nil => rfl
  | cons e elements ih =>
    have htext : elementsText (e :: elements) ++ rest =
        e.text ++ (elementsText elements ++ rest) := by
      rw [elementsText, List.flatMap_cons, List.append_assoc, ← elementsText]
    have hvalues : valuesOf (e :: elements) name =
        (if e.name = name then [e.value] else []) ++ valuesOf elements name := by
      by_cases h : e.name = name
      · simp [valuesOf, h]
      · simp [valuesOf, h]
    rw [htext, dataFields_element hname (startsWith_elements hrest), ih, hvalues,
      List.append_assoc]

/-- The id is what stands in the first `EventID` element, whatever comes after it. -/
theorem eventId_eq {before attributes idText : Text} (hbefore : ¬idTag <:+: before)
    (hattributes : '<' ∉ attributes ∧ '>' ∉ attributes) (hidText : '<' ∉ idText) (rest : Text) :
    eventId (before ++ (idTag ++ attributes ++ '>' :: (idText ++ (idEndTag ++ rest)))) =
      parseU32 (trim idText) := by
  set element := idTag ++ attributes ++ '>' :: (idText ++ (idEndTag ++ rest)) with helement
  have hstart : find idTag (before ++ element) = some before.length := by
    have hrest : StartsWith '<' element := fun c hc => (Option.some.inj hc).symm
    have hzero : find idTag element = some 0 := by
      rw [helement, List.append_assoc]
      exact find_of_isPrefix (List.prefix_append _ _)
    have hskip : find idTag (before ++ element) = (find idTag element).map (· + before.length) :=
      find_skip_part (by decide) hbefore hrest
    rw [hskip, hzero, Option.map_some, Nat.zero_add]
  have hopen : find ['>'] element = some (idTag ++ attributes).length := by
    have hnone : '>' ∉ idTag ++ attributes := by
      rw [List.mem_append, not_or]
      exact ⟨by decide, hattributes.2⟩
    have hzero : find ['>'] ('>' :: (idText ++ (idEndTag ++ rest))) = some 0 :=
      find_of_isPrefix (List.prefix_append ['>'] _)
    rw [helement, find_skip hnone, hzero, Option.map_some, Nat.zero_add]
  have hclose : find idEndTag element =
      some ((idTag ++ attributes).length + 1 + idText.length) := by
    -- the element's own bracket is not that of its end
    have hfirst : ¬idEndTag <+: element := by
      intro h
      have hsecond : '/' = 'E' := (List.cons_prefix_cons.1 (List.cons_prefix_cons.1 h).2).1
      exact absurd hsecond (by decide)
    have hnone : '<' ∉ "EventID".toList ++ attributes ++ '>' :: idText := by
      simp only [List.mem_append, List.mem_cons, not_or]
      exact ⟨⟨by decide, hattributes.1⟩, by decide, hidText⟩
    have hzero : find idEndTag (idEndTag ++ rest) = some 0 :=
      find_of_isPrefix (List.prefix_append _ _)
    have hsplit : element = '<' :: ("EventID".toList ++ attributes ++ '>' :: idText ++
        (idEndTag ++ rest)) := by
      rw [helement, List.append_assoc ("EventID".toList ++ attributes), List.cons_append]
      rfl
    have hskip : find idEndTag ("EventID".toList ++ attributes ++ '>' :: idText ++
        (idEndTag ++ rest)) = (find idEndTag (idEndTag ++ rest)).map
          (· + ("EventID".toList ++ attributes ++ '>' :: idText).length) := find_skip hnone _
    have hlength : ("EventID".toList ++ attributes ++ '>' :: idText).length + 1 =
        (idTag ++ attributes).length + 1 + idText.length := by
      rw [List.length_append, List.length_append, List.length_append, List.length_cons]
      have hidTag : idTag.length = "EventID".toList.length + 1 := rfl
      omega
    rw [hsplit] at hfirst ⊢
    rw [find_cons hfirst, hskip, hzero, Option.map_some, Option.map_some, Nat.zero_add, hlength]
  have hvalue : (element.take ((idTag ++ attributes).length + 1 + idText.length)).drop
      ((idTag ++ attributes).length + 1) = idText := by
    have hparts : element = (idTag ++ attributes ++ ['>']) ++ (idText ++ (idEndTag ++ rest)) := by
      rw [helement, List.append_assoc _ ['>'], List.singleton_append]
    have hlength : (idTag ++ attributes).length + 1 = (idTag ++ attributes ++ ['>']).length := by
      simp only [List.length_append, List.length_singleton]
    rw [List.drop_take, Nat.add_sub_cancel_left, hparts, hlength, List.drop_left, List.take_left]
  rw [eventId, hstart]
  simp only [Option.bind_eq_bind, Option.bind_some, List.drop_left, hopen, hclose, hvalue]
  split_ifs with hempty
  · obtain rfl : idText = [] := List.eq_nil_of_length_eq_zero (by omega)
    rfl
  · rfl

def shown (raw : Text) : Option Text :=
  if (cleanValue raw).1.isEmpty then none else some (cleanValue raw).1

theorem field_fst (xml : Text) (name : String) :
    (field xml name).1 =
      match dataFields xml name.toList with
      | [raw] => shown raw
      | _ => none := by
  rw [field]
  rcases dataFields xml name.toList with _ | ⟨raw, _ | ⟨other, occurrences⟩⟩
  · rfl
  · rfl
  · rfl

def userName : Text := "TargetUserName".toList

/-- A rendered Security event but for the account name: the text with the event id, then one element
for each field. -/
structure Template where
  beforeId : Text
  idAttributes : Text
  idText : Text
  afterId : Text
  before : List DataElement
  userGap : Text
  after : List DataElement
  footer : Text
  beforeId_plain : ¬idTag <:+: beforeId
  idAttributes_plain : '<' ∉ idAttributes ∧ '>' ∉ idAttributes
  idText_plain : '<' ∉ idText
  system_plain : ¬tagStart <:+:
    beforeId ++ (idTag ++ idAttributes ++ '>' :: (idText ++ (idEndTag ++ afterId)))
  userGap_plain : '<' ∉ userGap
  footer_plain : ¬tagStart <:+: footer
  footer_starts : StartsWith '<' footer
  names_nodup : (before.map DataElement.name ++ userName :: after.map DataElement.name).Nodup
  address_mem : "IpAddress".toList ∈ after.map DataElement.name
  port_mem : "IpPort".toList ∈ after.map DataElement.name

namespace Template

variable (t : Template)

/-- Everything before the first `Data` element. -/
def system : Text :=
  t.beforeId ++ (idTag ++ t.idAttributes ++ '>' :: (t.idText ++ (idEndTag ++ t.afterId)))

def render (user : Text) : Text :=
  t.system ++ (elementsText t.before ++ (openingTag userName ++ (user ++ (closingTag ++ t.userGap ++
    (elementsText t.after ++ t.footer)))))

def eventId : Option UInt32 := parseU32 (trim t.idText)

/-- What the event genuinely says in a field other than the account's. -/
def genuine (name : String) : Option Text :=
  meaningful (((valuesOf (t.before ++ t.after) name.toList).head?).bind shown)

theorem eventId_render (user : Text) : Evtx.eventId (t.render user) = t.eventId := by
  have hparts : t.render user = t.beforeId ++ (idTag ++ t.idAttributes ++ '>' :: (t.idText ++
      (idEndTag ++ (t.afterId ++ (elementsText t.before ++ (openingTag userName ++ (user ++
        (closingTag ++ t.userGap ++ (elementsText t.after ++ t.footer))))))))) := by
    simp only [render, system, List.append_assoc, List.cons_append]
  rw [hparts]
  exact eventId_eq t.beforeId_plain t.idAttributes_plain t.idText_plain _

theorem dataFields_footer {name : Text} (hname : PlainName name) :
    dataFields t.footer name = [] := by
  have hnot : ¬openingTag name <:+: t.footer := fun h =>
    t.footer_plain ((tagStart_isInfix name).trans h)
  have hend : StartsWith '<' [] := fun c hc => (nomatch hc)
  have hskip := dataFields_skip hname hnot hend
  rwa [List.append_nil, dataFields_nil] at hskip

theorem dataFields_after {name : Text} (hname : PlainName name) :
    dataFields (elementsText t.after ++ t.footer) name = valuesOf t.after name := by
  rw [dataFields_elements hname t.footer_starts, t.dataFields_footer hname, List.append_nil]

theorem dataFields_render {name : Text} (hname : PlainName name) (user : Text) :
    ∃ forged, dataFields (t.render user) name = forged ++ valuesOf t.after name := by
  have hrest : StartsWith '<' (elementsText t.after ++ t.footer) :=
    startsWith_elements t.footer_starts
  obtain ⟨forged, hforged⟩ := dataFields_forged hname t.userGap_plain hrest
    (t.system ++ (elementsText t.before ++ (openingTag userName ++ user)))
  refine ⟨forged, ?_⟩
  rw [← t.dataFields_after hname, ← hforged, render]
  simp only [List.append_assoc]

theorem dataFields_render_plain {name : Text} (hname : PlainName name) (hne : userName ≠ name)
    {user : Text} (huser : '<' ∉ user) :
    dataFields (t.render user) name = valuesOf (t.before ++ t.after) name := by
  have huserPlain : PlainName userName := by decide
  let account : DataElement := ⟨userName, user, t.userGap, huserPlain, huser, t.userGap_plain⟩
  have hrest : StartsWith '<' (elementsText t.after ++ t.footer) :=
    startsWith_elements t.footer_starts
  have haccount : StartsWith '<' (account.text ++ (elementsText t.after ++ t.footer)) :=
    fun c hc => (Option.some.inj hc).symm
  have hsystem : ¬openingTag name <:+: t.system := fun h =>
    t.system_plain ((tagStart_isInfix name).trans h)
  have hparts : t.render user = t.system ++ (elementsText t.before ++
      (account.text ++ (elementsText t.after ++ t.footer))) := by
    simp only [render, DataElement.text, List.append_assoc, account]
  rw [hparts, dataFields_skip hname hsystem (startsWith_elements haccount),
    dataFields_elements hname haccount, dataFields_element hname hrest, if_neg hne,
    List.nil_append, t.dataFields_after hname, valuesOf, valuesOf, valuesOf, List.filter_append,
    List.map_append]

theorem length_valuesOf_le (name : Text) :
    (valuesOf (t.before ++ t.after) name).length ≤ 1 := by
  have hnodup : ((t.before ++ t.after).map DataElement.name).Nodup := by
    rw [List.map_append]
    exact t.names_nodup.sublist
      (List.Sublist.append_left (List.sublist_cons_self _ _) _)
  have hcount := List.nodup_iff_count_le_one.1 hnodup name
  rw [List.count, List.countP_map, List.countP_eq_length_filter] at hcount
  rw [valuesOf, List.length_map]
  exact hcount

theorem valuesOf_append (elements more : List DataElement) (name : Text) :
    valuesOf (elements ++ more) name = valuesOf elements name ++ valuesOf more name := by
  rw [valuesOf, List.filter_append, List.map_append, ← valuesOf, ← valuesOf]

/-- A field after the account's has one value, and that is the genuine one. -/
theorem valuesOf_after {name : Text} (hname : name ∈ t.after.map DataElement.name) :
    ∃ raw, valuesOf t.after name = [raw] ∧ valuesOf (t.before ++ t.after) name = [raw] := by
  obtain ⟨e, he, rfl⟩ := List.mem_map.1 hname
  have hmem : e.value ∈ valuesOf t.after e.name :=
    List.mem_map_of_mem (List.mem_filter.2 ⟨he, beq_self_eq_true _⟩)
  have hlength := t.length_valuesOf_le e.name
  rw [valuesOf_append, List.length_append] at hlength
  have hpos := List.length_pos_of_mem hmem
  have hbefore : valuesOf t.before e.name = [] := List.eq_nil_of_length_eq_zero (by omega)
  obtain ⟨raw, hraw⟩ := List.length_eq_one_iff.1 (by omega : (valuesOf t.after e.name).length = 1)
  exact ⟨raw, hraw, by rw [valuesOf_append, hbefore, hraw, List.nil_append]⟩

/-- A field after the account's is genuine or refused, whatever the account is called. -/
theorem meaningful_field_render {name : String} (hname : PlainName name.toList)
    (hmem : name.toList ∈ t.after.map DataElement.name) (user : Text) :
    meaningful (field (t.render user) name).1 = none ∨
      meaningful (field (t.render user) name).1 = t.genuine name := by
  obtain ⟨forged, hforged⟩ := t.dataFields_render hname user
  obtain ⟨raw, hafter, hall⟩ := t.valuesOf_after hmem
  rw [field_fst, hforged, hafter, genuine, hall]
  rcases forged with _ | ⟨value, forged⟩
  · exact .inr rfl
  · left
    cases forged with
    | nil => rfl
    | cons other forged => rfl

/-- With an account name without markup a field is what the event genuinely says. -/
theorem meaningful_field_render_plain {name : String} (hname : PlainName name.toList)
    (hne : userName ≠ name.toList) {user : Text} (huser : '<' ∉ user) :
    meaningful (field (t.render user) name).1 = t.genuine name := by
  have hlength := t.length_valuesOf_le name.toList
  rw [field_fst, t.dataFields_render_plain hname hne huser, genuine]
  rcases hvalues : valuesOf (t.before ++ t.after) name.toList with
    _ | ⟨raw, _ | ⟨other, occurrences⟩⟩
  · rfl
  · rfl
  · rw [hvalues, List.length_cons, List.length_cons] at hlength
    omega

end Template

structure Reading where
  outcome : AuthOutcome
  eventId : UInt32
  logonType : Option LogonType
  service : Option String
  sourceAddress : Option IpAddr
  sourcePort : Option UInt16
  deriving DecidableEq, Repr

def ParsedLogon.reading (parsed : ParsedLogon) : Reading where
  outcome := parsed.event.outcome
  eventId := parsed.eventId
  logonType := parsed.logonType
  service := parsed.event.service
  sourceAddress := parsed.event.sourceAddress
  sourcePort := parsed.event.sourcePort

def readingOf (id : Option UInt32) (fields : String → Option Text) : Option Reading := do
  let id ← id
  let outcome ← outcomeOf id
  return {
    outcome := outcome
    eventId := id
    logonType := ((fields "LogonType").bind parseU32).map LogonType.fromCode
    service := ((fields "LogonProcessName").or (some "Security".toList)).map String.ofList
    sourceAddress := (fields "IpAddress").bind IpAddr.parse
    sourcePort := ((fields "IpPort").bind parseU16).filter (· != 0) }

theorem readingOf_eq_some {id : Option UInt32} {fields : String → Option Text} {r : Reading}
    (h : readingOf id fields = some r) :
    id = some r.eventId ∧ outcomeOf r.eventId = some r.outcome ∧
      r.sourceAddress = (fields "IpAddress").bind IpAddr.parse ∧
      r.sourcePort = ((fields "IpPort").bind parseU16).filter (· != 0) := by
  rw [readingOf] at h
  cases id with
  | none => cases h
  | some id =>
    dsimp only [Option.bind_eq_bind, Option.bind_some] at h
    cases houtcome : outcomeOf id with
    | none =>
      rw [houtcome] at h
      cases h
    | some outcome =>
      rw [houtcome] at h
      obtain rfl := Option.some.inj h
      exact ⟨rfl, houtcome, rfl, rfl⟩

theorem parseLogonEvent_reading (quoted : String → String) (rendered : String) :
    (parseLogonEvent quoted rendered).map ParsedLogon.reading =
      if maxEventBytes < byteLength rendered.toList then none
      else readingOf (eventId rendered.toList)
        (fun name => meaningful (field rendered.toList name).1) := by
  rw [parseLogonEvent]
  dsimp only
  split_ifs
  · rfl
  · rw [readingOf]
    cases eventId rendered.toList with
    | none => rfl
    | some id =>
      dsimp only [Option.bind_eq_bind, Option.bind_some]
      cases outcomeOf id with
      | none => rfl
      | some outcome => rfl

def entityName (c : Char) : Text :=
  if c = '<' then ['l', 't']
  else if c = '>' then ['g', 't']
  else if c = '"' then ['q', 'u', 'o', 't']
  else if c = '\'' then ['a', 'p', 'o', 's']
  else ['a', 'm', 'p']

def entity (c : Char) : Text := '&' :: (entityName c ++ [';'])

/-- The characters with an entity, in the order in which they are decoded. -/
def specials : List Char := ['<', '>', '"', '\'', '&']

def encode (special : List Char) (text : Text) : Text :=
  text.flatMap (fun c => if c ∈ special then entity c else [c])

def escape (text : Text) : Text := encode specials text

theorem encode_cons (special : List Char) (c : Char) (text : Text) :
    encode special (c :: text) =
      (if c ∈ special then entity c else [c]) ++ encode special text := List.flatMap_cons

theorem entityName_plain (c : Char) :
    '&' ∉ entityName c ∧ ';' ∉ entityName c ∧ '<' ∉ entityName c := by
  rw [entityName]
  split_ifs
  all_goals decide

theorem not_entity_isPrefix {c x : Char} (hc : c ∈ specials) (hx : x ∈ specials) (hne : c ≠ x)
    (rest : Text) : ¬entity x <+: entity c ++ rest := by
  have hinjective : entityName x ≠ entityName c ∨ x = c := by
    have hall : specials.all (fun c => specials.all (fun x =>
        entityName x != entityName c || x == c)) = true := by decide
    simpa using List.all_eq_true.1 (List.all_eq_true.1 hall c hc) x hx
  intro h
  rw [entity, entity, List.cons_append, List.cons_prefix_cons, List.append_assoc,
    List.singleton_append] at h
  rcases hinjective with hnames | hsame
  · exact hnames (eq_of_isPrefix_quote (entityName_plain x).2.1 (entityName_plain c).2.1 h.2)
  · exact hne hsame.symm

/-- Replacing an entity decodes its character and leaves the other entities. -/
theorem replace_encode {x : Char} {special : List Char} (hspecial : x :: special ⊆ specials)
    (hx : x ∉ special) (hamp : '&' ∈ x :: special) (text : Text) :
    replace (encode (x :: special) text) (entity x) [x] = encode special text := by
  induction text with
  | nil => rfl
  | cons c text ih =>
    rw [encode_cons, encode_cons]
    by_cases hc : c ∈ x :: special
    · rw [if_pos hc]
      by_cases hcx : c = x
      · subst hcx
        rw [if_neg hx, entity, replace_needle, ← entity, ih]
      · have hmem : c ∈ special := (List.mem_cons.1 hc).resolve_left hcx
        have hbody : '&' ∉ entityName c ++ [';'] := by
          rw [List.mem_append, not_or]
          exact ⟨(entityName_plain c).1, by decide⟩
        have hnot : ¬entity x <+: '&' :: (entityName c ++ [';'] ++ encode (x :: special) text) :=
          not_entity_isPrefix (hspecial hc) (hspecial List.mem_cons_self) hcx _
        rw [if_pos hmem, entity, List.cons_append, replace_cons hnot, entity,
          replace_skip hbody, ← entity, ih, List.cons_append]
    · have hcamp : '&' ≠ c := fun h => hc (h ▸ hamp)
      have hnone : '&' ∉ [c] := fun h => hcamp (List.mem_singleton.1 h)
      have hnotSpecial : c ∉ special := fun h => hc (List.mem_cons_of_mem _ h)
      rw [if_neg hc, if_neg hnotSpecial, entity, replace_skip hnone, ← entity, ih]

theorem decodeEntities_escape (text : Text) : decodeEntities (escape text) = text := by
  have hlt : replace (encode specials text) "&lt;".toList ['<'] =
      encode ['>', '"', '\'', '&'] text := replace_encode (by decide) (by decide) (by decide) text
  have hgt : replace (encode ['>', '"', '\'', '&'] text) "&gt;".toList ['>'] =
      encode ['"', '\'', '&'] text := replace_encode (by decide) (by decide) (by decide) text
  have hquot : replace (encode ['"', '\'', '&'] text) "&quot;".toList ['"'] =
      encode ['\'', '&'] text := replace_encode (by decide) (by decide) (by decide) text
  have hapos : replace (encode ['\'', '&'] text) "&apos;".toList ['\''] =
      encode ['&'] text := replace_encode (by decide) (by decide) (by decide) text
  have hamp : replace (encode ['&'] text) "&amp;".toList ['&'] = encode [] text :=
    replace_encode (by decide) (by decide) (by decide) text
  have hnone : encode [] text = text := by simp [encode]
  calc decodeEntities (escape text)
      = replace (replace (replace (replace (replace (encode specials text) "&lt;".toList ['<'])
          "&gt;".toList ['>']) "&quot;".toList ['"']) "&apos;".toList ['\'']) "&amp;".toList
          ['&'] :=
        rfl
    _ = text := by rw [hlt, hgt, hquot, hapos, hamp, hnone]

theorem lt_not_mem_escape (text : Text) : '<' ∉ escape text := by
  intro h
  obtain ⟨c, -, hc⟩ := List.mem_flatMap.1 h
  split_ifs at hc with hspecial
  · rw [entity, List.mem_cons, List.mem_append] at hc
    rcases hc with hc | hc | hc
    · exact absurd hc (by decide)
    · exact (entityName_plain c).2.2 hc
    · exact absurd hc (by decide)
  · rw [List.mem_singleton] at hc
    exact hspecial (hc ▸ by decide)

namespace Template

variable (t : Template)

def reading : Option Reading := readingOf t.eventId t.genuine

/-- The record keeps the event's id and outcome, and its source is genuine or missing. -/
def KeepsEvent (parsed : ParsedLogon) : Prop :=
  some parsed.eventId = t.eventId ∧ some parsed.event.outcome = t.eventId.bind outcomeOf ∧
    (parsed.event.sourceAddress = none ∨
      parsed.event.sourceAddress = (t.genuine "IpAddress").bind IpAddr.parse) ∧
    (parsed.event.sourcePort = none ∨
      parsed.event.sourcePort = ((t.genuine "IpPort").bind parseU16).filter (· != 0))

theorem keepsEvent_of_render {quoted : String → String} {user : Text} {parsed : ParsedLogon}
    (h : parseLogonEvent quoted (String.ofList (t.render user)) = some parsed) :
    t.KeepsEvent parsed := by
  have hreading := parseLogonEvent_reading quoted (String.ofList (t.render user))
  rw [h, String.toList_ofList, Option.map_some, t.eventId_render] at hreading
  split_ifs at hreading
  obtain ⟨hid, houtcome, haddress, hport⟩ := readingOf_eq_some hreading.symm
  have hsource (name : String) (hname : PlainName name.toList)
      (hmem : name.toList ∈ t.after.map DataElement.name) :=
    t.meaningful_field_render hname hmem user
  refine ⟨hid.symm, ?_, ?_, ?_⟩
  · rw [hid, Option.bind_some]
    exact houtcome.symm
  · rcases hsource "IpAddress" (by decide) t.address_mem with hnone | hgenuine
    · left
      exact haddress.trans (by rw [hnone, Option.bind_none])
    · right
      exact haddress.trans (by rw [hgenuine])
  · rcases hsource "IpPort" (by decide) t.port_mem with hnone | hgenuine
    · left
      exact hport.trans (by rw [hnone, Option.bind_none, Option.filter_none])
    · right
      exact hport.trans (by rw [hgenuine])

theorem reading_of_render_escape (quoted : String → String) (user : Text) :
    (parseLogonEvent quoted (String.ofList (t.render (escape user)))).map ParsedLogon.reading =
      if maxEventBytes < byteLength (t.render (escape user)) then none else t.reading := by
  have hfield (name : String) (hname : PlainName name.toList) (hne : userName ≠ name.toList) :=
    t.meaningful_field_render_plain hname hne (lt_not_mem_escape user)
  have hsame : readingOf t.eventId (fun name =>
    meaningful (field (t.render (escape user)) name).1) =
      t.reading := by
    rw [reading, readingOf, readingOf, hfield "LogonType" (by decide) (by decide),
      hfield "LogonProcessName" (by decide) (by decide), hfield "IpAddress" (by decide) (by decide),
      hfield "IpPort" (by decide) (by decide)]
  rw [parseLogonEvent_reading, String.toList_ofList, t.eventId_render, hsame]

end Template

/-- An account name put as it is into a rendered event forges neither its id, its outcome nor its
source, and one that is escaped changes nothing but the account and is decoded to itself. -/
theorem account_name_forges_nothing (t : Template) (quoted : String → String) :
    (∀ user parsed, parseLogonEvent quoted (String.ofList (t.render user)) = some parsed →
      t.KeepsEvent parsed) ∧
    (∀ user, (parseLogonEvent quoted (String.ofList (t.render (escape user)))).map
      ParsedLogon.reading =
        if maxEventBytes < byteLength (t.render (escape user)) then none else t.reading) ∧
    ∀ user, decodeEntities (escape user) = user :=
  ⟨fun _ _ h => t.keepsEvent_of_render h, t.reading_of_render_escape quoted, decodeEntities_escape⟩

def sampleElement (name value : String) (hname : PlainName name.toList)
    (hvalue : '<' ∉ value.toList) : DataElement :=
  ⟨name.toList, value.toList, "\n".toList, hname, hvalue, by decide⟩

def sampleEvent : Template where
  beforeId := "<Event><System>".toList
  idAttributes := []
  idText := "4624".toList
  afterId := "</System>\n<EventData>\n".toList
  before := []
  userGap := "\n".toList
  after := [sampleElement "LogonType" "10" (by decide) (by decide),
    sampleElement "IpAddress" "10.0.0.5" (by decide) (by decide),
    sampleElement "IpPort" "3389" (by decide) (by decide)]
  footer := "</EventData></Event>".toList
  beforeId_plain := by decide +kernel
  idAttributes_plain := by decide
  idText_plain := by decide
  system_plain := by decide +kernel
  userGap_plain := by decide
  footer_plain := by decide +kernel
  footer_starts := fun c hc => (Option.some.inj hc).symm
  names_nodup := by decide +kernel
  address_mem := by decide +kernel
  port_mem := by decide +kernel

theorem account_name_forges_nothing_sample :
    sampleEvent.eventId = some 4624 ∧
      (sampleEvent.genuine "IpAddress").bind IpAddr.parse = some (.v4 0x0a000005) ∧
      ∀ user parsed, parseLogonEvent id (String.ofList (sampleEvent.render user)) = some parsed →
        sampleEvent.KeepsEvent parsed :=
  ⟨by decide +kernel, by decide +kernel, (account_name_forges_nothing sampleEvent id).1⟩

end CyberSentinel.Evtx
