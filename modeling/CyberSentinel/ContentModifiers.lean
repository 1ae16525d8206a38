import CyberSentinel.Drafts
import CyberSentinel.RuleScan

/-!
# Where a content may be found

A position is written behind the content that it belongs to, and the content keeps the last one
written for each of its fields. A number that does not fit its field is kept as zero.
-/

namespace CyberSentinel.Rules

open Texts Numerals
open Evtx (trim)

def RuleOption.asContent : RuleOption → Option ContentMatch
  | content c => some c
  | _ => none

def contents (options : List RuleOption) : List ContentMatch :=
  options.filterMap RuleOption.asContent

theorem contents_append (options others : List RuleOption) :
    contents (options ++ others) = contents options ++ contents others := List.filterMap_append

namespace RawOption

def isContent (o : RawOption) : Bool := Keyword.read o.name == some .content

theorem isContent_iff {o : RawOption} :
    o.isContent = true ↔ Keyword.read o.name = some .content := beq_iff_eq

def pattern (o : RawOption) : List UInt8 :=
  (o.value.bind fun text => (parseContentPattern text).toOption).getD []

end RawOption

theorem readOption_of_content {o : RawOption} (hk : Keyword.read o.name = some .content)
    {d d' : Draft}
    (h : readOption d o = .ok d') :
    ∃ c : ContentMatch, c.pattern = o.pattern ∧
      contents d'.options = contents d.options ++ [c] := by
  obtain ⟨name, value, negated⟩ := o
  simp only [readOption, hk, bind_eq_ok] at h
  obtain ⟨text, hvalue, pattern, hpattern, h⟩ := h
  split_ifs at h with hempty
  · exact absurd h (by simp)
  cases value with
  | none => exact absurd hvalue (by simp [requireValue])
  | some other =>
    have hsame : other = text := Except.ok.inj hvalue
    cases hparsed : parseContentPattern text with
    | error reason =>
      rw [hparsed] at hpattern
      exact absurd hpattern (by simp [Except.mapError])
    | ok parsed =>
      rw [hparsed] at hpattern
      have hpattern : parsed = pattern := Except.ok.inj hpattern
      refine ⟨{ pattern, buffer := d.buffer, negated }, ?_, ?_⟩
      · simp [RawOption.pattern, hsame, hparsed, hpattern, Except.toOption]
      · rw [← Except.ok.inj h, Draft.push, contents_append]
        rfl

theorem readOption_contents_other {o : RawOption} (hcontent : Keyword.read o.name ≠ some .content)
    (hmodifier : ∀ m, Keyword.read o.name ≠ some (.modifier m)) (d : Draft) :
    (readOption (d.withOptions []) o).map (fun d' => contents d'.options) =
      (readOption (d.withOptions []) o).map fun _ => [] := by
  obtain ⟨name, value, negated⟩ := o
  cases h : Keyword.read name with
  | none => simp only [readOption, h, map_error]
  | some k =>
    cases k with
    | content => exact absurd h hcontent
    | modifier m => exact absurd h (hmodifier m)
    | normalized =>
      simp only [readOption, h, map_bind]
      congr 1
      funext text
      cases NormalizationCondition.parse text <;>
        simp only [map_pure, map_error]
      rfl
    | _ =>
      simp only [readOption, h, map_bind, map_pure, map_ok, map_error, error_bind,
        apply_ite (Except.map _)]
      rfl

theorem readOption_of_other {o : RawOption} (hcontent : Keyword.read o.name ≠ some .content)
    (hmodifier : ∀ m, Keyword.read o.name ≠ some (.modifier m)) {d d' : Draft}
    (h : readOption d o = .ok d') : contents d'.options = contents d.options := by
  have hframe := readOption_frame hmodifier d d.options
  rw [show d.withOptions d.options = d from rfl, h] at hframe
  obtain ⟨added, hadded, rfl⟩ := map_eq_ok.1 hframe.symm
  have hnone := readOption_contents_other hcontent hmodifier d
  rw [hadded, map_ok, map_ok, Except.ok.injEq] at hnone
  rw [Draft.options_withOptions, contents_append, hnone, List.append_nil]

theorem readOption_of_modifier {o : RawOption} {m : Modifier}
    (hk : Keyword.read o.name = some (.modifier m))
    {d d' : Draft} (h : readOption d o = .ok d') :
    ∃ others c c', contents d.options = others ++ [c] ∧ m.apply o.name o.value c = .ok c' ∧
      contents d'.options = others ++ [c'] := by
  obtain ⟨name, value, negated⟩ := o
  simp only [readOption, hk, bind_eq_ok] at h
  obtain ⟨options, happly, h⟩ := h
  rw [← Except.ok.inj h]
  obtain ⟨init, content, changed, hinit, hchanged, rfl⟩ := applyContentModifier_eq_ok happly
  refine ⟨contents init, content, changed, ?_, hchanged, contents_append _ _⟩
  rw [hinit]
  exact contents_append _ _

/-- What an option does to the contents: it adds one, it changes the last, or it leaves them alone.
-/
theorem readOption_contents_cases {o : RawOption} {d d' : Draft} (h : readOption d o = .ok d') :
    (Keyword.read o.name = some .content ∧
      ∃ c : ContentMatch, c.pattern = o.pattern ∧ contents d'.options = contents d.options ++ [c]) ∨
    (∃ m others c c', Keyword.read o.name = some (.modifier m) ∧
    contents d.options = others ++ [c] ∧
      m.apply o.name o.value c = .ok c' ∧ contents d'.options = others ++ [c']) ∨
    (Keyword.read o.name ≠ some .content ∧ (∀ m, Keyword.read o.name ≠ some (.modifier m)) ∧
      contents d'.options = contents d.options) := by
  by_cases hcontent : Keyword.read o.name = some .content
  · exact .inl ⟨hcontent, readOption_of_content hcontent h⟩
  · by_cases hmodifier : ∃ m, Keyword.read o.name = some (.modifier m)
    · obtain ⟨m, hk⟩ := hmodifier
      obtain ⟨others, c, c', hchange⟩ := readOption_of_modifier hk h
      exact .inr (.inl ⟨m, others, c, c', hk, hchange⟩)
    · have hmodifier := not_exists.1 hmodifier
      exact .inr (.inr ⟨hcontent, hmodifier, readOption_of_other hcontent hmodifier h⟩)

namespace Modifier

def positions : List Modifier := [offset, depth, distance, within]

def Fits : Modifier → ℤ → Prop
  | distance, number => -2 ^ 31 ≤ number ∧ number < 2 ^ 31
  | _, number => 0 ≤ number ∧ number < 2 ^ 32

def stored : Modifier → ℤ → ℤ
  | distance, number => toI32 number
  | _, number => toU32 number

theorem stored_of_fits {m : Modifier} {number : ℤ} (h : m.Fits number) :
    m.stored number = number := by
  cases m with
  | distance => exact if_pos h
  | _ =>
    obtain ⟨hnonneg, hlt⟩ := h
    simp only [stored, toU32, if_pos (And.intro hnonneg hlt)]
    exact Int.toNat_of_nonneg hnonneg

end Modifier

def ContentMatch.position (c : ContentMatch) : Modifier → Option ℤ
  | .offset => c.offset.map Int.ofNat
  | .depth => c.depth.map Int.ofNat
  | .distance => c.distance
  | .within => c.within.map Int.ofNat
  | _ => none

namespace RawOption

def number (o : RawOption) : Option ℤ := o.value.bind fun text => parseSigned (2 ^ 63) (trim text)

/-- The number that an option gives for a field of a content with a pattern of `length` bytes. -/
def setting (length : ℕ) (field : Modifier) (o : RawOption) : Option ℤ :=
  match Keyword.read o.name with
  | some (.modifier .startsWith) =>
    if field = .offset then some 0
    else if field = .depth then some (min length (2 ^ 32 - 1) : ℕ)
    else none
  | some (.modifier m) => if m = field then o.number else none
  | _ => none

end RawOption

theorem modifierNumber_ok {what : String} {name : Text} {value : Option Text} {negated : Bool}
    {number : ℤ}
    (h : modifierNumber what name value = .ok number) :
    (⟨name, value, negated⟩ : RawOption).number = some number := by
  cases value with
  | none => exact absurd h (by simp [modifierNumber, requireValue, error_bind])
  | some text =>
    rw [modifierNumber, requireValue, ok_bind] at h
    rw [RawOption.number, Option.bind_some]
    cases hparsed : parseSigned (2 ^ 63) (trim text) with
    | none =>
      rw [hparsed] at h
      exact absurd h (by simp)
    | some other =>
      rw [hparsed] at h
      rw [Except.ok.inj h]

theorem apply_position {o : RawOption} {m : Modifier}
    (hk : Keyword.read o.name = some (.modifier m))
    {c c' : ContentMatch} (h : m.apply o.name o.value c = .ok c') :
    c'.pattern = c.pattern ∧ ∀ field ∈ Modifier.positions,
      c'.position field = ((o.setting c.pattern.length field).map field.stored).or
        (c.position field) := by
  obtain ⟨name, value, negated⟩ := o
  have hfields : ∀ field ∈ Modifier.positions,
      field = .offset ∨ field = .depth ∨ field = .distance ∨ field = .within := by
    simp [Modifier.positions]
  cases m with
  | nocase =>
    cases Except.ok.inj h
    refine ⟨rfl, fun field hfield => ?_⟩
    rcases hfields field hfield with rfl | rfl | rfl | rfl <;>
      simp [RawOption.setting, hk, ContentMatch.position]
  | fastPattern =>
    cases Except.ok.inj h
    refine ⟨rfl, fun field hfield => ?_⟩
    rcases hfields field hfield with rfl | rfl | rfl | rfl <;>
      simp [RawOption.setting, hk, ContentMatch.position]
  | startsWith =>
    cases Except.ok.inj h
    have hoffset : Modifier.offset.stored 0 = 0 := Modifier.stored_of_fits ⟨le_rfl, by norm_num⟩
    have hdepth (stop : ℤ) (hnonneg : 0 ≤ stop) (hlt : stop < 2 ^ 32) : Modifier.depth.stored stop =
        stop :=
      Modifier.stored_of_fits ⟨hnonneg, hlt⟩
    refine ⟨rfl, fun field hfield => ?_⟩
    rcases hfields field hfield with rfl | rfl | rfl | rfl
    · simp [RawOption.setting, hk, ContentMatch.position, hoffset]
    · simp [RawOption.setting, hk, ContentMatch.position]
      exact (hdepth _ (by omega) (by omega)).symm
    · simp [RawOption.setting, hk, ContentMatch.position]
    · simp [RawOption.setting, hk, ContentMatch.position]
  | _ =>
    obtain ⟨number, hnumber, rfl⟩ := map_eq_ok.1 h
    have hwritten : (⟨name, value, negated⟩ : RawOption).number = some number :=
      modifierNumber_ok hnumber
    refine ⟨rfl, fun field hfield => ?_⟩
    rcases hfields field hfield with rfl | rfl | rfl | rfl <;>
      simp [RawOption.setting, hk, ContentMatch.position, hwritten, Modifier.stored]

theorem setting_eq_some {o : RawOption} {length : ℕ} {field : Modifier} {number : ℤ}
    (h : o.setting length field = some number) :
    field.Fits number ∨ Keyword.read o.name = some (.modifier field) ∧ o.number = some number := by
  rw [RawOption.setting] at h
  split at h
  · refine .inl ?_
    split_ifs at h with hoffset hdepth
    · rw [hoffset, ← Option.some.inj h]
      exact ⟨le_rfl, by norm_num⟩
    · rw [hdepth, ← Option.some.inj h]
      exact ⟨by omega, by omega⟩
  · rename_i m _ hk
    split_ifs at h with hfield
    exact .inr ⟨hfield ▸ hk, h⟩
  · exact absurd h (by simp)

/-- What a run of options without a content writes into a field: the last of their numbers. -/
def lastSetting (length : ℕ) (field : Modifier) (options : List RawOption) : Option ℤ :=
  (options.filterMap (RawOption.setting length field)).getLast?

theorem lastSetting_cons (length : ℕ) (field : Modifier) (o : RawOption)
    (options : List RawOption) :
    lastSetting length field (o :: options) =
      (lastSetting length field options).or (o.setting length field) := by
  rw [lastSetting, List.filterMap_cons]
  cases o.setting length field with
  | none => rw [Option.or_none, lastSetting]
  | some number =>
    rw [List.getLast?_cons, ← lastSetting]
    cases lastSetting length field options <;> rfl

theorem setting_of_not_modifier {o : RawOption}
    (hk : ∀ m, Keyword.read o.name ≠ some (.modifier m)) (length : ℕ)
    (field : Modifier) : o.setting length field = none := by
  rw [RawOption.setting]
  split
  · exact absurd ‹_› (hk _)
  · exact absurd ‹_› (hk _)
  · rfl

/-- Up to the next content, the last content gathers the positions that are written. -/
theorem readOptions_position {options : List RawOption}
    (hnone : ∀ o ∈ options, Keyword.read o.name ≠ some .content) {d d' : Draft}
    (h : options.foldlM readOption d = .ok d') {others : List ContentMatch} {c : ContentMatch}
    (hlast : contents d.options = others ++ [c]) :
    ∃ c', contents d'.options = others ++ [c'] ∧ c'.pattern = c.pattern ∧
      ∀ field ∈ Modifier.positions, c'.position field =
        ((lastSetting c.pattern.length field options).map field.stored).or (c.position field) := by
  induction options generalizing d c with
  | nil => exact ⟨c, Except.ok.inj h ▸ hlast, rfl, fun _ _ => rfl⟩
  | cons o options ih =>
    rw [List.foldlM_cons, bind_eq_ok] at h
    obtain ⟨next, hnext, hrest⟩ := h
    have hcontent := hnone o List.mem_cons_self
    have hstep : ∃ c₁, contents next.options = others ++ [c₁] ∧ c₁.pattern = c.pattern ∧
        ∀ field ∈ Modifier.positions, c₁.position field =
          ((o.setting c.pattern.length field).map field.stored).or (c.position field) := by
      rcases readOption_contents_cases hnext with
        ⟨hk, _⟩ | ⟨m, others', c₀, c₁, hk, hbefore, happly, hafter⟩ | ⟨_, hmodifier, hafter⟩
      · exact absurd hk hcontent
      · obtain ⟨rfl, hsame⟩ := List.append_inj' (hbefore.symm.trans hlast) rfl
        cases hsame
        exact ⟨c₁, hafter, apply_position hk happly⟩
      · refine ⟨c, hafter.trans hlast, rfl, fun field _ => ?_⟩
        rw [setting_of_not_modifier hmodifier]
        rfl
    obtain ⟨c₁, hlast₁, hpattern₁, hposition₁⟩ := hstep
    obtain ⟨c', hlast', hpattern', hposition'⟩ :=
      ih (fun other hother => hnone other (List.mem_cons_of_mem _ hother)) hrest hlast₁
    refine ⟨c', hlast', hpattern'.trans hpattern₁, fun field hfield => ?_⟩
    rw [hposition' field hfield, hposition₁ field hfield, hpattern₁, lastSetting_cons,
      ← Option.or_assoc]
    congr 1
    cases lastSetting c.pattern.length field options <;> rfl

theorem readOption_keeps {kept : List ContentMatch} {d d' : Draft} {o : RawOption}
    (hkept : kept <+: contents d.options) (hlt : kept.length < (contents d.options).length)
    (h : readOption d o = .ok d') :
    kept <+: contents d'.options ∧ kept.length < (contents d'.options).length := by
  rcases readOption_contents_cases h with
    ⟨_, c, _, hafter⟩ | ⟨m, others, c, c', _, hbefore, _, hafter⟩ | ⟨_, _, hafter⟩
  · rw [hafter, List.length_append]
    exact ⟨hkept.trans (List.prefix_append _ _), Nat.lt_add_right _ hlt⟩
  · rw [hbefore] at hkept hlt
    rw [hafter]
    rw [List.length_append, List.length_singleton] at hlt ⊢
    have hothers : kept <+: others :=
      List.prefix_of_prefix_length_le hkept (List.prefix_append _ _) (Nat.lt_succ_iff.1 hlt)
    exact ⟨hothers.trans (List.prefix_append _ _), hlt⟩
  · rw [hafter]
    exact ⟨hkept, hlt⟩

theorem readOptions_keeps {kept : List ContentMatch} {options : List RawOption} {d d' : Draft}
    (hkept : kept <+: contents d.options) (hlt : kept.length < (contents d.options).length)
    (h : options.foldlM readOption d = .ok d') : kept <+: contents d'.options := by
  induction options generalizing d with
  | nil => exact Except.ok.inj h ▸ hkept
  | cons o options ih =>
    rw [List.foldlM_cons, bind_eq_ok] at h
    obtain ⟨next, hnext, hrest⟩ := h
    have hnext := readOption_keeps hkept hlt hnext
    exact ih hnext.1 hnext.2 hrest

theorem readOptions_settled {options : List RawOption}
    (hhead : ∀ o ∈ options.head?, Keyword.read o.name = some .content) {d d' : Draft}
    (h : options.foldlM readOption d = .ok d') : contents d.options <+: contents d'.options := by
  cases options with
  | nil => rw [← Except.ok.inj h]
  | cons o options =>
    rw [List.foldlM_cons, bind_eq_ok] at h
    obtain ⟨next, hnext, hrest⟩ := h
    obtain ⟨c, _, hafter⟩ := readOption_of_content (hhead o rfl) hnext
    refine readOptions_keeps ?_ ?_ hrest
    · rw [hafter]
      exact List.prefix_append _ _
    · rw [hafter, List.length_append]
      exact Nat.lt_succ_self _

theorem readOption_length_contents {o : RawOption} {d d' : Draft} (h : readOption d o = .ok d') :
    (contents d'.options).length =
      (contents d.options).length + if o.isContent = true then 1 else 0 := by
  rcases readOption_contents_cases h with
    ⟨hk, c, _, hafter⟩ | ⟨m, others, c, c', hk, hbefore, _, hafter⟩ | ⟨hk, _, hafter⟩
  · rw [hafter, List.length_append, List.length_singleton, if_pos (RawOption.isContent_iff.2 hk)]
  · rw [hbefore, hafter, List.length_append, List.length_append, if_neg]
    · rfl
    · rw [RawOption.isContent_iff, hk]
      exact fun hsame => Keyword.noConfusion (Option.some.inj hsame)
  · rw [hafter, if_neg (fun hcontent => hk (RawOption.isContent_iff.1 hcontent)), add_zero]

theorem readOptions_length_contents {options : List RawOption} {d d' : Draft}
    (h : options.foldlM readOption d = .ok d') :
    (contents d'.options).length =
    (contents d.options).length + options.countP RawOption.isContent := by
  induction options generalizing d with
  | nil => rw [← Except.ok.inj h, List.countP_nil, add_zero]
  | cons o options ih =>
    rw [List.foldlM_cons, bind_eq_ok] at h
    obtain ⟨next, hnext, hrest⟩ := h
    rw [ih hrest, readOption_length_contents hnext, List.countP_cons, add_assoc,
      add_comm (ite _ _ _)]

def lastPattern (options : List RawOption) : List UInt8 :=
  ((options.filter RawOption.isContent).getLast?.map RawOption.pattern).getD []

theorem readOptions_lastPattern {options : List RawOption} {d : Draft}
    (h : options.foldlM readOption {} = .ok d) {others : List ContentMatch} {c : ContentMatch}
    (hlast : contents d.options = others ++ [c]) : c.pattern = lastPattern options := by
  induction options using List.reverseRecOn generalizing d others c with
  | nil =>
    rw [← Except.ok.inj h] at hlast
    exact absurd hlast (by simp [contents])
  | append_singleton options o ih =>
    rw [List.foldlM_append, bind_eq_ok] at h
    obtain ⟨front, hfront, hstep⟩ := h
    rw [List.foldlM_cons, bind_eq_ok] at hstep
    obtain ⟨next, hnext, hrest⟩ := hstep
    cases Except.ok.inj hrest
    rw [lastPattern, List.filter_append]
    have hother (hk : Keyword.read o.name ≠ some .content) : [o].filter RawOption.isContent = [] :=
      List.filter_eq_nil_iff.2 (by simp [RawOption.isContent_iff, hk])
    rcases readOption_contents_cases hnext with
      ⟨hk, c', hpattern, hafter⟩ | ⟨m, others', c₀, c₁, hk, hbefore, happly,
      hafter⟩ | ⟨hk, _, hafter⟩
    · have hfilter : [o].filter RawOption.isContent = [o] :=
        List.filter_eq_self.2 (by simp [RawOption.isContent_iff, hk])
      have hsame := (List.append_inj' (hafter.symm.trans hlast) rfl).2
      cases hsame
      rw [hfilter, List.getLast?_concat]
      exact hpattern
    · have hsame := (List.append_inj' (hafter.symm.trans hlast) rfl).2
      cases hsame
      rw [hother (by rw [hk]; simp), List.append_nil, (apply_position hk happly).1]
      exact ih hfront hbefore
    · rw [hother hk, List.append_nil]
      exact ih hfront (hafter.symm.trans hlast)

theorem setting_of_position {o : RawOption} {m : Modifier}
    (hk : Keyword.read o.name = some (.modifier m))
    (hm : m ∈ Modifier.positions) (length : ℕ) : o.setting length m = o.number := by
  rw [RawOption.setting, hk]
  cases m with
  | startsWith => exact absurd hm (by decide)
  | _ => exact if_pos rfl

theorem number_of_position {o : RawOption} {m : Modifier}
    (hk : Keyword.read o.name = some (.modifier m))
    (hm : m ∈ Modifier.positions) {d d' : Draft} (h : readOption d o = .ok d') :
    ∃ number, o.number = some number := by
  obtain ⟨others, c, c', _, happly, _⟩ := readOption_of_modifier hk h
  obtain ⟨name, value, negated⟩ := o
  cases m with
  | nocase => exact absurd hm (by decide)
  | fastPattern => exact absurd hm (by decide)
  | startsWith => exact absurd hm (by decide)
  | _ =>
    obtain ⟨number, hnumber, _⟩ := map_eq_ok.1 happly
    exact ⟨number, modifierNumber_ok hnumber⟩

/-- A position is on the content in front of it, and there the last number for its field counts. -/
theorem readOptions_position_at {before after : List RawOption} {o : RawOption} {m : Modifier}
    (hk : Keyword.read o.name = some (.modifier m)) (hm : m ∈ Modifier.positions) {d : Draft}
    (h : (before ++ o :: after).foldlM readOption {} = .ok d) :
    ∃ number c, lastSetting (lastPattern before).length m
        (o :: after.takeWhile fun other => !other.isContent) = some number ∧
      ((contents d.options).take (before.countP RawOption.isContent)).getLast? = some c ∧
        c.position m = some (m.stored number) := by
  have hsplit : before ++ o :: after =
      before ++ ((o :: after.takeWhile fun other => !other.isContent) ++
      after.dropWhile fun other => !other.isContent) := by
    rw [List.cons_append, List.takeWhile_append_dropWhile]
  rw [hsplit, List.foldlM_append, bind_eq_ok] at h
  obtain ⟨d₁, hbefore, h⟩ := h
  rw [List.foldlM_append, bind_eq_ok] at h
  obtain ⟨d₂, hrun, hrest⟩ := h
  have hfirst : ∃ next, readOption d₁ o = .ok next := by
    rw [List.foldlM_cons, bind_eq_ok] at hrun
    exact ⟨_, hrun.choose_spec.1⟩
  obtain ⟨next, hnext⟩ := hfirst
  obtain ⟨number, hnumber⟩ := number_of_position hk hm hnext
  obtain ⟨others, c₁, _, hlast₁, _⟩ := readOption_of_modifier hk hnext
  have hnone : ∀ other ∈ o :: after.takeWhile (fun other => !other.isContent),
      Keyword.read other.name ≠ some .content := by
    intro other hother hcontent
    rcases List.mem_cons.1 hother with rfl | hother
    · rw [hk] at hcontent
      exact Keyword.noConfusion (Option.some.inj hcontent)
    · have hrun := List.mem_takeWhile_imp hother
      rw [RawOption.isContent_iff.2 hcontent] at hrun
      exact absurd hrun (by decide)
  obtain ⟨c₂, hlast₂, _, hposition⟩ := readOptions_position hnone hrun hlast₁
  have hpattern := readOptions_lastPattern hbefore hlast₁
  -- the content is settled when the next one begins
  have hhead : ∀ other ∈ (after.dropWhile fun other => !other.isContent).head?,
      Keyword.read other.name = some .content := by
    intro other hother
    have hdrop := List.head?_dropWhile_not (fun other : RawOption => !other.isContent) after
    rw [Option.mem_def.1 hother] at hdrop
    exact RawOption.isContent_iff.1 (by simpa using hdrop)
  have hsettled := readOptions_settled hhead hrest
  have hcount : before.countP RawOption.isContent = (others ++ [c₂]).length := by
    have hlength := readOptions_length_contents hbefore
    rw [hlast₁] at hlength
    simp only [contents, List.filterMap_nil, List.length_nil, List.length_append,
      List.length_singleton] at hlength ⊢
    omega
  rw [hlast₂] at hsettled
  have hsome : ∃ last, lastSetting (lastPattern before).length m
      (o :: after.takeWhile fun other => !other.isContent) = some last := by
    rw [lastSetting_cons, setting_of_position hk hm, hnumber]
    cases lastSetting (lastPattern before).length m (after.takeWhile fun other =>
      !other.isContent) with
    | none => exact ⟨_, rfl⟩
    | some last => exact ⟨_, rfl⟩
  obtain ⟨last, hlast⟩ := hsome
  refine ⟨last, c₂, hlast, ?_, ?_⟩
  · rw [hcount, ← List.prefix_iff_eq_take.1 hsettled, List.getLast?_concat]
  · rw [hposition m hm, hpattern, hlast]
    rfl

def ruleOptions (text : Text) : Except ParseError (List RawOption) :=
  splitBlock (trim text) >>= fun parts => parseOptions parts.2

/-- Each number that is written for a position fits its field, and the content that it belongs to,
the last one in front of it, holds it there. -/
def PositionsKept (options : List RawOption) (rule : ParsedRule) : Prop :=
  ∀ before o after m, options = before ++ o :: after → Keyword.read o.name = some (.modifier m) →
    m ∈ Modifier.positions → ∃ number, o.number = some number ∧ m.Fits number ∧
      ∃ c, ((contents rule.options).take (before.countP RawOption.isContent)).getLast? = some c ∧
        c.position m = some number

/-- Each number that is written for a position fits its field, and is the last that is written for
it up to the next content. -/
def PositionsStand (options : List RawOption) : Prop :=
  ∀ before o after m, options = before ++ o :: after → Keyword.read o.name = some (.modifier m) →
    m ∈ Modifier.positions → ∃ number, o.number = some number ∧ m.Fits number ∧
      lastSetting (lastPattern before).length m (o :: after.takeWhile fun other =>
      !other.isContent) =
        some number

theorem parseRule_options {text : Text} {rule : ParsedRule} (h : parseRule text = .ok rule)
    {options : List RawOption} (hoptions : ruleOptions text = .ok options) :
    ∃ d, options.foldlM readOption {} = .ok d ∧ rule.options = d.options := by
  rw [parseRule] at h
  split_ifs at h with hempty
  obtain ⟨parts, hparts, h⟩ := bind_eq_ok.1 h
  obtain ⟨header, _, h⟩ := bind_eq_ok.1 h
  obtain ⟨parsed, hparsed, h⟩ := bind_eq_ok.1 h
  obtain ⟨d, hd, hfinish⟩ := bind_eq_ok.1 h
  have hsame : parsed = options := by
    rw [ruleOptions, hparts, ok_bind, hparsed] at hoptions
    exact Except.ok.inj hoptions
  exact ⟨d, hsame ▸ hd, (d.finish_kept hfinish).2⟩

/-- The contents of an accepted rule hold the positions that are written exactly where each fits its
field and is not overwritten. -/
theorem positions_kept_iff {text : Text} {rule : ParsedRule} (h : parseRule text = .ok rule)
    {options : List RawOption} (hoptions : ruleOptions text = .ok options) :
    PositionsKept options rule ↔ PositionsStand options := by
  obtain ⟨d, hd, hrule⟩ := parseRule_options h hoptions
  constructor
  · intro hkept before o after m hsplit hk hm
    obtain ⟨number, hnumber, hfits, c, hc, hposition⟩ := hkept before o after m hsplit hk hm
    obtain ⟨last, c', hlast, hc', hposition'⟩ := readOptions_position_at hk hm (hsplit ▸ hd)
    have hlastFits : m.Fits last := by
      obtain ⟨other, hother, hsetting⟩ := List.mem_filterMap.1 (List.mem_of_getLast? hlast)
      have hmem : other ∈ options := by
        rw [hsplit]
        apply List.mem_append_right _
        exact (List.cons_subset_cons o (List.takeWhile_subset _)) hother
      rcases setting_eq_some hsetting with hfits | ⟨hk', hnumber'⟩
      · exact hfits
      · obtain ⟨before', after', hsplit'⟩ := List.append_of_mem hmem
        obtain ⟨number', hsame, hfits', _⟩ := hkept before' other after' m hsplit' hk' hm
        rw [hsame, Option.some.injEq] at hnumber'
        exact hnumber' ▸ hfits'
    rw [hrule, hc', Option.some.injEq] at hc
    rw [← hc, hposition', Option.some.injEq, Modifier.stored_of_fits hlastFits] at hposition
    exact ⟨number, hnumber, hfits, hposition ▸ hlast⟩
  · intro hstand before o after m hsplit hk hm
    obtain ⟨number, hnumber, hfits, hlast⟩ := hstand before o after m hsplit hk hm
    obtain ⟨last, c, hlast', hc, hposition⟩ := readOptions_position_at hk hm (hsplit ▸ hd)
    rw [hlast, Option.some.injEq] at hlast'
    rw [← hlast', Modifier.stored_of_fits hfits] at hposition
    exact ⟨number, hnumber, hfits, c, hrule ▸ hc, hposition⟩

def negativeOffset : Text :=
  "alert tcp any any -> any any (msg:\"m\"; content:\"a\"; offset:-1; sid:1;)".toList

def negativeOffsetOptions : List RawOption :=
  [⟨"msg".toList, some "m".toList, false⟩, ⟨"content".toList, some "a".toList, false⟩,
    ⟨"offset".toList, some "-1".toList, false⟩, ⟨"sid".toList, some "1".toList, false⟩]

def negativeOffsetRule : ParsedRule :=
  { header := { action := .alert, protocol := .tcp }
    sid := 1
    msg := "m"
    options := [.content { pattern := [0x61], offset := some 0 }]
    gid := none
    references := []
    raw := negativeOffset }

theorem parseRule_negativeOffset : parseRule negativeOffset = .ok negativeOffsetRule := by
  decide +kernel

theorem ruleOptions_negativeOffset : ruleOptions negativeOffset = .ok negativeOffsetOptions := by
  decide +kernel

theorem positions_kept_iff_negativeOffset :
    PositionsKept negativeOffsetOptions negativeOffsetRule ↔ PositionsStand negativeOffsetOptions :=
  positions_kept_iff parseRule_negativeOffset ruleOptions_negativeOffset

/-- The rule is accepted, and its content begins at zero. -/
theorem negative_offset_replaced :
    parseRule negativeOffset = .ok negativeOffsetRule ∧
      ruleOptions negativeOffset = .ok negativeOffsetOptions ∧
      ¬PositionsKept negativeOffsetOptions negativeOffsetRule := by
  refine ⟨parseRule_negativeOffset, ruleOptions_negativeOffset, fun hkept => ?_⟩
  obtain ⟨number, hnumber, hfits, _⟩ := hkept (negativeOffsetOptions.take 2)
    ⟨"offset".toList, some "-1".toList, false⟩ (negativeOffsetOptions.drop 3) .offset rfl rfl
    (by decide)
  have hsame : number = -1 := Option.some.inj (hnumber.symm.trans (by decide +kernel))
  rw [hsame] at hfits
  exact absurd hfits.1 (by decide)

end CyberSentinel.Rules
