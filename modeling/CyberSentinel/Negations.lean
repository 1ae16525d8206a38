import CyberSentinel.Drafts
import CyberSentinel.Eval
import CyberSentinel.RuleScan
import Mathlib.Data.Bool.AllAny

/-!
# Negated options

A leading `!` is taken off every value, and four kinds of options do something with it. On the
others it is dropped, so that the rule asks for the opposite of what is written.
-/

namespace CyberSentinel.Rules

open Detect Texts Numerals
open Evtx (trim parseU32)

/-! ### Negations -/

def RuleOption.Negates : RuleOption → RuleOption → Prop
  | .content c, .content c' => c = { c' with negated := !c'.negated }
  | .pcre p, .pcre p' => p = { p' with negated := !p'.negated }
  | .host h, .host h' => h = { h' with negated := !h'.negated }
  | .byteTest t, .byteTest t' => t = { t' with negated := !t'.negated }
  | .flow f, .flow f' => ∀ input, matchFlow f input = !matchFlow f' input
  | .flowBits (.isSet name), .flowBits (.isNotSet name') => name = name'
  | .flowBits (.isNotSet name), .flowBits (.isSet name') => name = name'
  | .dsize d, .dsize d' => ∀ length, d.matches length = !d'.matches length
  | .normalized c, .normalized c' =>
    ∀ flags, normalizationMatches c flags = !normalizationMatches c' flags
  | _, _ => False

theorem RuleOption.not_negates_self (o : RuleOption) : ¬o.Negates o := by
  have hbool (b : Bool) : b ≠ !b := by cases b <;> decide
  cases o with
  | content c =>
    intro h
    rw [Negates] at h
    exact hbool c.negated (congrArg ContentMatch.negated h)
  | pcre p =>
    intro h
    rw [Negates] at h
    exact hbool p.negated (congrArg PcreMatch.negated h)
  | host field =>
    intro h
    rw [Negates] at h
    exact hbool field.negated (congrArg HostFieldMatch.negated h)
  | byteTest t =>
    intro h
    rw [Negates] at h
    exact hbool t.negated (congrArg ByteTest.negated h)
  | flow f =>
    intro h
    rw [Negates] at h
    exact hbool _ (h ⟨⟨.v4 0, none, .v4 0, none, .tcp⟩, true, true, {}⟩)
  | flowBits op => cases op <;> simp [Negates]
  | byteJump j => simp [Negates]
  | dsize d =>
    intro h
    rw [Negates] at h
    exact hbool _ (h 0)
  | normalized c =>
    intro h
    rw [Negates] at h
    exact hbool _ (h {})

/-! ### Two runs over the same options -/

structure Steady (Q : List RuleOption → List RuleOption → Prop) : Prop where
  append : ∀ {options options' : List RuleOption}, Q options options' → ∀ added,
    Q (options ++ added) (options' ++ added)
  modify : ∀ {options options' : List RuleOption}, Q options options' →
    ∀ {m : Modifier} {name : Text}
    {value : Option Text} {changed : List RuleOption},
    applyContentModifier options m name value = .ok changed →
      ∃ changed', applyContentModifier options' m name value = .ok changed' ∧ Q changed changed'

namespace Steady

theorem eq : Steady Eq where
  append h added := congrArg (· ++ added) h
  modify h _ _ _ changed happly := ⟨changed, h ▸ happly, rfl⟩

variable {Q : List RuleOption → List RuleOption → Prop}

theorem readOption_forward (hQ : Steady Q) {options options' : List RuleOption}
    (h : Q options options')
    {d e : Draft} {o : RawOption} (hread : readOption (d.withOptions options) o = .ok e) :
    ∃ (b : Draft) (after after' : List RuleOption), e = b.withOptions after ∧
      readOption (d.withOptions options') o = .ok (b.withOptions after') ∧ Q after after' := by
  by_cases hk : ∃ m, Keyword.read o.name = some (.modifier m)
  · obtain ⟨m, hk⟩ := hk
    rw [readOption_modifier hk] at hread
    obtain ⟨changed, hchanged, rfl⟩ := map_eq_ok.1 hread
    obtain ⟨changed', hchanged', hafter⟩ := hQ.modify h hchanged
    refine ⟨d, changed, changed', rfl, ?_, hafter⟩
    rw [readOption_modifier hk, Draft.options_withOptions, hchanged']
    rfl
  · have hk := not_exists.1 hk
    rw [readOption_frame hk] at hread
    obtain ⟨added, hadded, rfl⟩ := map_eq_ok.1 hread
    refine ⟨added, options ++ added.options, options' ++ added.options, rfl, ?_, hQ.append h _⟩
    rw [readOption_frame hk, hadded, map_ok]

theorem readOptions_forward (hQ : Steady Q) {options options' : List RuleOption}
    (h : Q options options')
    {raws : List RawOption} {d e : Draft}
    (hread : raws.foldlM readOption (d.withOptions options) = .ok e) :
    ∃ (b : Draft) (after after' : List RuleOption), e = b.withOptions after ∧
      raws.foldlM readOption (d.withOptions options') = .ok (b.withOptions after') ∧
        Q after after' := by
  induction raws generalizing d options options' with
  | nil => exact ⟨d, options, options', (Except.ok.inj hread).symm, rfl, h⟩
  | cons o raws ih =>
    rw [List.foldlM_cons, bind_eq_ok] at hread
    obtain ⟨next, hnext, hrest⟩ := hread
    obtain ⟨b, after, after', rfl, hnext', hafter⟩ := hQ.readOption_forward h hnext
    obtain ⟨final, last, last', hfinal, hrest', hlast⟩ := ih hafter hrest
    refine ⟨final, last, last', hfinal, ?_, hlast⟩
    rw [List.foldlM_cons, hnext', ok_bind, hrest']

theorem readOption_both (hQ : Steady Q) {d d' e e' : Draft} {o : RawOption}
    (h : Q d.options d'.options)
    (hbuffer : d.buffer = d'.buffer) (hread : readOption d o = .ok e)
    (hread' : readOption d' o = .ok e') :
    Q e.options e'.options ∧ e.buffer = e'.buffer := by
  by_cases hk : ∃ m, Keyword.read o.name = some (.modifier m)
  · obtain ⟨m, hk⟩ := hk
    rw [readOption_modifier hk] at hread hread'
    obtain ⟨changed, hchanged, rfl⟩ := map_eq_ok.1 hread
    obtain ⟨changed', hchanged', rfl⟩ := map_eq_ok.1 hread'
    obtain ⟨other, hother, hafter⟩ := hQ.modify h hchanged
    rw [hchanged', Except.ok.injEq] at hother
    exact ⟨hother ▸ hafter, hbuffer⟩
  · obtain ⟨added, hadded, hoptions, hafter⟩ := readOption_added (not_exists.1 hk) hread
    obtain ⟨added', hadded', hoptions', hafter'⟩ := readOption_added (not_exists.1 hk) hread'
    have hfresh : d.fresh = d'.fresh := congrArg (fun buffer => ({ buffer } : Draft)) hbuffer
    rw [hfresh, hadded', Except.ok.injEq] at hadded
    rw [hoptions, hoptions', hafter, hafter', hadded]
    exact ⟨hQ.append h _, rfl⟩

theorem readOptions_both (hQ : Steady Q) {d d' e e' : Draft} {raws : List RawOption}
    (h : Q d.options d'.options) (hbuffer : d.buffer = d'.buffer)
    (hread : raws.foldlM readOption d = .ok e)
    (hread' : raws.foldlM readOption d' = .ok e') : Q e.options e'.options := by
  induction raws generalizing d d' with
  | nil =>
    rw [← Except.ok.inj hread, ← Except.ok.inj hread']
    exact h
  | cons o raws ih =>
    rw [List.foldlM_cons, bind_eq_ok] at hread hread'
    obtain ⟨next, hnext, hrest⟩ := hread
    obtain ⟨next', hnext', hrest'⟩ := hread'
    obtain ⟨hoptions, hbuffer⟩ := hQ.readOption_both h hbuffer hnext hnext'
    exact ih hoptions hbuffer hrest hrest'

end Steady

/-- The same match options but for one, `place` many behind the first. -/
def Pair (P : RuleOption → RuleOption → Prop) (place : ℕ)
    (options options' : List RuleOption) : Prop :=
  ∃ front back o o', P o o' ∧ front.length = place ∧ options = front ++ o :: back ∧
    options' = front ++ o' :: back

structure Stable (P : RuleOption → RuleOption → Prop) : Prop where
  content : ∀ {c : ContentMatch} {o' : RuleOption}, P (.content c) o' → ∃ c', o' = .content c'
  modify : ∀ {c c' : ContentMatch}, P (.content c) (.content c') → ∀ {m : Modifier} {name : Text}
    {value : Option Text} {e : ContentMatch}, m.apply name value c = .ok e →
      ∃ e', m.apply name value c' = .ok e' ∧ P (.content e) (.content e')

theorem Stable.steady {P : RuleOption → RuleOption → Prop} (hP : Stable P) (place : ℕ) :
    Steady (Pair P place) where
  append := by
    rintro _ _ ⟨front, back, o, o', h, hplace, rfl, rfl⟩ added
    exact ⟨front, back ++ added, o, o', h, hplace, by simp, by simp⟩
  modify := by
    rintro _ _ ⟨front, back, o, o', h, hplace, rfl, rfl⟩ m name value changed happly
    obtain ⟨init, c, e, hoptions, he, rfl⟩ := applyContentModifier_eq_ok happly
    induction back using List.reverseRecOn with
    | nil =>
      obtain ⟨rfl, hlast⟩ := List.append_inj' hoptions rfl
      obtain rfl := List.singleton_injective hlast
      obtain ⟨c', rfl⟩ := hP.content h
      obtain ⟨e', he', hafter⟩ := hP.modify h he
      refine ⟨front ++ [.content e'], ?_, front, [], _, _, hafter, hplace, rfl, rfl⟩
      rw [applyContentModifier_concat, he', map_ok]
    | append_singleton back last _ =>
      have hassoc : front ++ o :: (back ++ [last]) = front ++ o :: back ++ [last] := by simp
      have hassoc' : front ++ o' :: (back ++ [last]) = front ++ o' :: back ++ [last] := by simp
      obtain ⟨rfl, hlast⟩ := List.append_inj' (hassoc.symm.trans hoptions) rfl
      obtain rfl := List.singleton_injective hlast
      refine ⟨front ++ o' :: back ++ [.content e], ?_, front, back ++ [.content e], o, o', h,
        hplace, by simp,
        by simp⟩
      rw [hassoc', applyContentModifier_concat, he, map_ok]

theorem apply_of_apply {m : Modifier} {name : Text} {value : Option Text} {c e : ContentMatch}
    (h : m.apply name value c = .ok e) (c' : ContentMatch) :
    ∃ e', m.apply name value c' = .ok e' ∧ e'.negated = c'.negated ∧
      (c = { c' with negated := c.negated } → e = { e' with negated := c.negated }) := by
  cases m with
  | nocase | fastPattern | startsWith =>
    cases Except.ok.inj h
    refine ⟨_, rfl, rfl, fun hsame => ?_⟩
    rw [hsame]
  | _ =>
    obtain ⟨number, hnumber, rfl⟩ := map_eq_ok.1 h
    refine ⟨_, map_eq_ok.2 ⟨number, hnumber, rfl⟩, rfl, fun hsame => ?_⟩
    rw [hsame]

theorem negates_stable : Stable RuleOption.Negates where
  content := by
    intro c o' h
    cases o' with
    | content c' => exact ⟨c', rfl⟩
    | _ => exact absurd h (by simp [RuleOption.Negates])
  modify := by
    intro c c' h m name value e happly
    rw [RuleOption.Negates] at h
    have hnegated : c.negated = !c'.negated := congrArg ContentMatch.negated h
    obtain ⟨e', he', hkept, hsame⟩ := apply_of_apply happly c'
    refine ⟨e', he', ?_⟩
    rw [RuleOption.Negates, hkept, ← hnegated]
    exact hsame (by rw [hnegated]; exact h)

inductive BothNegated : RuleOption → RuleOption → Prop
  | content {c c' : ContentMatch} : c.negated = true → c'.negated = true →
      BothNegated (.content c) (.content c')
  | pcre {p p' : PcreMatch} : p.negated = true → p'.negated = true →
    BothNegated (.pcre p) (.pcre p')
  | host {h h' : HostFieldMatch} : h.negated = true → h'.negated = true →
    BothNegated (.host h) (.host h')

theorem BothNegated.not_negates {o o' : RuleOption} (h : BothNegated o o') : ¬o.Negates o' := by
  intro hnegates
  cases h with
  | @content c c' hc hc' =>
    rw [RuleOption.Negates] at hnegates
    have hflag := congrArg ContentMatch.negated hnegates
    rw [hc, hc'] at hflag
    exact Bool.noConfusion hflag
  | @pcre p p' hp hp' =>
    rw [RuleOption.Negates] at hnegates
    have hflag := congrArg PcreMatch.negated hnegates
    rw [hp, hp'] at hflag
    exact Bool.noConfusion hflag
  | @host field field' hh hh' =>
    rw [RuleOption.Negates] at hnegates
    have hflag := congrArg HostFieldMatch.negated hnegates
    rw [hh, hh'] at hflag
    exact Bool.noConfusion hflag

theorem bothNegated_stable : Stable BothNegated where
  content := by
    rintro c o' ⟨⟩
    exact ⟨_, rfl⟩
  modify := by
    rintro c c' ⟨hc, hc'⟩ m name value e happly
    obtain ⟨e', he', hkept', _⟩ := apply_of_apply happly c'
    obtain ⟨again, hagain, hkept, _⟩ := apply_of_apply happly c
    rw [happly, Except.ok.injEq] at hagain
    exact ⟨e', he', .content (by rw [hagain, hkept, hc]) (by rw [hkept', hc'])⟩

/-! ### Options that are written with a negation -/

def Keyword.carriesNegation : Keyword → Bool
  | content | pcre | host _ | hostPcre _ => true
  | _ => false

/-- The option with its negation left open, of an option that carries it. -/
def Keyword.Builds : Keyword → (Bool → RuleOption) → Prop
  | content, build => ∃ c : ContentMatch, build = fun negated => .content { c with negated }
  | pcre, build => ∃ p : PcreMatch, build = fun negated => .pcre { p with negated }
  | host _, build | hostPcre _, build =>
    ∃ h : HostFieldMatch, build = fun negated => .host { h with negated }
  | _, _ => False

theorem Keyword.Builds.negates {k : Keyword} {build : Bool → RuleOption} (h : k.Builds build) :
    (build true).Negates (build false) := by
  cases k with
  | content | pcre | host | hostPcre =>
    obtain ⟨_, rfl⟩ := h
    rfl
  | _ => exact absurd h id

theorem Keyword.Builds.bothNegated {k : Keyword} {build build' : Bool → RuleOption}
    (h : k.Builds build)
    (h' : k.Builds build') : BothNegated (build true) (build' true) := by
  cases k with
  | content =>
    obtain ⟨_, rfl⟩ := h
    obtain ⟨_, rfl⟩ := h'
    exact .content rfl rfl
  | pcre =>
    obtain ⟨_, rfl⟩ := h
    obtain ⟨_, rfl⟩ := h'
    exact .pcre rfl rfl
  | host | hostPcre =>
    obtain ⟨_, rfl⟩ := h
    obtain ⟨_, rfl⟩ := h'
    exact .host rfl rfl
  | _ => exact absurd h id

theorem readOption_negated_irrelevant {name : Text} {k : Keyword} (hk : Keyword.read name = some k)
    (hcarries : k.carriesNegation = false) (d : Draft) (value : Option Text)
    (negated negated' : Bool) :
    readOption d ⟨name, value, negated⟩ = readOption d ⟨name, value, negated'⟩ := by
  cases k with
  | content | pcre | host | hostPcre => exact Bool.noConfusion hcarries
  | _ => simp only [readOption, hk]

theorem readOption_carries {name : Text} {k : Keyword} (hk : Keyword.read name = some k)
    (hcarries : k.carriesNegation = true) {d e : Draft} {value : Option Text} {negated : Bool}
    (h : readOption d ⟨name, value, negated⟩ = .ok e) :
    ∃ build, k.Builds build ∧
      ∀ negated, readOption d ⟨name, value, negated⟩ = .ok (d.push (build negated)) := by
  cases k with
  | content =>
    simp only [readOption, hk, bind_eq_ok] at h ⊢
    obtain ⟨text, htext, pattern, hpattern, h⟩ := h
    split_ifs at h with hempty
    · exact absurd h (by simp)
    · exact ⟨_, ⟨{ pattern, buffer := d.buffer }, rfl⟩,
        fun negated => ⟨text, htext, pattern, hpattern, if_neg hempty⟩⟩
  | pcre =>
    simp only [readOption, hk, bind_eq_ok] at h ⊢
    obtain ⟨text, htext, pcre, hpcre, _⟩ := h
    exact ⟨_, ⟨{ pcre with buffer := d.buffer }, rfl⟩, fun negated =>
      ⟨text, htext, pcre, hpcre, rfl⟩⟩
  | host field =>
    simp only [readOption, hk, bind_eq_ok] at h ⊢
    obtain ⟨text, htext, values, hvalues, _⟩ := h
    exact ⟨_, ⟨⟨field, .anyOf values field.defaultMatchKind false, false⟩, rfl⟩,
      fun negated => ⟨text, htext, values, hvalues, rfl⟩⟩
  | hostPcre field =>
    simp only [readOption, hk, bind_eq_ok] at h ⊢
    obtain ⟨text, htext, h⟩ := h
    split_ifs at h with hempty
    · exact absurd h (by simp)
    · exact ⟨_, ⟨⟨field, .regex (String.ofList text), false⟩, rfl⟩,
        fun negated => ⟨text, htext, if_neg hempty⟩⟩
  | _ => exact Bool.noConfusion hcarries

/-! ### A second negation -/

/-- The options of this kind set something that no match option depends on. -/
def Keyword.isAside : Keyword → Bool
  | sid | rev | gid | priority | msg | classtype | metadata | reference | threshold
  | unimplemented => true
  | _ => false

theorem readOption_aside {o : RawOption} {k : Keyword} (hk : Keyword.read o.name = some k)
    (haside : k.isAside = true) {d e : Draft} (h : readOption d o = .ok e) :
    e.options = d.options ∧ e.buffer = d.buffer := by
  have hkeep : (readOption d o).map (fun e => (e.options, e.buffer)) =
      (readOption d o).map fun _ => (d.options, d.buffer) := by
    obtain ⟨name, value, negated⟩ := o
    cases k with
    | sid | rev | gid | priority | msg | classtype | metadata | reference | threshold
    | unimplemented =>
      simp only [readOption, hk, map_bind, map_pure, map_ok, map_error, error_bind,
        apply_ite (Except.map _)]
    | _ => exact Bool.noConfusion haside
  rw [h, map_ok, map_ok, Except.ok.injEq] at hkeep
  exact Prod.mk.inj hkeep

theorem trim_bang (rest : Text) : trim ('!' :: rest) = '!' :: rest.rdropWhile isWhitespace :=
  Blanks.strip_cons (by decide) rest

theorem parseNumber_bang (size : ℕ) (rest : Text) : parseNumber size ('!' :: rest) = none := by
  have hbang : isDigitIn 10 '!' = false := by decide
  simp [parseNumber, hbang]

theorem parseSigned_bang (size : ℕ) (rest : Text) : parseSigned size ('!' :: rest) = none := by
  simp [parseSigned, parseNumber_bang]

theorem splitOn_bang (rest : Text) :
    ∃ piece pieces, ('!' :: rest).splitOn ',' = ('!' :: piece) :: pieces := by
  rw [List.splitOn_cons_eq_if_modifyHead, if_neg (by decide)]
  cases hpieces : rest.splitOn ',' with
  | nil => exact absurd hpieces (List.splitOn_ne_nil _ _)
  | cons piece pieces => exact ⟨piece, pieces, rfl⟩

/-- A value that begins with `!` is none of these. -/
theorem parseFlow_bang (rest : Text) : Refused (parseFlow ('!' :: rest)) := by
  obtain ⟨piece, pieces, hpieces⟩ := splitOn_bang rest
  have hpart : Refused (flowPart {} ('!' :: piece)) := by
    simp [flowPart, trim_bang]
  obtain ⟨e, he⟩ := hpart
  rw [parseFlow, hpieces, List.foldlM_cons, he]
  exact refused_error e

theorem parseFlowBits_bang (rest : Text) : Refused (parseFlowBits ('!' :: rest)) := by
  have hcommand : ∃ piece name, (splitOnce ',' ('!' :: rest)).getD ('!' :: rest, []) =
      ('!' :: piece, name) := by
    rw [splitOnce]
    split_ifs with hcomma
    · exact ⟨_, _, by rw [Option.getD_some, List.takeWhile_cons_of_pos (by decide)]⟩
    · exact ⟨rest, [], rfl⟩
  obtain ⟨piece, name, hcommand⟩ := hcommand
  simp [parseFlowBits, hcommand, trim_bang, flowBitsCommands, List.lookup_cons]

theorem parseByteTest_bang (rest : Text) : Refused (parseByteTest ('!' :: rest)) := by
  obtain ⟨piece, pieces, hpieces⟩ := splitOn_bang rest
  rw [parseByteTest, hpieces, List.map_cons, trim_bang]
  split
  · rename_i width operator value offset modifiers hparts
    obtain ⟨rfl, _⟩ := List.cons.inj hparts
    simp [parseNumber_bang]
  · exact refused_error _

theorem parseByteJump_bang (rest : Text) : Refused (parseByteJump ('!' :: rest)) := by
  obtain ⟨piece, pieces, hpieces⟩ := splitOn_bang rest
  rw [parseByteJump, hpieces, List.map_cons, trim_bang]
  split
  · rename_i width offset modifiers hparts
    obtain ⟨rfl, _⟩ := List.cons.inj hparts
    simp [parseNumber_bang]
  · exact refused_error _

theorem normalization_bang (rest : Text) : NormalizationCondition.parse ('!' :: rest) = none := by
  simp [NormalizationCondition.parse, trim_bang, normalizationConditions, List.lookup_cons]

/-- Of an option that does not carry its negation, sizes apart, a value that begins with `!` is
refused, or it does not matter. -/
theorem readOption_bang {name : Text} {k : Keyword} (hk : Keyword.read name = some k)
    (hcarries : k.carriesNegation = false) (hsize : k ≠ .dsize) {d e e' : Draft} {rest value : Text}
    {negated negated' : Bool} (h : readOption d ⟨name, some ('!' :: rest), negated⟩ = .ok e)
    (h' : readOption d ⟨name, some value, negated'⟩ = .ok e') :
    e.options = e'.options ∧ e.buffer = e'.buffer := by
  have hrefuse : Refused (readOption d ⟨name, some ('!' :: rest), negated⟩) →
      e.options = e'.options ∧ e.buffer = e'.buffer := by
    intro hrefused
    rw [h] at hrefused
    exact absurd hrefused (not_refused_ok e)
  cases k with
  | content | pcre | host | hostPcre => exact Bool.noConfusion hcarries
  | dsize => exact absurd rfl hsize
  | sid | rev | gid | priority | msg | classtype | metadata | reference | threshold
  | unimplemented =>
    obtain ⟨hoptions, hbuffer⟩ := readOption_aside hk rfl h
    obtain ⟨hoptions', hbuffer'⟩ := readOption_aside hk rfl h'
    exact ⟨hoptions.trans hoptions'.symm, hbuffer.trans hbuffer'.symm⟩
  | buffer b => exact hrefuse (by simp [readOption, hk])
  | modifier m =>
    rw [readOption_modifier hk] at h h'
    obtain ⟨changed, hchanged, rfl⟩ := map_eq_ok.1 h
    obtain ⟨changed', hchanged', rfl⟩ := map_eq_ok.1 h'
    obtain ⟨init, c, e, hoptions, he, rfl⟩ := applyContentModifier_eq_ok hchanged
    obtain ⟨init', c', e', hoptions', he', rfl⟩ := applyContentModifier_eq_ok hchanged'
    obtain ⟨rfl, hlast⟩ := List.append_inj' (hoptions.symm.trans hoptions') rfl
    cases hlast
    refine ⟨?_, rfl⟩
    cases m with
    | nocase | fastPattern | startsWith =>
      rw [← Except.ok.inj he, ← Except.ok.inj he']
    | _ =>
      obtain ⟨number, hnumber, _⟩ := map_eq_ok.1 he
      rw [modifierNumber, requireValue, ok_bind, trim_bang, parseSigned_bang] at hnumber
      exact absurd hnumber (by simp)
  | flow =>
    apply hrefuse
    simp only [readOption, hk, requireValue, ok_bind]
    exact refused_bind (refused_mapError _ (parseFlow_bang rest)) _
  | flowBits =>
    apply hrefuse
    simp only [readOption, hk, requireValue, ok_bind]
    exact refused_bind (refused_mapError _ (parseFlowBits_bang rest)) _
  | byteTest =>
    apply hrefuse
    simp only [readOption, hk, requireValue, ok_bind]
    exact refused_bind (refused_mapError _ (parseByteTest_bang rest)) _
  | byteJump =>
    apply hrefuse
    simp only [readOption, hk, requireValue, ok_bind]
    exact refused_bind (refused_mapError _ (refused_mapError _ (parseByteJump_bang rest))) _
  | normalized =>
    apply hrefuse
    simp only [readOption, hk, requireValue, ok_bind, normalization_bang]
    exact refused_error _

/-! ### A second negation of a size -/

theorem eq_of_unescapeChars {written text : Text} (h : unescapeChars written = .ok text)
    (hplain : ∀ c ∈ text, c ∉ ['\\', '"', ';']) : written = text := by
  induction written using unescapeChars.induct generalizing text with
  | case1 => exact Except.ok.inj h
  | case2 c rest hslash ih =>
    rw [unescapeChars_cons _ hslash] at h
    obtain ⟨out, hout, rfl⟩ := map_eq_ok.1 h
    rw [ih hout fun d hd => hplain d (List.mem_cons_of_mem _ hd)]
  | case3 c hslash =>
    rw [not_not.1 hslash] at h
    exact absurd h (by simp [unescapeChars])
  | case4 c hslash escaped rest hescaped ih =>
    rw [not_not.1 hslash, unescapeChars_escape _ hescaped] at h
    obtain ⟨out, hout, rfl⟩ := map_eq_ok.1 h
    refine absurd ?_ (hplain escaped List.mem_cons_self)
    rcases hescaped with rfl | rfl | rfl <;> decide
  | case5 c hslash escaped rest hescaped ih =>
    rw [not_not.1 hslash, unescapeChars_backslash _ hescaped] at h
    obtain ⟨out, hout, rfl⟩ := map_eq_ok.1 h
    exact absurd (by decide) (hplain '\\' List.mem_cons_self)

theorem unescapeChars_plain {text : Text} (hplain : '\\' ∉ text) :
    unescapeChars text = .ok text := by
  induction text with
  | nil => rfl
  | cons c text ih =>
    rw [List.mem_cons, not_or] at hplain
    rw [unescapeChars_cons _ (Ne.symm hplain.1), ih hplain.2]
    rfl

theorem parseU32_bang (rest : Text) : parseU32 (trim ('!' :: rest)) = none := by
  rw [trim_bang, parseU32, parseNumber_bang, Option.map_none]

theorem splitRange_bang {text : Text} {low high : Text}
    (h : splitRange ('!' :: text) = some (low, high)) :
    ∃ rest, low = '!' :: rest := by
  rw [splitRange] at h
  obtain ⟨i, hi, hparts⟩ := Option.map_eq_some_iff.1 h
  obtain ⟨rfl, _⟩ := Prod.mk.inj hparts
  rw [Substrings.find_cons (by simp)] at hi
  obtain ⟨j, _, rfl⟩ := Option.map_eq_some_iff.1 hi
  exact ⟨text.take j, List.take_succ_cons⟩

theorem numericOp_bang {operator : Text} {op : NumericOp}
    (h : NumericOp.parse ('!' :: operator) = some op) :
    op = .notEqual ∧ (operator.rdropWhile isWhitespace = ['='] ∨
      operator.rdropWhile isWhitespace = []) := by
  rw [NumericOp.parse, trim_bang] at h
  generalize operator.rdropWhile isWhitespace = rest at h
  by_cases hequal : rest = ['=']
  · subst hequal
    exact ⟨(Option.some.inj h).symm, .inl rfl⟩
  · by_cases hnil : rest = []
    · subst hnil
      exact ⟨(Option.some.inj h).symm, .inr rfl⟩
    · have hequal : (rest == ['=']) = false := beq_false_of_ne hequal
      have hnil : rest.isEmpty = false := List.isEmpty_eq_false_iff.2 hnil
      exact absurd h (by simp [numericOps, List.lookup_cons, hequal, hnil])

theorem parseDsize_eq_ok {text : Text} (hrange : splitRange (trim text) = none)
    {size : DsizeMatch} :
    parseDsize text = .ok size ↔ ∃ op value, sizeOp ((trim text).takeWhile (!·.isDigit)) = some op ∧
      parseU32 (trim ((trim text).dropWhile (!·.isDigit))) = some value ∧ { op, value } = size := by
  rw [parseDsize]
  simp only [hrange]
  by_cases hnone : (trim text).all (!·.isDigit) = true
  · have hdrop : (trim text).dropWhile (!·.isDigit) = [] :=
      List.dropWhile_eq_nil_iff.2 (List.all_eq_true.1 hnone)
    rw [if_pos hnone, hdrop]
    constructor
    · intro h
      exact absurd h (by simp)
    · rintro ⟨op, value, _, hvalue, _⟩
      have hempty : parseU32 (trim []) = none := rfl
      exact absurd (hempty.symm.trans hvalue) (by simp)
  · rw [if_neg hnone]
    cases sizeOp ((trim text).takeWhile (!·.isDigit)) with
    | none => simp
    | some op =>
      cases parseU32 (trim ((trim text).dropWhile (!·.isDigit))) with
      | none => simp
      | some value => simp

theorem lt_mem_of_splitRange {text : Text} {parts : Text × Text}
    (h : splitRange text = some parts) :
    '<' ∈ text := by
  rw [splitRange] at h
  obtain ⟨i, hi, _⟩ := Option.map_eq_some_iff.1 h
  exact (List.drop_suffix i text).subset ((Substrings.isPrefix_drop_of_find hi).subset (by simp))

theorem not_blank_of_isDigit {c : Char} (h : c.isDigit = true) : isWhitespace c = false := by
  simp only [Char.isDigit, Bool.and_eq_true, decide_eq_true_eq, ge_iff_le,
    UInt32.le_iff_toNat_le] at h
  have hlow : 48 ≤ c.toNat := h.1
  have hhigh : c.toNat ≤ 57 := h.2
  simp only [isWhitespace, Bool.or_eq_false_iff, Bool.and_eq_false_iff, decide_eq_false_iff_not,
    beq_eq_false_iff_ne]
  omega

theorem digits_of_parseU32 {c : Char} (hc : c.isDigit = true) {rest : Text} {value : UInt32}
    (h : parseU32 (c :: rest) = some value) : ∀ d ∈ c :: rest, isDigitIn 10 d = true := by
  have hsign : (c :: rest).head? ≠ some '+' := by
    rintro hplus
    obtain rfl := Option.some.inj hplus
    exact absurd hc (by decide)
  rw [parseU32, parseNumber] at h
  simp only [if_neg hsign] at h
  obtain ⟨number, hnumber, _⟩ := Option.map_eq_some_iff.1 h
  split_ifs at hnumber with hall
  simp only [Bool.and_eq_true] at hall
  exact List.all_eq_true.1 hall.1.2

/-- What a size is written with behind a `!`. -/
def IsSizeChar (c : Char) : Prop := c = '=' ∨ isWhitespace c = true ∨ isDigitIn 10 c = true

theorem IsSizeChar.ne {c d : Char} (h : IsSizeChar c) (hequal : d ≠ '=')
    (hblank : isWhitespace d = false)
    (hdigit : isDigitIn 10 d = false) : c ≠ d := by
  rintro rfl
  rcases h with h | h | h
  · exact hequal h
  · exact Bool.false_ne_true (hblank.symm.trans h)
  · exact Bool.false_ne_true (hdigit.symm.trans h)

theorem mem_rdropWhile_or {p : Char → Bool} {text : Text} {c : Char} (h : c ∈ text) :
    c ∈ text.rdropWhile p ∨ p c = true := by
  rw [← List.rdropWhile_append_rtakeWhile (p := p) (l := text), List.mem_append] at h
  exact h.imp_right List.mem_rtakeWhile_imp

/-- The parts of a size that is written with a `!`. -/
theorem parseDsize_bang_parts {text : Text} {size : DsizeMatch}
    (h : parseDsize ('!' :: text) = .ok size) :
    ∃ operator c rest value, text.rdropWhile isWhitespace = operator ++ c :: rest ∧
      (∀ d ∈ operator, d.isDigit = false) ∧ c.isDigit = true ∧
      (operator.rdropWhile isWhitespace = ['='] ∨ operator.rdropWhile isWhitespace = []) ∧
      parseU32 (c :: rest.rdropWhile isWhitespace) = some value ∧
        size = { op := .notEqual, value } := by
  have hrange : splitRange (trim ('!' :: text)) = none := by
    rw [trim_bang]
    cases hparts : splitRange ('!' :: text.rdropWhile isWhitespace) with
    | none => rfl
    | some parts =>
      obtain ⟨rest, hlow⟩ := splitRange_bang hparts
      simp only [parseDsize, trim_bang, hparts, hlow] at h
      rw [← trim_bang, parseU32_bang] at h
      exact absurd h (by simp)
  obtain ⟨op, value, hop, hvalue, rfl⟩ := (parseDsize_eq_ok hrange).1 h
  rw [trim_bang] at hop hvalue
  rw [List.takeWhile_cons_of_pos (by decide), sizeOp, if_neg (by rw [trim_bang]; simp)] at hop
  rw [List.dropWhile_cons_of_pos (by decide)] at hvalue
  obtain ⟨rfl, hoperator⟩ := numericOp_bang hop
  have hsplit := List.takeWhile_append_dropWhile (p := fun c : Char => !c.isDigit)
    (l := text.rdropWhile isWhitespace)
  have hhead := List.head?_dropWhile_not (fun c : Char => !c.isDigit) (text.rdropWhile isWhitespace)
  cases hdrop : (text.rdropWhile isWhitespace).dropWhile (!·.isDigit) with
  | nil =>
    rw [hdrop] at hvalue
    exact absurd (hvalue.symm.trans (show parseU32 (trim []) = none from rfl)) (by simp)
  | cons c rest =>
    rw [hdrop] at hhead hvalue hsplit
    have hc : c.isDigit = true := by simpa using hhead
    rw [trim_eq_strip, Blanks.strip_cons (not_blank_of_isDigit hc)] at hvalue
    refine ⟨_, c, rest, value, hsplit.symm, fun d hd => ?_, hc, hoperator, hvalue, rfl⟩
    simpa using List.mem_takeWhile_imp hd

theorem isSizeChar_of_bang {text operator rest : Text} {c : Char} {value : UInt32}
    (hsplit : text.rdropWhile isWhitespace = operator ++ c :: rest) (hc : c.isDigit = true)
    (hoperator : operator.rdropWhile isWhitespace = ['='] ∨ operator.rdropWhile isWhitespace = [])
    (hvalue : parseU32 (c :: rest.rdropWhile isWhitespace) = some value) :
    ∀ d ∈ text, IsSizeChar d := by
  have hdigits := digits_of_parseU32 hc hvalue
  have hoperatorChars : ∀ d ∈ operator, IsSizeChar d := by
    intro d hd
    rcases mem_rdropWhile_or hd with hmem | hblank
    · rcases hoperator with hequal | hnil
      · rw [hequal, List.mem_singleton] at hmem
        exact .inl hmem
      · rw [hnil] at hmem
        cases hmem
    · exact .inr (.inl hblank)
  intro d hd
  rcases mem_rdropWhile_or hd with hmem | hblank
  · rw [hsplit, List.mem_append] at hmem
    rcases hmem with hmem | hmem
    · exact hoperatorChars d hmem
    · rcases List.mem_cons.1 hmem with rfl | hmem
      · exact .inr (.inr (hdigits _ List.mem_cons_self))
      · rcases mem_rdropWhile_or hmem with hmem | hblank
        · exact .inr (.inr (hdigits d (List.mem_cons_of_mem _ hmem)))
        · exact .inr (.inl hblank)
  · exact .inr (.inl hblank)

/-- A size that is written with `!` behind the one that is taken off is the opposite of the size
without. -/
theorem parseDsize_bang {text : Text} {size : DsizeMatch}
    (h : parseDsize ('!' :: text) = .ok size) :
    (∀ c ∈ text, c ∉ ['\\', '"', ';']) ∧ ∃ size', parseDsize (trim text) = .ok size' ∧
      ∀ length, size.matches length = !size'.matches length := by
  obtain ⟨operator, c, rest, value, hsplit, hnone, hc, hoperator, hvalue, rfl⟩ :=
    parseDsize_bang_parts h
  have hchars := isSizeChar_of_bang hsplit hc hoperator hvalue
  have htrim : trim text = operator.dropWhile isWhitespace ++
      c :: rest.rdropWhile isWhitespace := by
    rw [trim_eq_strip, ← Blanks.strip_rdropWhile, hsplit,
      Blanks.strip_append_cons (not_blank_of_isDigit hc)]
  have hagain : trim (trim text) = trim text := Blanks.strip_strip text
  have hrange : splitRange (trim (trim text)) = none := by
    rw [hagain]
    cases hparts : splitRange (trim text) with
    | none => rfl
    | some parts =>
      have hmem : '<' ∈ text := (List.dropWhile_suffix _).subset
        ((List.rdropWhile_prefix _ _).subset (lt_mem_of_splitRange hparts))
      exact absurd rfl ((hchars _ hmem).ne (by decide) (by decide) (by decide))
  have htake : (trim text).takeWhile (!·.isDigit) = operator.dropWhile isWhitespace := by
    rw [htrim, List.takeWhile_append_of_pos]
    · simp [hc]
    · intro d hd
      rw [hnone d ((List.dropWhile_suffix _).subset hd)]
      rfl
  have hdrop : (trim text).dropWhile (!·.isDigit) = c :: rest.rdropWhile isWhitespace := by
    rw [htrim, List.dropWhile_append_of_pos]
    · simp [hc]
    · intro d hd
      rw [hnone d ((List.dropWhile_suffix _).subset hd)]
      rfl
  have hop : sizeOp (operator.dropWhile isWhitespace) = some .equal := by
    have hsame : trim (operator.dropWhile isWhitespace) =
        trim (operator.rdropWhile isWhitespace) := by
      rw [trim_eq_strip, trim_eq_strip, Blanks.strip_dropWhile, Blanks.strip_rdropWhile]
    rw [sizeOp, NumericOp.parse, hsame]
    rcases hoperator with hequal | hnil
    · rw [hequal]
      rfl
    · rw [hnil]
      rfl
  refine ⟨fun d hd hmem =>
    ?_, { op := .equal, value }, (parseDsize_eq_ok hrange).2 ⟨.equal, value, ?_, ?_, rfl⟩,
    fun length => ?_⟩
  · simp only [List.mem_cons, List.not_mem_nil, or_false] at hmem
    rcases hmem with rfl | rfl | rfl <;>
      exact absurd rfl ((hchars _ hd).ne (by decide) (by decide) (by decide))
  · rw [hagain, htake, hop]
  · rw [hagain, hdrop, trim_eq_strip, Blanks.strip_cons (not_blank_of_isDigit hc),
      List.rdropWhile_idempotent, hvalue]
  · rfl

theorem readOption_size {name : Text} (hk : Keyword.read name = some .dsize) {d e : Draft}
    {value : Text}
    {negated : Bool} :
    readOption d ⟨name, some value, negated⟩ = .ok e ↔
      ∃ size, parseDsize value = .ok size ∧ e = d.push (.dsize size) := by
  simp only [readOption, hk, requireValue, ok_bind, bind_eq_ok]
  cases parseDsize value with
  | error reason => simp [Except.mapError]
  | ok size => simp [Except.mapError, pure, Except.pure, eq_comm]

/-! ### Rule texts -/

structure NegatedOption where
  header : Text
  before : List Text
  name : Text
  blank : Text
  after : Text
  rest : Text
  header_open : '(' ∉ header
  before_whole : ∀ chunk ∈ before, scan false chunk = some false
  name_plain : ∀ c ∈ name, c ∉ scannedChars
  blank_blank : ∀ c ∈ blank, isWhitespace c = true
  rest_close : ')' ∉ rest

namespace NegatedOption

variable (o : NegatedOption)

def block (bang : Text) : Text :=
  joinOptions o.before ++ (o.name ++ ':' :: (o.blank ++ (bang ++ o.after)))

def text (bang : Text) : Text := o.header ++ '(' :: (o.block bang ++ ')' :: o.rest)

/-- The rule with a `!` in front of the value. -/
def written : Text := o.text ['!']

def without : Text := o.text []

def key : Text := lowercase (trim o.name)

/-- Another `!` follows. -/
def Again : Prop := (o.after.dropWhile isWhitespace).head? = some '!'

def place : ℕ :=
  match parseOptions (joinOptions o.before) >>= fun options => options.foldlM readOption {} with
  | .ok d => d.options.length
  | .error _ => 0

/-- Without the `!` there is a rule as well, and one match option of the first, that of this option,
is the negation of the one of the second. -/
def Kept (rule : ParsedRule) : Prop :=
  ∃ rule', parseRule o.without = .ok rule' ∧
    Pair RuleOption.Negates o.place rule.options rule'.options

/-- The options in front of it, the rest of its value and the options behind it. -/
theorem splitOptionList_block {options : List Text} {bang : Text} (hbang : bang = ['!'] ∨ bang = [])
    (h : splitOptionList (o.block bang) = .ok options) :
    ∃ tail more rest, o.after = tail ++ rest ∧ (∀ c ∈ rest.head?, c = ';') ∧
      ∀ bang, bang = ['!'] ∨ bang = [] → splitOptionList (o.block bang) =
        .ok (o.before ++ (o.name ++ ':' :: (o.blank ++ (bang ++ tail))) :: more) := by
  have hscan : ∀ bang, bang = ['!'] ∨ bang = [] → splitOptionList (o.block bang) =
      (splitOptionsFrom (o.name ++ ':' :: (o.blank ++ bang)) false o.after).map
      (o.before ++ ·) := by
    intro bang hbang
    have hplain : ∀ c ∈ o.name ++ ':' :: (o.blank ++ bang), c ∉ ['\\', '"', ';'] := by
      intro c hc hmem
      have hspecial : c ∈ scannedChars ∧ c ≠ ':' ∧ c ≠ '!' ∧ isWhitespace c = false := by
        simp only [List.mem_cons, List.not_mem_nil, or_false] at hmem
        rcases hmem with rfl | rfl | rfl <;> decide
      rw [List.mem_append, List.mem_cons, List.mem_append] at hc
      rcases hc with hname | hcolon | hblank | hbangc
      · exact o.name_plain c hname hspecial.1
      · exact hspecial.2.1 hcolon
      · exact Bool.false_ne_true (hspecial.2.2.2.symm.trans (o.blank_blank c hblank))
      · rcases hbang with rfl | rfl
        · exact hspecial.2.2.1 (List.mem_singleton.1 hbangc)
        · cases hbangc
    have hassoc : o.name ++ ':' :: (o.blank ++ (bang ++ o.after)) =
        o.name ++ ':' :: (o.blank ++ bang) ++ o.after := by simp
    rw [splitOptionList, block, splitOptionsFrom_joinOptions o.before_whole, hassoc,
      splitOptionsFrom_scan (scan_plain hplain false), List.nil_append]
  have hblank : ∀ bang, trim (o.name ++ ':' :: (o.blank ++ bang)) ≠ [] := by
    intro bang
    rw [trim_eq_strip, Blanks.strip_append_cons (by decide)]
    simp
  rcases endsOption false o.after with ⟨e, he⟩ | ⟨tail, more, rest, hafter, hrest, hok⟩
  · rw [hscan bang hbang, he _ (hblank bang)] at h
    exact absurd h (by simp [map_error])
  · refine ⟨tail, more, rest, hafter, hrest, fun bang hbang => ?_⟩
    rw [hscan bang hbang, hok _ (hblank bang), map_ok]
    simp

theorem parseOption_chunk (bang tail : Text) :
    parseOption (o.name ++ ':' :: (o.blank ++ (bang ++ tail))) =
      (unescape (splitBang (trim (bang ++ tail))).2).map fun value =>
        some ⟨o.key, some value, (splitBang (trim (bang ++ tail))).1⟩ := by
  have htrim : trim (o.blank ++ (bang ++ tail)) = trim (bang ++ tail) :=
    Blanks.strip_blank_append o.blank_blank _
  rw [parseOption_named o.name_plain, htrim]
  rfl

/-- The option as it is read, with what is left of its value behind the marks in front. -/
def raw (bang tail value : Text) : RawOption :=
  ⟨o.key, some value, (splitBang (trim (bang ++ tail))).1⟩

/-- Where the rule is accepted with the mark or without it, the two differ in this option only. -/
theorem parseRule_text {bang : Text} (hbang : bang = ['!'] ∨ bang = []) {rule : ParsedRule}
    (h : parseRule (o.text bang) = .ok rule) :
    ∃ tail rest front back header, o.after = tail ++ rest ∧ (∀ c ∈ rest.head?, c = ';') ∧
      parseOptions (joinOptions o.before) = .ok front ∧
      ∀ bang, bang = ['!'] ∨ bang = [] → parseRule (o.text bang) =
        unescape (splitBang (trim (bang ++ tail))).2 >>= fun value =>
          (front ++ o.raw bang tail value :: back).foldlM readOption {} >>= fun d =>
            d.finish header (trim (o.text bang)) := by
  rw [text, parseRule_block o.header_open o.rest_close] at h
  obtain ⟨header, hheader, h⟩ := bind_eq_ok.1 h
  obtain ⟨options, hoptions, _⟩ := bind_eq_ok.1 h
  have hsplit : ∃ pieces, splitOptionList (o.block bang) = .ok pieces := by
    obtain ⟨pieces, hpieces, _⟩ := bind_eq_ok.1 hoptions
    exact ⟨pieces, hpieces⟩
  obtain ⟨pieces, hpieces⟩ := hsplit
  obtain ⟨tail, more, rest, hafter, hrest, hblock⟩ := o.splitOptionList_block hbang hpieces
  rw [parseOptions_pieces (hblock bang hbang)] at hoptions
  obtain ⟨front, hfront, hoptions⟩ := bind_eq_ok.1 hoptions
  obtain ⟨option, _, hoptions⟩ := bind_eq_ok.1 hoptions
  obtain ⟨back, hback, _⟩ := bind_eq_ok.1 hoptions
  refine ⟨tail, rest, front.reduceOption, back.reduceOption, header, hafter, hrest, ?_,
    fun bang hbang => ?_⟩
  · have hbefore := splitOptionsFrom_joinOptions o.before_whole []
    rw [List.append_nil] at hbefore
    have hlist : splitOptionList (joinOptions o.before) = .ok o.before := by
      have hnil : splitOptionsFrom [] false [] = .ok [] := rfl
      rw [splitOptionList, hbefore, hnil, map_ok, List.append_nil]
    rw [parseOptions, hlist]
    show (o.before.mapM parseOption >>= fun parsed => pure parsed.reduceOption) = _
    rw [hfront]
    rfl
  · rw [text, parseRule_block o.header_open o.rest_close, hheader, ok_bind,
      parseOptions_pieces (hblock bang hbang), hfront, hback, o.parseOption_chunk]
    cases unescape (splitBang (trim (bang ++ tail))).2 with
    | error e => rfl
    | ok value => rfl

/-- Whether another `!` follows, told from what is left of the value. -/
theorem again_iff {tail rest : Text} (hafter : o.after = tail ++ rest)
    (hrest : ∀ c ∈ rest.head?, c = ';') :
    o.Again ↔ ∃ left, trim tail = '!' :: left := by
  have hhead : o.Again ↔ (tail.dropWhile isWhitespace).head? = some '!' := by
    rw [Again, hafter, List.dropWhile_append]
    split_ifs with hempty
    · rw [List.isEmpty_iff.1 hempty]
      have hnone : (rest.dropWhile isWhitespace).head? ≠ some '!' := by
        cases rest with
        | nil => simp
        | cons c rest =>
          obtain rfl := hrest c rfl
          rw [List.dropWhile_cons_of_neg (by decide)]
          simp
      exact ⟨fun h => absurd h hnone, fun h => absurd h (by simp)⟩
    · cases hdrop : tail.dropWhile isWhitespace with
      | nil => exact absurd hdrop (fun hnil => hempty (List.isEmpty_iff.2 hnil))
      | cons c left => rfl
  rw [hhead, trim_eq_strip, Blanks.strip]
  cases hdrop : tail.dropWhile isWhitespace with
  | nil => simp
  | cons c left =>
    have hc : isWhitespace c = false := by
      have hnot := List.head?_dropWhile_not isWhitespace tail
      rw [hdrop] at hnot
      simpa using hnot
    have hstay : (c :: left).rdropWhile isWhitespace = c :: left.rdropWhile isWhitespace :=
      Blanks.rdropWhile_append_cons hc [] left
    rw [hstay]
    simp

end NegatedOption

theorem Pair.rel_of_eq {P : RuleOption → RuleOption → Prop} {place : ℕ} {options : List RuleOption}
    (h : Pair P place options options) : ∃ o, P o o := by
  obtain ⟨front, back, o, o', hP, _, hoptions, hoptions'⟩ := h
  have hsame := (List.cons.inj (List.append_cancel_left (hoptions.symm.trans hoptions'))).1
  exact ⟨o, hsame ▸ hP⟩

theorem Pair.inter {P P' : RuleOption → RuleOption → Prop} {place : ℕ}
    {options options' : List RuleOption}
    (h : Pair P place options options') (h' : Pair P' place options options') :
    ∃ o o', P o o' ∧ P' o o' := by
  obtain ⟨front, back, o, o', hP, hplace, rfl, rfl⟩ := h
  obtain ⟨front', back', p, p', hP', hplace', hsame, hsame'⟩ := h'
  obtain ⟨_, hleft⟩ := List.append_inj hsame (hplace.trans hplace'.symm)
  obtain ⟨_, hright⟩ := List.append_inj hsame' (hplace.trans hplace'.symm)
  exact ⟨o, o', hP, by rw [(List.cons.inj hleft).1, (List.cons.inj hright).1]; exact hP'⟩

theorem finish_eq_ok {d : Draft} {header : RuleHeader} {raw : Text} {rule : ParsedRule}
    (h : d.finish header raw = .ok rule) :
    rule.options = d.options ∧
      ∀ options raw', ∃ rule', (d.withOptions options).finish header raw' = .ok rule' ∧
      rule'.options = options := by
  rw [Draft.finish] at h
  cases hsid : d.sid with
  | none =>
    rw [hsid] at h
    exact absurd h (by simp)
  | some sid =>
    cases hmsg : d.msg with
    | none =>
      rw [hsid, hmsg] at h
      exact absurd h (by simp)
    | some msg =>
      rw [hsid, hmsg] at h
      refine ⟨by rw [← Except.ok.inj h], fun options raw' => ?_⟩
      have hsid' : (d.withOptions options).sid = some sid := hsid
      have hmsg' : (d.withOptions options).msg = some msg := hmsg
      simp only [Draft.finish, hsid', hmsg']
      exact ⟨_, rfl, rfl⟩

theorem splitBang_trim_bang (tail : Text) :
    splitBang (trim (['!'] ++ tail)) = (true, trim tail) := by
  rw [List.singleton_append, trim_bang, splitBang, trim_eq_strip, Blanks.strip_rdropWhile]
  rfl

/-- What an accepted rule with the mark says of the rule without it: they are read alike up to this
option, and from there on as `Steady` relations say. -/
theorem NegatedOption.parseRule_written (o : NegatedOption) {rule : ParsedRule}
    (h : parseRule o.written = .ok rule) :
    ∃ tail value d e, (o.Again ↔ ∃ left, trim tail = '!' :: left) ∧
      unescape (trim tail) = .ok value ∧
      d.options.length = o.place ∧ readOption d ⟨o.key, some value, true⟩ = .ok e ∧
      (∀ value' x x', unescape (splitBang (trim tail)).2 = .ok value' →
        readOption d ⟨o.key, some value', (splitBang (trim tail)).1⟩ = .ok (d.push x') →
          e = d.push x →
          x.Negates x' → o.Kept rule) ∧
      (o.Kept rule → ∃ value' e', unescape (splitBang (trim tail)).2 = .ok value' ∧
        readOption d ⟨o.key, some value', (splitBang (trim tail)).1⟩ = .ok e' ∧
          ∀ Q, Steady Q → Q e.options e'.options → e.buffer = e'.buffer →
            ∃ options', Q rule.options options' ∧
              Pair RuleOption.Negates o.place rule.options options') := by
  obtain ⟨tail, rest, front, back, header, hafter, hrest, hfront, hrule⟩ :=
    o.parseRule_text (.inl rfl) h
  have hwithout := hrule [] (.inr rfl)
  rw [written, hrule ['!'] (.inl rfl), splitBang_trim_bang] at h
  obtain ⟨value, hvalue, h⟩ := bind_eq_ok.1 h
  obtain ⟨g, hg, hfinish⟩ := bind_eq_ok.1 h
  rw [List.foldlM_append, bind_eq_ok] at hg
  obtain ⟨d, hd, hg⟩ := hg
  rw [List.foldlM_cons, bind_eq_ok] at hg
  obtain ⟨e, he, hg⟩ := hg
  rw [NegatedOption.raw, splitBang_trim_bang] at he
  obtain ⟨hoptions, hagain⟩ := finish_eq_ok hfinish
  have hplace : d.options.length = o.place := by
    rw [place, hfront, ok_bind, hd]
  refine ⟨tail, value, d, e, o.again_iff hafter hrest, hvalue, hplace, he, ?_, ?_⟩
  · rintro value' x x' hvalue' hread' rfl hnegates
    have hpair : Pair RuleOption.Negates o.place (d.options ++ [x]) (d.options ++ [x']) :=
      ⟨d.options, [], x, x', hnegates, hplace, rfl, rfl⟩
    have hforward := (negates_stable.steady o.place).readOptions_forward hpair (d := d) hg
    obtain ⟨b, after, after', rfl, hback, hafter⟩ := hforward
    obtain ⟨rule', hrule', hoptions'⟩ := hagain after' (trim (o.text []))
    refine ⟨rule', ?_, ?_⟩
    · rw [without, hwithout, List.nil_append, hvalue', ok_bind, List.foldlM_append, hd, ok_bind,
        List.foldlM_cons, NegatedOption.raw, List.nil_append, hread', ok_bind]
      show ((back.foldlM readOption (d.withOptions (d.options ++ [x']))) >>= fun d =>
        d.finish header _) = _
      rw [hback, ok_bind]
      exact hrule'
    · rw [hoptions, hoptions']
      exact hafter
  · rintro ⟨rule', hrule', hpair⟩
    rw [without, hwithout, List.nil_append] at hrule'
    obtain ⟨value', hvalue', hrule'⟩ := bind_eq_ok.1 hrule'
    obtain ⟨g', hg', hfinish'⟩ := bind_eq_ok.1 hrule'
    rw [List.foldlM_append, hd, ok_bind, List.foldlM_cons, bind_eq_ok] at hg'
    obtain ⟨e', he', hg'⟩ := hg'
    rw [NegatedOption.raw, List.nil_append] at he'
    refine ⟨value', e', hvalue', he', fun Q hQ hrel hbuffer => ⟨rule'.options, ?_, hpair⟩⟩
    rw [hoptions, (finish_eq_ok hfinish').1]
    exact hQ.readOptions_both hrel hbuffer hg hg'

/-- Without a second `!` the value is the same with the mark and without it. -/
theorem splitBang_once {tail : Text} (h : ¬∃ left, trim tail = '!' :: left) :
    splitBang (trim tail) = (false, trim tail) := by
  apply splitBang_of_ne
  rintro c hc rfl
  cases htail : trim tail with
  | nil =>
    rw [htail] at hc
    cases hc
  | cons d left =>
    rw [htail] at hc
    exact h ⟨left, by rw [htail, Option.some.inj hc]⟩

/-- With a second `!` the option is negated either way, and its value has the `!` in front with the
mark. -/
theorem splitBang_twice {tail value : Text} (h : ∃ left, trim tail = '!' :: left)
    (hvalue : unescape (trim tail) = .ok value) :
    ∃ left rest, splitBang (trim tail) = (true, trim left) ∧ value = '!' :: rest ∧
      unescapeChars left = .ok rest := by
  obtain ⟨left, hleft⟩ := h
  rw [hleft, unescape] at hvalue
  · rw [unescapeChars_cons _ (by decide)] at hvalue
    obtain ⟨rest, hrest, rfl⟩ := map_eq_ok.1 hvalue
    exact ⟨left, rest, by rw [hleft]; rfl, rfl, hrest⟩
  · simp

/-- A `!` is kept exactly on contents, expressions and fields of host events that have one only. On
a size with two, the second is the one that counts. -/
theorem negation_kept_iff (o : NegatedOption) {rule : ParsedRule}
    (h : parseRule o.written = .ok rule) :
    o.Kept rule ↔ ∃ k, Keyword.read o.key = some k ∧
      (k.carriesNegation = true ∧ ¬o.Again ∨ k = .dsize ∧ o.Again) := by
  obtain ⟨tail, value, d, e, hagain, hvalue, hplace, he, hkept, hboth⟩ := o.parseRule_written h
  have hkey : ∃ k, Keyword.read o.key = some k := by
    cases hk : Keyword.read o.key with
    | none =>
      simp only [readOption, hk] at he
      exact absurd he (by simp)
    | some k => exact ⟨k, rfl⟩
  obtain ⟨k, hk⟩ := hkey
  have honce : ¬o.Again → splitBang (trim tail) = (false, trim tail) := fun hnot =>
    splitBang_once fun hleft => hnot (hagain.2 hleft)
  constructor
  · intro hrule
    refine ⟨k, hk, ?_⟩
    obtain ⟨value', e', hvalue', he', hrun⟩ := hboth hrule
    by_contra hnot
    rw [not_or, not_and_not_right] at hnot
    -- the same options with and without the mark
    have hsame : e.options = e'.options → e.buffer = e'.buffer → False := by
      intro hoptions hbuffer
      obtain ⟨options', rfl, hpair⟩ := hrun Eq Steady.eq hoptions hbuffer
      obtain ⟨x, hx⟩ := hpair.rel_of_eq
      exact x.not_negates_self hx
    by_cases hcarries : k.carriesNegation = true
    · obtain ⟨left, rest, hsplit, -⟩ := splitBang_twice (hagain.1 (hnot.1 hcarries)) hvalue
      rw [hsplit] at he'
      obtain ⟨build, hbuild, hreads⟩ := readOption_carries hk hcarries he
      obtain ⟨build', hbuild', hreads'⟩ := readOption_carries hk hcarries he'
      have hpushed : e = d.push (build true) := Except.ok.inj (he.symm.trans (hreads true))
      have hpushed' : e' = d.push (build' true) := Except.ok.inj (he'.symm.trans (hreads' true))
      subst hpushed hpushed'
      have hboth : Pair BothNegated o.place (d.push (build true)).options
          (d.push (build' true)).options :=
        ⟨d.options, [], _, _, hbuild.bothNegated hbuild', hplace, rfl, rfl⟩
      obtain ⟨options', hboth', hpair⟩ := hrun _ (bothNegated_stable.steady o.place) hboth rfl
      obtain ⟨x, x', hx, hx'⟩ := hboth'.inter hpair
      exact hx.not_negates hx'
    · rw [Bool.not_eq_true] at hcarries
      by_cases hyes : o.Again
      · obtain ⟨left, rest, hsplit, rfl, hrest⟩ := splitBang_twice (hagain.1 hyes) hvalue
        have hsize : k ≠ .dsize := fun hsize => hnot.2 ⟨hsize, hyes⟩
        obtain ⟨hoptions, hbuffer⟩ := readOption_bang hk hcarries hsize he he'
        exact hsame hoptions hbuffer
      · rw [honce hyes] at hvalue' he'
        rw [hvalue, Except.ok.injEq] at hvalue'
        rw [← hvalue', ← readOption_negated_irrelevant hk hcarries, he, Except.ok.injEq] at he'
        exact hsame (by rw [he']) (by rw [he'])
  · rintro ⟨k', hk', hcase⟩
    obtain rfl := Option.some.inj (hk.symm.trans hk')
    rcases hcase with ⟨hcarries, hnot⟩ | ⟨rfl, hyes⟩
    · obtain ⟨build, hbuild, hreads⟩ := readOption_carries hk hcarries he
      have hsame := honce hnot
      refine hkept value (build true) (build false) ?_ ?_ ?_ hbuild.negates
      · rw [hsame]
        exact hvalue
      · rw [hsame]
        exact hreads false
      · rw [hreads true] at he
        exact (Except.ok.inj he).symm
    · obtain ⟨left, rest, hsplit, rfl, hrest⟩ := splitBang_twice (hagain.1 hyes) hvalue
      obtain ⟨size, hsize, rfl⟩ := (readOption_size hk).1 he
      obtain ⟨hplain, size', hsize', hopposite⟩ := parseDsize_bang hsize
      obtain rfl := eq_of_unescapeChars hrest hplain
      have htrimmed {c : Char} (hmem : c ∈ trim left) :=
        hplain c ((Blanks.strip_infix left).subset hmem)
      have hslash : '\\' ∉ trim left := fun hmem => htrimmed hmem (by decide)
      have hquote : (trim left).head? ≠ some '"' :=
        fun hhead => htrimmed (List.mem_of_mem_head? hhead) (by decide)
      refine hkept (trim left) (.dsize size) (.dsize size') ?_ ?_ rfl hopposite
      · rw [hsplit, unescape_of_ne_quote hquote]
        exact unescapeChars_plain hslash
      · rw [hsplit]
        exact (readOption_size hk).2 ⟨size', hsize', rfl⟩

/-- `content:!"evil"`, behind a message. -/
def absentContent : NegatedOption where
  header := "alert tcp any any -> any any ".toList
  before := ["msg:\"m\"".toList]
  name := " content".toList
  blank := []
  after := "\"evil\"; sid:1;".toList
  rest := []
  header_open := by decide +kernel
  before_whole := by decide +kernel
  name_plain := List.all_iff_forall_prop.1 (by decide +kernel)
  blank_blank := List.all_eq_true.1 rfl
  rest_close := by decide +kernel

def absentContentRule : ParsedRule :=
  { header := { action := .alert, protocol := .tcp }
    sid := 1
    msg := "m"
    options := [.content { pattern := [0x65, 0x76, 0x69, 0x6c], negated := true }]
    gid := none
    references := []
    raw := absentContent.written }

theorem parseRule_absentContent : parseRule absentContent.written = .ok absentContentRule := by
  decide +kernel

theorem negation_kept_iff_absentContent : absentContent.Kept absentContentRule ↔
    ∃ k, Keyword.read absentContent.key = some k ∧
      (k.carriesNegation = true ∧ ¬absentContent.Again ∨ k = .dsize ∧ absentContent.Again) :=
  negation_kept_iff absentContent parseRule_absentContent

/-- `dsize:!=5`. -/
def unequalSize : NegatedOption :=
  { absentContent with
    name := " dsize".toList
    after := "=5; sid:1;".toList
    name_plain := List.all_iff_forall_prop.1 (by decide +kernel) }

def sizeRule (raw : Text) : ParsedRule :=
  { absentContentRule with options := [.dsize { op := .equal, value := 5 }], raw }

/-- Every payload but those of five bytes is asked for, and those of five bytes match. -/
theorem unequal_size_inverted :
    parseRule unequalSize.written = .ok (sizeRule unequalSize.written) ∧
      parseRule unequalSize.without = .ok (sizeRule unequalSize.without) ∧
        ¬unequalSize.Kept (sizeRule unequalSize.written) := by
  have hwithout : parseRule unequalSize.without = .ok (sizeRule unequalSize.without) := by
    decide +kernel
  refine ⟨by decide +kernel, hwithout, ?_⟩
  rintro ⟨rule', hrule', hpair⟩
  obtain rfl := Except.ok.inj (hwithout.symm.trans hrule')
  obtain ⟨o, ho⟩ := Pair.rel_of_eq hpair
  exact o.not_negates_self ho

end CyberSentinel.Rules
