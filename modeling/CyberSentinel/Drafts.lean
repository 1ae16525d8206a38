import CyberSentinel.RuleParser

/-!
# What an option does to a draft

An option that is no modifier adds to the match options and does not look at them, and what it sets
of the rest of the draft does not depend on them either.
-/

namespace CyberSentinel.Rules

open Texts
open Evtx (trim parseU32)

section Results

variable {ε α β γ : Type}

theorem bind_eq_ok {x : Except ε α} {f : α → Except ε β} {b : β} :
    x >>= f = .ok b ↔ ∃ a, x = .ok a ∧ f a = .ok b := by
  cases x <;> simp [Bind.bind, Except.bind]

theorem map_eq_ok {x : Except ε α} {f : α → β} {b : β} :
    x.map f = .ok b ↔ ∃ a, x = .ok a ∧ f a = b := by
  cases x <;> simp [Except.map]

theorem map_bind (x : Except ε α) (f : α → Except ε β) (g : β → γ) :
    (x >>= f).map g = x >>= fun a => (f a).map g := by
  cases x <;> rfl

theorem map_ok (b : β) (g : β → γ) : (Except.ok b : Except ε β).map g = .ok (g b) := rfl

theorem map_pure (b : β) (g : β → γ) : (pure b : Except ε β).map g = pure (g b) := rfl

theorem map_error (e : ε) (g : β → γ) : (Except.error e : Except ε β).map g = .error e := rfl

theorem ok_bind (a : α) (f : α → Except ε β) : (Except.ok a : Except ε α) >>= f = f a := rfl

theorem error_bind (e : ε) (f : α → Except ε β) :
    (Except.error e : Except ε α) >>= f = .error e := rfl

def Refused (x : Except ε α) : Prop := ∃ e, x = .error e

@[simp] theorem refused_error (e : ε) : Refused (.error e : Except ε α) := ⟨e, rfl⟩

@[simp] theorem not_refused_ok (a : α) : ¬Refused (.ok a : Except ε α) := by
  rintro ⟨e, he⟩
  cases he

@[simp] theorem refused_map {x : Except ε α} {f : α → β} : Refused (x.map f) ↔ Refused x := by
  cases x <;> simp [Except.map]

theorem refused_mapError {ε' : Type} {x : Except ε α} (f : ε → ε') (h : Refused x) :
    Refused (x.mapError f) := by
  obtain ⟨e, rfl⟩ := h
  exact refused_error _

theorem refused_bind {x : Except ε α} (h : Refused x) (f : α → Except ε β) : Refused (x >>= f) := by
  obtain ⟨e, rfl⟩ := h
  exact refused_error _

end Results

def Draft.withOptions (d : Draft) (options : List RuleOption) : Draft := { d with options }

@[simp] theorem Draft.options_withOptions (d : Draft) (options : List RuleOption) :
    (d.withOptions options).options = options := rfl

theorem readOption_frame {o : RawOption}
    (hk : ∀ m, Keyword.read o.name ≠ some (.modifier m)) (d : Draft)
    (options : List RuleOption) :
    readOption (d.withOptions options) o =
      (readOption (d.withOptions []) o).map fun d' => d'.withOptions (options ++ d'.options) := by
  obtain ⟨name, value, negated⟩ := o
  cases h : Keyword.read name with
  | none => simp only [readOption, h, map_error]
  | some k =>
    cases k with
    | modifier m => exact absurd h (hk m)
    | normalized =>
      simp only [readOption, h, map_bind]
      congr 1
      funext text
      cases NormalizationCondition.parse text <;>
        simp only [map_pure, map_error, Draft.push, Draft.withOptions, List.nil_append]
    | unimplemented =>
      simp only [readOption, h, map_ok, Draft.withOptions, List.append_nil]
      rfl
    | _ =>
      simp only [readOption, h, map_bind, map_pure, map_ok, map_error, error_bind,
        apply_ite (Except.map _),
        Draft.push, Draft.withOptions, List.append_nil, List.nil_append]

theorem applyContentModifier_concat (options : List RuleOption) (c : ContentMatch) (m : Modifier)
    (name : Text)
    (value : Option Text) :
    applyContentModifier (options ++ [.content c]) m name value =
      (m.apply name value c).map fun c => options ++ [.content c] := by
  rw [applyContentModifier, List.getLast?_concat, List.dropLast_concat]

theorem applyContentModifier_eq_ok {options changed : List RuleOption} {m : Modifier} {name : Text}
    {value : Option Text} (h : applyContentModifier options m name value = .ok changed) :
    ∃ init c e, options = init ++ [.content c] ∧ m.apply name value c = .ok e ∧
      changed = init ++ [.content e] := by
  rw [applyContentModifier] at h
  split at h
  · rename_i c hlast
    obtain ⟨e, he, rfl⟩ := map_eq_ok.1 h
    obtain ⟨init, rfl⟩ := List.getLast?_eq_some_iff.1 hlast
    exact ⟨init, c, e, rfl, he, by rw [List.dropLast_concat]⟩
  · exact absurd h (by simp)

theorem readOption_modifier {o : RawOption} {m : Modifier}
    (hk : Keyword.read o.name = some (.modifier m))
    (d : Draft) :
    readOption d o = (applyContentModifier d.options m o.name o.value).map d.withOptions := by
  obtain ⟨name, value, negated⟩ := o
  simp only [readOption, hk]
  cases applyContentModifier d.options m name value <;> rfl

def Draft.fresh (d : Draft) : Draft := { buffer := d.buffer }

/-- What an option adds to the match options, and the buffer behind it, depend on the buffer before
it. -/
theorem readOption_fresh {o : RawOption} (hk : ∀ m, Keyword.read o.name ≠ some (.modifier m))
    (d : Draft) :
    Refused (readOption d o) ∨
      (readOption d o).map (fun e => (e.options, e.buffer)) =
        (readOption d.fresh o).map fun e => (d.options ++ e.options, e.buffer) := by
  obtain ⟨name, value, negated⟩ := o
  have hduplicate {α : Type} (slot : Option α) : slot = none ∨
      rejectDuplicate slot name = .error (.duplicateOption name) := by
    cases slot with
    | none => exact .inl rfl
    | some a => exact .inr rfl
  cases h : Keyword.read name with
  | none =>
    simp only [readOption, h]
    exact .inl (refused_error _)
  | some k =>
    cases k with
    | modifier m => exact absurd h (hk m)
    | normalized =>
      refine .inr ?_
      simp only [readOption, h, map_bind]
      congr 1
      funext text
      cases NormalizationCondition.parse text <;> rfl
    | sid =>
      rcases hduplicate d.sid with hslot | hslot <;>
        simp only [readOption, h, hslot, map_bind, map_pure, map_error, error_bind, Draft.fresh,
          List.append_nil, refused_error, true_or, or_true]
    | rev =>
      rcases hduplicate d.rev with hslot | hslot <;>
        simp only [readOption, h, hslot, map_bind, map_pure, map_error, error_bind, Draft.fresh,
          List.append_nil, refused_error, true_or, or_true]
    | gid =>
      rcases hduplicate d.gid with hslot | hslot <;>
        simp only [readOption, h, hslot, map_bind, map_pure, map_error, error_bind, Draft.fresh,
          List.append_nil, refused_error, true_or, or_true]
    | priority =>
      rcases hduplicate d.priority with hslot | hslot <;>
        simp only [readOption, h, hslot, map_bind, map_pure, map_error, error_bind,
          apply_ite (Except.map _),
          Draft.fresh, List.append_nil, refused_error, true_or, or_true]
    | msg =>
      rcases hduplicate d.msg with hslot | hslot <;>
        simp only [readOption, h, hslot, map_bind, map_pure, map_error, error_bind,
          apply_ite (Except.map _),
          Draft.fresh, List.append_nil, refused_error, true_or, or_true]
    | classtype =>
      rcases hduplicate d.classtype with hslot | hslot <;>
        simp only [readOption, h, hslot, map_bind, map_pure, map_error, error_bind, Draft.fresh,
          List.append_nil, refused_error, true_or, or_true]
    | threshold =>
      rcases hduplicate d.threshold with hslot | hslot <;>
        simp only [readOption, h, hslot, map_bind, map_pure, map_error, error_bind, Draft.fresh,
          List.append_nil, refused_error, true_or, or_true]
    | _ =>
      refine .inr ?_
      simp only [readOption, h, map_bind, map_pure, map_ok, map_error, error_bind,
        apply_ite (Except.map _),
        Draft.push, Draft.fresh, List.append_nil, List.nil_append]

theorem readOption_added {o : RawOption} (hk : ∀ m, Keyword.read o.name ≠ some (.modifier m))
    {d e : Draft}
    (h : readOption d o = .ok e) : ∃ added, readOption d.fresh o = .ok added ∧
      e.options = d.options ++ added.options ∧ e.buffer = added.buffer := by
  rcases readOption_fresh hk d with hrefused | hmap
  · rw [h] at hrefused
    exact absurd hrefused (not_refused_ok e)
  · rw [h, map_ok] at hmap
    obtain ⟨added, hadded, hsame⟩ := map_eq_ok.1 hmap.symm
    obtain ⟨hoptions, hbuffer⟩ := Prod.mk.inj hsame
    exact ⟨added, hadded, hoptions.symm, hbuffer.symm⟩

theorem readOptions_refused {options : List RawOption} {o : RawOption} (ho : o ∈ options)
    (h : ∀ d, Refused (readOption d o)) (d : Draft) : Refused (options.foldlM readOption d) := by
  induction options generalizing d with
  | nil => cases ho
  | cons first options ih =>
    rw [List.foldlM_cons]
    rcases List.mem_cons.1 ho with rfl | ho
    · obtain ⟨e, he⟩ := h d
      rw [he]
      exact refused_error e
    · cases hfirst : readOption d first with
      | error e => exact refused_error e
      | ok next => exact ih ho next

def Draft.withMsg (d : Draft) (msg : Option String) : Draft := { d with msg }

theorem readOption_withMsg {o : RawOption} (hk : Keyword.read o.name ≠ some .msg) (d : Draft) :
    readOption d o = (readOption d o).map (·.withMsg d.msg) := by
  obtain ⟨name, value, negated⟩ := o
  cases h : Keyword.read name with
  | none => simp only [readOption, h, map_error]
  | some k =>
    cases k with
    | msg => exact absurd h hk
    | normalized =>
      simp only [readOption, h, map_bind]
      congr 1
      funext text
      cases NormalizationCondition.parse text <;>
        simp only [map_pure, map_error, Draft.push, Draft.withMsg]
    | _ =>
      simp only [readOption, h, map_bind, map_pure, map_ok, map_error, error_bind,
        apply_ite (Except.map _),
        Draft.push, Draft.withMsg]

/-- No option but `msg` changes the message. -/
theorem readOption_msg_of_ne {o : RawOption} {d d' : Draft} (hk : Keyword.read o.name ≠ some .msg)
    (h : readOption d o = .ok d') : d'.msg = d.msg := by
  have hmap := readOption_withMsg hk d
  rw [h, map_ok, Except.ok.injEq] at hmap
  exact (congrArg Draft.msg hmap).trans rfl

theorem readOption_msg {o : RawOption} {d d' : Draft} (hk : Keyword.read o.name = some .msg)
    (h : readOption d o = .ok d') :
    d.msg = none ∧ ∃ value, o.value = some value ∧ d'.msg = some (String.ofList value) := by
  obtain ⟨name, value, negated⟩ := o
  simp only [readOption, hk, bind_eq_ok] at h
  obtain ⟨_, hduplicate, text, hvalue, h⟩ := h
  split_ifs at h with hempty
  · exact absurd h (by simp)
  · refine ⟨?_, text, ?_, ?_⟩
    · rw [rejectDuplicate] at hduplicate
      split_ifs at hduplicate with hsome
      exact Option.not_isSome_iff_eq_none.1 hsome
    · cases value with
      | none => exact absurd hvalue (by simp [requireValue])
      | some other => exact congrArg some (Except.ok.inj hvalue)
    · rw [← Except.ok.inj h]

theorem readOption_msg_ok {d : Draft} (hmsg : d.msg = none) {value : Text}
    (hblank : trim value ≠ [])
    (negated : Bool) :
    readOption d ⟨"msg".toList, some value, negated⟩ =
      .ok (d.withMsg (some (String.ofList value))) := by
  have hk : Keyword.read "msg".toList = some .msg := rfl
  simp only [readOption, hk, hmsg, rejectDuplicate, requireValue, ok_bind, Option.isSome_none,
    Bool.false_eq_true, if_false, if_neg hblank]
  rfl

theorem readOptions_msg_of_isSome {options : List RawOption} {d d' : Draft} {msg : String}
    (hmsg : d.msg = some msg) (h : options.foldlM readOption d = .ok d') : d'.msg = some msg := by
  induction options generalizing d with
  | nil => exact Except.ok.inj h ▸ hmsg
  | cons o options ih =>
    rw [List.foldlM_cons, bind_eq_ok] at h
    obtain ⟨next, hnext, hrest⟩ := h
    refine ih ?_ hrest
    by_cases hk : Keyword.read o.name = some .msg
    · exact absurd ((readOption_msg hk hnext).1.symm.trans hmsg) (by simp)
    · rw [readOption_msg_of_ne hk hnext, hmsg]

/-- The message of the draft is the one of the option `msg`. -/
theorem readOptions_msg {options : List RawOption} {d d' : Draft}
    (h : options.foldlM readOption d = .ok d')
    {o : RawOption} (ho : o ∈ options) (hk : Keyword.read o.name = some .msg) :
    ∃ value, o.value = some value ∧ d'.msg = some (String.ofList value) := by
  induction options generalizing d with
  | nil => cases ho
  | cons first options ih =>
    rw [List.foldlM_cons, bind_eq_ok] at h
    obtain ⟨next, hnext, hrest⟩ := h
    rcases List.mem_cons.1 ho with rfl | ho
    · obtain ⟨_, value, hvalue, hmsg⟩ := readOption_msg hk hnext
      exact ⟨value, hvalue, readOptions_msg_of_isSome hmsg hrest⟩
    · exact ih hrest ho

theorem Draft.finish_kept {d : Draft} {header : RuleHeader} {raw : Text} {rule : ParsedRule}
    (h : d.finish header raw = .ok rule) : rule.header = header ∧ rule.options = d.options := by
  rw [finish] at h
  cases hsid : d.sid with
  | none =>
    rw [hsid] at h
    exact nomatch h
  | some sid =>
    cases hmsg : d.msg with
    | none =>
      rw [hsid, hmsg] at h
      exact nomatch h
    | some msg =>
      rw [hsid, hmsg] at h
      rw [← Except.ok.inj h]
      exact ⟨rfl, rfl⟩

theorem readOption_noAlert {o : RawOption} {d e : Draft} (h : readOption d o = .ok e)
    (hd : .flowBits .noAlert ∉ d.options) : .flowBits .noAlert ∉ e.options := by
  obtain ⟨name, value, negated⟩ := o
  cases hk : Keyword.read name with
  | none =>
    simp only [readOption, hk] at h
    exact nomatch h
  | some k =>
    cases k with
    | modifier m =>
      rw [readOption_modifier hk] at h
      obtain ⟨options, hoptions, rfl⟩ := map_eq_ok.1 h
      obtain ⟨init, c, changed, hinit, _, rfl⟩ := applyContentModifier_eq_ok hoptions
      rw [hinit] at hd
      simpa using hd
    | normalized =>
      simp only [readOption, hk, bind_eq_ok] at h
      obtain ⟨text, _, h⟩ := h
      split at h
      · rw [← Except.ok.inj h]
        simpa [Draft.push] using hd
      · exact nomatch h
    | flowBits =>
      simp only [readOption, hk, bind_eq_ok] at h
      obtain ⟨op, _, _, _, h⟩ := h
      split_ifs at h with hop
      · rw [← Except.ok.inj h]
        exact hd
      · rw [← Except.ok.inj h]
        simpa [Draft.push, Ne.symm hop] using hd
    | _ =>
      simp only [readOption, hk, bind_eq_ok, error_bind, pure, Except.pure] at h
      grind [Draft.push]

theorem readOptions_noAlert {options : List RawOption} {d e : Draft}
    (h : options.foldlM readOption d = .ok e) (hd : .flowBits .noAlert ∉ d.options) :
    .flowBits .noAlert ∉ e.options := by
  induction options generalizing d with
  | nil => exact Except.ok.inj h ▸ hd
  | cons o options ih =>
    rw [List.foldlM_cons, bind_eq_ok] at h
    obtain ⟨next, hnext, hrest⟩ := h
    exact ih hrest (readOption_noAlert hnext hd)

/-- The parser makes a mark of `noalert`, and no condition. -/
theorem parseRule_noAlert {text : Text} {rule : ParsedRule} (h : parseRule text = .ok rule) :
    .flowBits .noAlert ∉ rule.options := by
  rw [parseRule] at h
  split_ifs at h
  obtain ⟨parts, _, h⟩ := bind_eq_ok.1 h
  obtain ⟨header, _, h⟩ := bind_eq_ok.1 h
  obtain ⟨options, _, h⟩ := bind_eq_ok.1 h
  obtain ⟨d, hd, hfinish⟩ := bind_eq_ok.1 h
  rw [(d.finish_kept hfinish).2]
  exact readOptions_noAlert hd List.not_mem_nil

end CyberSentinel.Rules
