import CyberSentinel.Detection

/-!
# Rules side by side

Two engines, one with some of the other's rules. Rules share the flow states, the threshold table,
the overlap of the longest pattern and the HTTP pass; as long as the shared parameters are the same
and no bound is met, each rule sees the bits it names, its own counters and the same regions, so
that the rules common to both raise the same alerts.
-/

namespace CyberSentinel.Detect

open Rules Tables

variable {R : Regex} {A : AhoCorasick}

/-! ### One bit -/

def isOn (name : String) (op : FlowBitsOp) : Bool := flowbitName op == some name

def nextBit (name : String) (value : Bool) : FlowBitsOp → Bool
  | .set n => value || n == name
  | .unset n => value && n != name
  | .toggle n => if n = name then !value else value
  | .isSet _ | .isNotSet _ | .noAlert => value

theorem apply_isSet (b : FlowBits) (op : FlowBitsOp) {limit : ℕ} (h : b.refuses op limit = false)
    (name : String) : (b.apply op limit).isSet name = nextBit name (b.isSet name) op := by
  cases op with
  | set n =>
    have hroom : b.bits.card < limit ∨ n ∈ b.bits := by
      by_contra hfull
      rw [not_or, not_lt] at hfull
      simp [FlowBits.refuses, FlowBits.isSet, hfull.1, hfull.2] at h
    by_cases hname : n = name
    · subst hname
      simp [FlowBits.apply, FlowBits.isSet, nextBit, hroom]
    · simp [FlowBits.apply, FlowBits.isSet, nextBit, hroom, hname, Ne.symm hname]
  | unset n =>
    by_cases hname : n = name
    · simp [FlowBits.apply, FlowBits.isSet, nextBit, hname]
    · simp [FlowBits.apply, FlowBits.isSet, nextBit, hname, Ne.symm hname]
  | toggle n =>
    by_cases hmem : n ∈ b.bits
    · by_cases hname : n = name
      · subst hname
        simp [FlowBits.apply, FlowBits.isSet, nextBit, hmem]
      · simp [FlowBits.apply, FlowBits.isSet, nextBit, hmem, hname, Ne.symm hname]
    · have hroom : b.bits.card < limit := by
        by_contra hfull
        simp [FlowBits.refuses, FlowBits.isSet, hmem, not_lt.1 hfull] at h
      by_cases hname : n = name
      · subst hname
        simp [FlowBits.apply, FlowBits.isSet, nextBit, hmem, hroom]
      · simp [FlowBits.apply, FlowBits.isSet, nextBit, hmem, hroom, hname, Ne.symm hname]
  | _ => rfl

theorem nextBit_of_not_isOn {name : String} {op : FlowBitsOp} (h : isOn name op = false)
    (value : Bool) : nextBit name value op = value := by
  cases op with
  | set n | unset n | toggle n =>
    have hname : n ≠ name := by simpa [isOn, flowbitName] using h
    simp [nextBit, hname]
  | _ => rfl

theorem applyAll_isSet {limit : ℕ} {b : FlowBits} {ops : List FlowBitsOp}
    (h : (b.applyAll limit ops).2 = false) (name : String) :
    (b.applyAll limit ops).1.isSet name =
      (ops.filter (isOn name)).foldl (nextBit name) (b.isSet name) := by
  induction ops generalizing b with
  | nil => rfl
  | cons op rest ih =>
    simp only [FlowBits.applyAll, Bool.or_eq_false_iff] at h ⊢
    rw [ih h.2, apply_isSet b op h.1]
    cases hop : isOn name op with
    | true => rw [List.filter_cons_of_pos hop, List.foldl_cons]
    | false =>
      rw [List.filter_cons_of_neg (by simp [hop]), nextBit_of_not_isOn hop]

theorem sideEffects_subset {rule : CompiledRule R} {input : MatchInput} {bits : FlowBits}
    {outcome : MatchOutcome} (h : evaluate rule input bits = some outcome) {op : FlowBitsOp}
    (hop : op ∈ outcome.sideEffects) : CompiledOption.flowBits op ∈ rule.options := by
  have hfold (options : List (CompiledOption R)) (p q : Progress)
      (hq : options.foldlM (evalOption input bits) p = some q) (hmem : op ∈ q.sideEffects) :
      op ∈ p.sideEffects ∨ CompiledOption.flowBits op ∈ options := by
    induction options generalizing p with
    | nil =>
      rw [← Option.some.inj hq] at hmem
      exact Or.inl hmem
    | cons option rest ih =>
      rw [List.foldlM_cons] at hq
      obtain ⟨next, hnext, hrest⟩ := Option.bind_eq_some_iff.1 hq
      rcases ih next hrest with hbefore | hlater
      · have hstep : op ∈ p.sideEffects ∨ option = .flowBits op := by
          cases option with
          | flowBits other =>
            cases other with
            | isSet name | isNotSet name =>
              simp only [evalOption] at hnext
              split_ifs at hnext
              rw [← Option.some.inj hnext] at hbefore
              exact Or.inl hbefore
            | _ =>
              rw [← Option.some.inj hnext] at hbefore
              rcases List.mem_append.1 hbefore with hold | hnew
              · exact Or.inl hold
              · exact Or.inr (by rw [List.mem_singleton.1 hnew])
          | flow f | normalized f =>
            simp only [evalOption] at hnext
            split_ifs at hnext
            rw [← Option.some.inj hnext] at hbefore
            exact Or.inl hbefore
          | content c | pcre m b n r | byteJump c =>
            obtain ⟨haystack, _, hcursor⟩ := Option.bind_eq_some_iff.1 hnext
            obtain ⟨cursor, _, hmoved⟩ := Option.map_eq_some_iff.1 hcursor
            rw [← hmoved] at hbefore
            exact Or.inl hbefore
          | byteTest t | dsize t =>
            obtain ⟨haystack, _, htest⟩ := Option.bind_eq_some_iff.1 hnext
            split_ifs at htest
            rw [← Option.some.inj htest] at hbefore
            exact Or.inl hbefore
        rcases hstep with hold | hhere
        · exact Or.inl hold
        · exact Or.inr (by rw [hhere]; exact List.mem_cons_self)
      · exact Or.inr (List.mem_cons_of_mem _ hlater)
  unfold evaluate at h
  split_ifs at h
  obtain ⟨p, hp, hout⟩ := Option.map_eq_some_iff.1 h
  rw [← hout] at hop
  exact (hfold rule.options {} p hp hop).resolve_left (by simp)

/-! ### Thresholds and verdicts -/

section Verdicts

variable (keep : UInt32 → Bool) (names : Set String)

def CountersAgree (thresholds thresholds' : Thresholds) : Prop :=
  ∀ sid key, keep sid = true → thresholds.lookup (sid, key) = thresholds'.lookup (sid, key)

/-- The two loops have come to the same for the kept rules and the bits they name. -/
structure Tally.Agree (t t' : Tally) : Prop where
  thresholds : CountersAgree keep t.thresholds t'.thresholds
  pending : ∀ name ∈ names, t.pending.filter (isOn name) = t'.pending.filter (isOn name)
  alerts : t.alerts.filter (fun alert => keep alert.sid) = t'.alerts

variable {keep names}

theorem CountersAgree.insert {thresholds thresholds' : Thresholds}
    (h : CountersAgree keep thresholds thresholds') (key : UInt32 × String)
    (entry : ThresholdEntry) :
    CountersAgree keep (thresholds.insert key entry) (thresholds'.insert key entry) := by
  intro sid other hsid
  by_cases hkey : (sid, other) = key
  · rw [hkey, AList.lookup_insert, AList.lookup_insert]
  · rw [AList.lookup_insert_ne hkey, AList.lookup_insert_ne hkey]
    exact h sid other hsid

theorem CountersAgree.insert_other {thresholds thresholds' : Thresholds}
    (h : CountersAgree keep thresholds thresholds') {sid : UInt32} (hsid : keep sid = false)
    (key : String) (entry : ThresholdEntry) :
    CountersAgree keep (thresholds.insert (sid, key) entry) thresholds' := by
  intro sid' other hsid'
  have hkey : (sid', other) ≠ (sid, key) := by
    intro heq
    rw [(Prod.mk.inj heq).1, hsid] at hsid'
    exact absurd hsid' (by simp)
  rw [AList.lookup_insert_ne hkey]
  exact h sid' other hsid'

/-- An event of a kept rule is counted alike, unless one of the tables is full. -/
theorem thresholdAllows_agree {thresholds thresholds' : Thresholds}
    (h : CountersAgree keep thresholds thresholds') (maxEntries : ℕ) {sid : UInt32}
    (hsid : keep sid = true) (threshold : Option Threshold) (tuple : NetTuple) (now : Instant) :
    let counted := thresholdAllows maxEntries thresholds sid threshold tuple now
    let counted' := thresholdAllows maxEntries thresholds' sid threshold tuple now
    counted.uncounted = true ∨ counted'.uncounted = true ∨
      (CountersAgree keep counted.thresholds counted'.thresholds ∧
        counted.allowed = counted'.allowed) := by
  cases threshold with
  | none => exact Or.inr (Or.inr ⟨h, rfl⟩)
  | some threshold =>
    have hlookup := h sid (Track.key threshold.track tuple) hsid
    simp only [thresholdAllows, countAgainstThreshold, ← hlookup]
    cases thresholds.lookup (sid, Track.key threshold.track tuple) with
    | none =>
      by_cases hfull : maxEntries ≤ size thresholds
      · simp [hfull]
      · by_cases hfull' : maxEntries ≤ size thresholds'
        · simp [hfull']
        · simp only [if_neg hfull, if_neg hfull']
          exact Or.inr (Or.inr ⟨h.insert _ _, trivial⟩)
    | some entry => exact Or.inr (Or.inr ⟨h.insert _ _, rfl⟩)

theorem thresholdAllows_other {thresholds thresholds' : Thresholds}
    (h : CountersAgree keep thresholds thresholds') (maxEntries : ℕ) {sid : UInt32}
    (hsid : keep sid = false) (threshold : Option Threshold) (tuple : NetTuple) (now : Instant) :
    CountersAgree keep (thresholdAllows maxEntries thresholds sid threshold tuple now).thresholds
      thresholds' := by
  cases threshold with
  | none => exact h
  | some threshold =>
    simp only [thresholdAllows, countAgainstThreshold]
    cases thresholds.lookup (sid, Track.key threshold.track tuple) with
    | none =>
      by_cases hfull : maxEntries ≤ size thresholds
      · simp only [if_pos hfull]
        exact h
      · simp only [if_neg hfull]
        exact h.insert_other hsid _ _
    | some entry => exact h.insert_other hsid _ _

theorem hit_uncounted {t : Tally} (h : t.uncounted = true) (limits : EngineLimits)
    (tuple : NetTuple)
    (now : Instant) (rule : CompiledRule R) (outcome : MatchOutcome) :
    (t.hit limits tuple now rule outcome).uncounted = true := by
  simp only [Tally.hit]
  split_ifs <;> simp [h]

theorem judge_uncounted {t : Tally} (h : t.uncounted = true) (limits : EngineLimits)
    (input : MatchInput) (now : Instant) (bits : FlowBits) (rule : CompiledRule R) :
    (t.judge limits input now bits rule).uncounted = true := by
  unfold Tally.judge
  split
  · exact h
  · exact hit_uncounted h limits input.tuple now rule _

def Tally.AgreeOrFull (keep : UInt32 → Bool) (names : Set String) (t t' : Tally) : Prop :=
  t.uncounted = true ∨ t'.uncounted = true ∨ Tally.Agree keep names t t'

theorem Tally.Agree.hit {t t' : Tally} (h : Tally.Agree keep names t t') (limits : EngineLimits)
    (tuple : NetTuple) (now : Instant) {rule : CompiledRule R} (hrule : keep rule.sid = true)
    (outcome : MatchOutcome) :
    Tally.AgreeOrFull keep names (t.hit limits tuple now rule outcome)
      (t'.hit limits tuple now rule outcome) := by
  have hpending (name : String) (hname : name ∈ names) :
      (t.pending ++ outcome.sideEffects).filter (isOn name) =
        (t'.pending ++ outcome.sideEffects).filter (isOn name) := by
    rw [List.filter_append, List.filter_append, h.pending name hname]
  have halerts : (t.alerts ++ [rule.record]).filter (fun alert => keep alert.sid) =
      t'.alerts ++ [rule.record] := by
    rw [List.filter_append, h.alerts]
    simp [CompiledRule.record, hrule]
  simp only [Tally.hit]
  cases hsilent : rule.noAlert with
  | true => exact Or.inr (Or.inr ⟨h.thresholds, hpending, h.alerts⟩)
  | false =>
    simp only [Bool.false_eq_true, if_false]
    rcases thresholdAllows_agree h.thresholds limits.maxThresholdEntries hrule rule.threshold tuple
      now with hfull | hfull | ⟨hcounters, hallowed⟩
    · left
      split_ifs <;> simp [hfull]
    · right
      left
      split_ifs <;> simp [hfull]
    · right
      right
      rw [← hallowed]
      split_ifs
      · exact ⟨hcounters, hpending, halerts⟩
      · exact ⟨hcounters, hpending, h.alerts⟩

theorem Tally.Agree.hit_other {t t' : Tally} (h : Tally.Agree keep names t t')
    (limits : EngineLimits) (tuple : NetTuple) (now : Instant) {rule : CompiledRule R}
    (hrule : keep rule.sid = false) (outcome : MatchOutcome)
    (hnames : ∀ op ∈ outcome.sideEffects, ∀ name ∈ names, isOn name op = false) :
    Tally.Agree keep names (t.hit limits tuple now rule outcome) t' := by
  have hpending (name : String) (hname : name ∈ names) :
      (t.pending ++ outcome.sideEffects).filter (isOn name) = t'.pending.filter (isOn name) := by
    have hnone : outcome.sideEffects.filter (isOn name) = [] :=
      List.filter_eq_nil_iff.2 (fun op hop => by simp [hnames op hop name hname])
    rw [List.filter_append, hnone, List.append_nil, h.pending name hname]
  have halerts : (t.alerts ++ [rule.record]).filter (fun alert => keep alert.sid) = t'.alerts := by
    rw [List.filter_append, h.alerts]
    simp [CompiledRule.record, hrule]
  have hcounters := thresholdAllows_other h.thresholds limits.maxThresholdEntries hrule
    rule.threshold tuple now
  simp only [Tally.hit]
  split_ifs
  · exact ⟨h.thresholds, hpending, h.alerts⟩
  · exact ⟨hcounters, hpending, halerts⟩
  · exact ⟨hcounters, hpending, h.alerts⟩

/-- The kept rules name bits of `names` only, the others none of them. -/
structure NamesApart (keep : UInt32 → Bool) (names : Set String) (rules : List (CompiledRule R)) :
    Prop where
  kept : ∀ rule ∈ rules, keep rule.sid = true → ∀ name ∈ rule.flowbitNames, name ∈ names
  other : ∀ rule ∈ rules, keep rule.sid = false → ∀ name ∈ rule.flowbitNames, name ∉ names

/-- Judging all rules and judging the kept ones come to the same for the kept ones. -/
theorem foldl_judge_agree {rules : List (CompiledRule R)} (hapart : NamesApart keep names rules)
    (limits : EngineLimits) (input : MatchInput) (now : Instant) {bits bits' : FlowBits}
    (hbits : ∀ name ∈ names, bits.isSet name = bits'.isSet name) {t t' : Tally}
    (h : Tally.AgreeOrFull keep names t t') :
    Tally.AgreeOrFull keep names (rules.foldl (Tally.judge limits input now bits) t)
      ((rules.filter (fun rule => keep rule.sid)).foldl
      (Tally.judge limits input now bits') t') := by
  refine Runs.foldl_filter_simulation (Tally.AgreeOrFull keep names) _ ?_ ?_ h
  · intro rule hmem hrule t t' h
    rcases h with hfull | hfull | hagree
    · exact Or.inl (judge_uncounted hfull ..)
    · exact Or.inr (Or.inl (judge_uncounted hfull ..))
    · have heval : evaluate rule input bits = evaluate rule input bits' :=
        evaluate_congr_bits rule input (fun name hname =>
          hbits name (hapart.kept rule hmem hrule name hname))
      unfold Tally.judge
      rw [heval]
      cases evaluate rule input bits' with
      | none => exact Or.inr (Or.inr hagree)
      | some outcome => exact hagree.hit limits input.tuple now hrule outcome
  · intro rule hmem hrule t t' h
    rcases h with hfull | hfull | hagree
    · exact Or.inl (judge_uncounted hfull ..)
    · exact Or.inr (Or.inl hfull)
    · unfold Tally.judge
      cases heval : evaluate rule input bits with
      | none => exact Or.inr (Or.inr hagree)
      | some outcome =>
        refine Or.inr (Or.inr (hagree.hit_other limits input.tuple now hrule outcome ?_))
        intro op hop name hname
        by_contra hon
        have hnamed : flowbitName op = some name := by simpa [isOn] using hon
        exact hapart.other rule hmem hrule name
          (List.mem_filterMap.2 ⟨_, sideEffects_subset heval hop, hnamed⟩) hname

end Verdicts

/-! ### Two engines -/

structure Output.WithinBounds (out : Output) : Prop where
  evicted : out.evicted = []
  uncounted : out.uncounted = false
  bitsRefused : out.bitsRefused = false

instance (out : Output) : Decidable out.WithinBounds :=
  decidable_of_iff (out.evicted = [] ∧ out.uncounted = false ∧ out.bitsRefused = false)
    ⟨fun ⟨h, h', h''⟩ => ⟨h, h', h''⟩, fun ⟨h, h', h''⟩ => ⟨h, h', h''⟩⟩

theorem withinBounds_andThen {a b : Output} (h : (a.andThen b).WithinBounds) :
    a.WithinBounds ∧ b.WithinBounds := by
  obtain ⟨hevicted, huncounted, hrefused⟩ := h
  simp only [Output.andThen, List.append_eq_nil_iff, Bool.or_eq_false_iff] at *
  exact ⟨⟨hevicted.1, huncounted.1, hrefused.1⟩, ⟨hevicted.2, huncounted.2, hrefused.2⟩⟩

namespace Engine

variable (keep : UInt32 → Bool) (names : Set String)

/-- The second engine runs the kept rules of the first under the same shared parameters. -/
structure Restricts (e e' : Engine R A) : Prop where
  limits : e'.limits = e.limits
  longestPattern : e'.longestPattern = e.longestPattern
  needsHttp : e'.ruleset.needsHttp = e.ruleset.needsHttp
  rules : e'.ruleset.rules = e.ruleset.rules.filter (fun rule => keep rule.sid)
  apart : NamesApart keep names e.ruleset.rules
  armed : ∃ resolve limits rules, e.Armed resolve limits rules
  armed' : ∃ resolve limits rules, e'.Armed resolve limits rules

structure Agree (e e' : Engine R A) : Prop where
  restricts : Restricts keep names e e'
  context : ∀ flowId, e.contextOf flowId = e'.contextOf flowId
  bits : ∀ flowId, ∀ name ∈ names,
    (e.stateOf flowId).bits.isSet name = (e'.stateOf flowId).bits.isSet name
  thresholds : CountersAgree keep e.thresholds e'.thresholds

/-- Two calls whose engines agree afterwards and whose alerts agree, if no bound was met. -/
def AgreeAfter (r r' : Engine R A × Output) : Prop :=
  r.2.WithinBounds → r'.2.WithinBounds →
    Agree keep names r.1 r'.1 ∧ r.2.alerts.filter (fun alert => keep alert.sid) = r'.2.alerts

variable {keep names}

theorem Restricts.of_params {e e' f f' : Engine R A} (h : Restricts keep names e e')
    (hparams : f.params = e.params) (hparams' : f'.params = e'.params) :
    Restricts keep names f f' := by
  obtain ⟨hlimits, hlongest, hhttp, hrules, hapart, ⟨_, _, _, harmed⟩, ⟨_, _, _, harmed'⟩⟩ := h
  refine ⟨?_, ?_, ?_, ?_, ?_, ⟨_, _, _, harmed.of_params hparams⟩,
    ⟨_, _, _, harmed'.of_params hparams'⟩⟩
  · rw [limits_of_params hparams, limits_of_params hparams', hlimits]
  · rw [longestPattern_of_params hparams, longestPattern_of_params hparams', hlongest]
  · rw [ruleset_of_params hparams, ruleset_of_params hparams', hhttp]
  · rw [ruleset_of_params hparams, ruleset_of_params hparams', hrules]
  · rw [ruleset_of_params hparams]
    exact hapart

/-- The bits of a flow after pending operations, none of them refused. -/
theorem applyPending_isSet (e : Engine R A) (order : HashOrder UInt64) (g : UInt64)
    (timestamp : Instant) (pending : List FlowBitsOp)
    (h : (e.applyPending order g timestamp pending).2.WithinBounds) (flowId : UInt64)
    (name : String) :
    ((e.applyPending order g timestamp pending).1.stateOf flowId).bits.isSet name =
      if flowId = g then
        (pending.filter (isOn name)).foldl (nextBit name) ((e.stateOf flowId).bits.isSet name)
      else (e.stateOf flowId).bits.isSet name := by
  obtain ⟨hevicted, -, hrefused⟩ := h
  unfold applyPending at hevicted hrefused ⊢
  by_cases hpending : pending = []
  · simp [hpending]
  · rw [if_neg hpending] at hevicted hrefused ⊢
    have hstate (id : UInt64) : (e.makeRoom order).1.stateOf id = e.stateOf id :=
      makeRoom_stateOf e order (by
        rw [show (e.makeRoom order).2 = [] from hevicted]
        exact List.not_mem_nil)
    simp only [hstate] at hrefused
    simp only [stateOf_setState, hstate]
    split_ifs with hflow
    · subst hflow
      exact applyAll_isSet hrefused name
    · rfl

theorem makeRoom_thresholds (e : Engine R A) (order : HashOrder UInt64) :
    (e.makeRoom order).1.thresholds = e.thresholds := by
  unfold makeRoom
  split_ifs <;> rfl

theorem applyPending_thresholds (e : Engine R A) (order : HashOrder UInt64) (g : UInt64)
    (timestamp : Instant) (pending : List FlowBitsOp) :
    (e.applyPending order g timestamp pending).1.thresholds = e.thresholds := by
  unfold applyPending
  split_ifs
  · rfl
  · exact makeRoom_thresholds e order

theorem Agree.applyPending {e e' : Engine R A} (h : Agree keep names e e')
    (order : HashOrder UInt64)
    (g : UInt64) (timestamp : Instant) {pending pending' : List FlowBitsOp}
    (hpending : ∀ name ∈ names, pending.filter (isOn name) = pending'.filter (isOn name))
    (hb : (e.applyPending order g timestamp pending).2.WithinBounds)
    (hb' : (e'.applyPending order g timestamp pending').2.WithinBounds) :
    Agree keep names (e.applyPending order g timestamp pending).1
      (e'.applyPending order g timestamp pending').1 := by
  refine ⟨h.restricts.of_params (applyPending_params ..) (applyPending_params ..), ?_, ?_, ?_⟩
  · intro flowId
    rw [applyPending_contextOf e order g timestamp pending (by simp [hb.evicted]),
      applyPending_contextOf e' order g timestamp pending' (by simp [hb'.evicted]),
      h.context flowId]
  · intro flowId name hname
    rw [applyPending_isSet e order g timestamp pending hb,
      applyPending_isSet e' order g timestamp pending' hb', hpending name hname,
      h.bits flowId name hname]
  · rw [applyPending_thresholds, applyPending_thresholds]
    exact h.thresholds

theorem Agree.conclude {e e' : Engine R A} (h : Agree keep names e e') (order : HashOrder UInt64)
    (flowId : UInt64) (timestamp : Instant) {t t' : Tally}
    (ht : Tally.AgreeOrFull keep names t t') :
    AgreeAfter keep names (e.conclude order flowId timestamp t)
      (e'.conclude order flowId timestamp t') := by
  intro hb hb'
  rcases ht with hfull | hfull | hagree
  · exact absurd (hfull.symm.trans hb.uncounted) (by simp)
  · exact absurd (hfull.symm.trans hb'.uncounted) (by simp)
  · have hcounted : Agree keep names
        { e with thresholds := t.thresholds, counters := t.counters }
        { e' with thresholds := t'.thresholds, counters := t'.counters } :=
      ⟨h.restricts.of_params rfl rfl, h.context, h.bits, hagree.thresholds⟩
    have huncounted (e : Engine R A) (pending : List FlowBitsOp) :
        (e.applyPending order flowId timestamp pending).2.uncounted = false := by
      unfold Engine.applyPending
      split_ifs <;> rfl
    exact ⟨hcounted.applyPending order flowId timestamp hagree.pending
      ⟨hb.evicted, huncounted _ _, hb.bitsRefused⟩ ⟨hb'.evicted, huncounted _ _, hb'.bitsRefused⟩,
      hagree.alerts⟩

theorem Agree.inspectBuffers {e e' : Engine R A} (h : Agree keep names e e')
    (order : HashOrder UInt64) (flowId : UInt64) (tuple : NetTuple) (toServer established : Bool)
    (shape : Inspected) (timestamp : Instant) :
    AgreeAfter keep names
      (e.inspectBuffers order flowId tuple toServer established shape.buffers shape.prefilterBuffers
        timestamp)
      (e'.inspectBuffers order flowId tuple toServer established shape.buffers
        shape.prefilterBuffers timestamp) := by
  obtain ⟨_, _, _, harmed⟩ := h.restricts.armed
  obtain ⟨_, _, _, harmed'⟩ := h.restricts.armed'
  rw [inspectBuffers_eq e harmed, inspectBuffers_eq e' harmed', h.restricts.rules,
    h.restricts.limits]
  exact h.conclude order flowId timestamp (foldl_judge_agree h.restricts.apart e.limits
    ⟨tuple, established, toServer, shape.buffers⟩ timestamp (h.bits flowId)
    (Or.inr (Or.inr ⟨h.thresholds, fun _ _ => rfl, rfl⟩)))

theorem Agree.inspectRequests {e e' : Engine R A} (h : Agree keep names e e')
    (order : HashOrder UInt64) (flowId : UInt64) (tuple : NetTuple) (timestamp : Instant)
    (requests : List HttpRequest) :
    AgreeAfter keep names (Engine.inspectRequests order flowId tuple timestamp e requests)
      (Engine.inspectRequests order flowId tuple timestamp e' requests) := by
  induction requests generalizing e e' with
  | nil => exact fun _ _ => ⟨h, rfl⟩
  | cons request rest ih =>
    intro hb hb'
    obtain ⟨hfirst, hrest⟩ := withinBounds_andThen hb
    obtain ⟨hfirst', hrest'⟩ := withinBounds_andThen hb'
    obtain ⟨hagree, halerts⟩ := h.inspectBuffers order flowId tuple true true
      (.http (some request.uri) (some request.headers) request.userAgent (some request.method)
        request.host request.normalization) timestamp hfirst hfirst'
    obtain ⟨hlast, hothers⟩ := ih hagree hrest hrest'
    refine ⟨hlast, ?_⟩
    simp only [Engine.inspectRequests, Output.andThen, List.filter_append]
    exact congrArg₂ (· ++ ·) halerts hothers

theorem Agree.setHttp {e e' : Engine R A} (h : Agree keep names e e') (g : UInt64)
    (parser : Option HttpParser) :
    Agree keep names (e.setState g { e.stateOf g with http := parser })
      (e'.setState g { e'.stateOf g with http := parser }) := by
  refine ⟨h.restricts.of_params rfl rfl, ?_, ?_, h.thresholds⟩
  · intro flowId
    have hcontext := h.context flowId
    simp only [contextOf, stateOf_setState] at hcontext ⊢
    split_ifs with hflow
    · subst hflow
      simp only [FlowState.mk.injEq, true_and] at hcontext ⊢
      exact ⟨hcontext.1, hcontext.2.1, trivial⟩
    · exact hcontext
  · intro flowId name hname
    have hbits := h.bits flowId name hname
    simp only [stateOf_setState]
    split_ifs with hflow
    · subst hflow
      exact hbits
    · exact hbits

theorem Agree.parserOf {e e' : Engine R A} (h : Agree keep names e e') (flowId : UInt64) :
    e.parserOf flowId = e'.parserOf flowId := by
  rw [Engine.parserOf, Engine.parserOf, h.context flowId, h.restricts.limits]

theorem Agree.inspectHttp {e e' : Engine R A} (h : Agree keep names e e') (order : HashOrder UInt64)
    (flowId : UInt64) (tuple : NetTuple) (delivered : List UInt8) (timestamp : Instant)
    (hmem : flowId ∈ e.states) (hmem' : flowId ∈ e'.states) :
    AgreeAfter keep names (e.inspectHttp order flowId tuple delivered timestamp)
      (e'.inspectHttp order flowId tuple delivered timestamp) := by
  rw [inspectHttp_eq e order flowId tuple delivered timestamp hmem,
    inspectHttp_eq e' order flowId tuple delivered timestamp hmem', ← h.parserOf flowId,
    h.restricts.limits]
  exact (h.setHttp flowId _).inspectRequests order flowId tuple timestamp _

theorem Agree.makeRoom {e e' : Engine R A} (h : Agree keep names e e') (order : HashOrder UInt64)
    (hroom : (e.makeRoom order).2 = []) (hroom' : (e'.makeRoom order).2 = []) :
    Agree keep names (e.makeRoom order).1 (e'.makeRoom order).1 := by
  have hkept {e : Engine R A} (hroom : (e.makeRoom order).2 = []) (flowId : UInt64) :
      (e.makeRoom order).1.stateOf flowId = e.stateOf flowId :=
    makeRoom_stateOf e order (by simp [hroom])
  refine ⟨h.restricts.of_params (makeRoom_params ..) (makeRoom_params ..), ?_, ?_, ?_⟩
  · intro flowId
    rw [contextOf, contextOf, hkept hroom, hkept hroom']
    exact h.context flowId
  · intro flowId name hname
    rw [hkept hroom, hkept hroom']
    exact h.bits flowId name hname
  · rw [makeRoom_thresholds, makeRoom_thresholds]
    exact h.thresholds

theorem Agree.windowOf {e e' : Engine R A} (h : Agree keep names e e') (flowId : UInt64)
    (toServer : Bool) : e.windowOf flowId toServer = e'.windowOf flowId toServer := by
  rw [windowOf_eq_contextOf, windowOf_eq_contextOf, h.context flowId]

/-- The two windows grow alike, and the region to inspect is the same. -/
theorem Agree.extendWindow {e e' : Engine R A} (h : Agree keep names e e') (flowId : UInt64)
    (toServer : Bool) (delivered : List UInt8) (timestamp : Instant) :
    Agree keep names (e.extendWindow flowId toServer delivered timestamp).1
        (e'.extendWindow flowId toServer delivered timestamp).1 ∧
      (e.extendWindow flowId toServer delivered timestamp).2 =
        (e'.extendWindow flowId toServer delivered timestamp).2 := by
  have hbits (e : Engine R A) (id : UInt64) :
      ((e.extendWindow flowId toServer delivered timestamp).1.stateOf id).bits =
        (e.stateOf id).bits := by
    change ((e.setState flowId _).stateOf id).bits = _
    rw [stateOf_setState]
    split_ifs with hflow
    · subst hflow
      cases toServer <;> rfl
    · rfl
  have hwindow := h.windowOf flowId toServer
  refine ⟨⟨h.restricts.of_params (extendWindow_params ..) (extendWindow_params ..), ?_, ?_,
    h.thresholds⟩, ?_⟩
  · intro id
    rw [extendWindow_contextOf, extendWindow_contextOf, extendedContext, extendedContext,
      h.windowOf id toServer, h.context id, h.restricts.longestPattern, h.restricts.limits]
  · intro id name hname
    rw [hbits, hbits]
    exact h.bits id name hname
  · simp only [Engine.windowOf] at hwindow
    simp only [Engine.extendWindow, hwindow, h.restricts.longestPattern, h.restricts.limits]

theorem Agree.payloadPass {e e' : Engine R A} (h : Agree keep names e e') (order : HashOrder UInt64)
    (flowId : UInt64) (tuple : NetTuple) (toServer : Bool) (delivered : List UInt8)
    (timestamp : Instant) :
    AgreeAfter keep names (e.payloadPass order flowId tuple toServer delivered timestamp)
      (e'.payloadPass order flowId tuple toServer delivered timestamp) := by
  intro hb hb'
  obtain ⟨hroom, hscan⟩ := withinBounds_andThen hb
  obtain ⟨hroom', hscan'⟩ := withinBounds_andThen hb'
  obtain ⟨hextended, hregion⟩ := (h.makeRoom order hroom.evicted hroom'.evicted).extendWindow flowId
    toServer delivered timestamp
  rw [← hregion] at hscan'
  obtain ⟨hagree, halerts⟩ := hextended.inspectBuffers order flowId tuple toServer true
    (.payload ((e.makeRoom order).1.extendWindow flowId toServer delivered timestamp).2.region)
    timestamp hscan hscan'
  simp only [Engine.payloadPass, Output.andThen, List.nil_append]
  rw [← hregion]
  exact ⟨hagree, halerts⟩

theorem Agree.inspectStream {e e' : Engine R A} (h : Agree keep names e e')
    (order : HashOrder UInt64)
    (flowId : UInt64) (tuple : NetTuple) (toServer : Bool) (delivered : List UInt8)
    (timestamp : Instant) :
    AgreeAfter keep names (e.inspectStream order flowId tuple toServer delivered timestamp)
      (e'.inspectStream order flowId tuple toServer delivered timestamp) := by
  by_cases hne : delivered = []
  · simp only [Engine.inspectStream, if_pos hne]
    exact fun _ _ => ⟨h, rfl⟩
  by_cases hhttp : (toServer && e.ruleset.needsHttp) = true
  · have hhttp' := hhttp
    rw [← h.restricts.needsHttp] at hhttp'
    rw [inspectStream_of_http e order flowId tuple timestamp hne hhttp,
      inspectStream_of_http e' order flowId tuple timestamp hne hhttp']
    intro hb hb'
    obtain ⟨hpass, hrequests⟩ := withinBounds_andThen hb
    obtain ⟨hpass', hrequests'⟩ := withinBounds_andThen hb'
    obtain ⟨hagree, halerts⟩ := h.payloadPass order flowId tuple toServer delivered timestamp hpass
      hpass'
    obtain ⟨hlast, hothers⟩ := hagree.inspectHttp order flowId tuple delivered timestamp
      (payloadPass_mem e order flowId tuple toServer delivered timestamp (by simp [hpass.evicted]))
      (payloadPass_mem e' order flowId tuple toServer delivered timestamp
        (by simp [hpass'.evicted]))
      hrequests hrequests'
    refine ⟨hlast, ?_⟩
    simp only [Output.andThen, List.filter_append]
    exact congrArg₂ (· ++ ·) halerts hothers
  · have hhttp' := hhttp
    rw [← h.restricts.needsHttp] at hhttp'
    rw [inspectStream_of_not_http e order flowId tuple timestamp hne hhttp,
      inspectStream_of_not_http e' order flowId tuple timestamp hne hhttp']
    exact h.payloadPass order flowId tuple toServer delivered timestamp

theorem Agree.onFlowEnd {e e' : Engine R A} (h : Agree keep names e e') (g : UInt64) :
    Agree keep names (e.onFlowEnd g) (e'.onFlowEnd g) := by
  have hstate (e : Engine R A) (flowId : UInt64) :
      (e.onFlowEnd g).stateOf flowId = if flowId = g then {} else e.stateOf flowId := by
    simp only [stateOf, Engine.onFlowEnd]
    split_ifs with hflow
    · rw [hflow, AList.lookup_erase, Option.getD_none]
    · rw [AList.lookup_erase_ne hflow]
  refine ⟨h.restricts.of_params rfl rfl, ?_, ?_, h.thresholds⟩
  · intro flowId
    rw [contextOf, contextOf, hstate, hstate]
    split_ifs
    · rfl
    · exact h.context flowId
  · intro flowId name hname
    rw [hstate, hstate]
    split_ifs
    · rfl
    · exact h.bits flowId name hname

theorem Agree.step {e e' : Engine R A} (h : Agree keep names e e') (call : Call) :
    AgreeAfter keep names (e.step call) (e'.step call) := by
  cases call with
  | packet order flowId tuple toServer payload timestamp =>
    exact h.inspectBuffers order flowId tuple toServer false (.payload payload) timestamp
  | stream order flowId tuple toServer delivered timestamp =>
    exact h.inspectStream order flowId tuple toServer delivered timestamp
  | flowEnd flowId => exact fun _ _ => ⟨h.onFlowEnd flowId, rfl⟩

end Engine

/-! ### Rule sets side by side -/

def ruleFlowbits (rule : Rule) : List String := rule.options.filterMap optionFlowbit

theorem filterMap_armed_filter (resolve : HeaderResolver) (limits : CompileLimits)
    (keep : UInt32 → Bool) (rules : List Rule) :
    (rules.filter (fun rule => keep rule.sid)).filterMap (armed R resolve limits) =
      (rules.filterMap (armed R resolve limits)).filter (fun entry => keep entry.sid) := by
  rw [List.filterMap_filter, List.filter_filterMap]
  apply List.filterMap_congr
  intro rule _
  cases hentry : armed R resolve limits rule with
  | none => simp
  | some entry =>
    have hsid := (armed_spec hentry).1
    simp only [Option.filter_some, hsid]

theorem namesApart_of_ruleFlowbits {resolve : HeaderResolver} {limits : CompileLimits}
    {keep : UInt32 → Bool} {rules : List Rule}
    (hnames : ∀ rule ∈ rules, keep rule.sid = true → ∀ other ∈ rules, keep other.sid = false →
      ∀ name ∈ ruleFlowbits rule, name ∉ ruleFlowbits other) :
    NamesApart keep
      {name | ∃ rule ∈ rules, keep rule.sid = true ∧ name ∈ ruleFlowbits rule}
      (rules.filterMap (armed R resolve limits)) := by
  have hsource {entry : CompiledRule R} (h : entry ∈ rules.filterMap (armed R resolve limits)) :
      ∃ rule ∈ rules, rule.sid = entry.sid ∧ ruleFlowbits rule = entry.flowbitNames := by
    obtain ⟨rule, hrule, harmed⟩ := List.mem_filterMap.1 h
    obtain ⟨hsid, -, -, -, hcompiled⟩ := armed_spec harmed
    exact ⟨rule, hrule, hsid.symm, (compileOptions_flowbits hcompiled).symm⟩
  constructor
  · intro entry hentry hkeep name hname
    obtain ⟨rule, hrule, hsid, hflowbits⟩ := hsource hentry
    exact ⟨rule, hrule, by rw [hsid, hkeep], by rw [hflowbits]; exact hname⟩
  · intro entry hentry hkeep name hname hmem
    obtain ⟨other, hother, hsid, hflowbits⟩ := hsource hentry
    obtain ⟨rule, hrule, hkept, hnamed⟩ := hmem
    exact hnames rule hrule hkept other hother (by rw [hsid, hkeep]) name hnamed
      (by rw [hflowbits]; exact hname)

theorem new_agree (A : AhoCorasick) (resolve : HeaderResolver) (limits : EngineLimits)
    {keep : UInt32 → Bool} {rules : List Rule}
    (hnames : ∀ rule ∈ rules, keep rule.sid = true → ∀ other ∈ rules, keep other.sid = false →
      ∀ name ∈ ruleFlowbits rule, name ∉ ruleFlowbits other)
    (hlongest : (Engine.new R A resolve limits
        (rules.filter (fun rule => keep rule.sid))).1.longestPattern =
      (Engine.new R A resolve limits rules).1.longestPattern)
    (hhttp : (Engine.new R A resolve limits
        (rules.filter (fun rule => keep rule.sid))).1.ruleset.needsHttp =
      (Engine.new R A resolve limits rules).1.ruleset.needsHttp) :
    ∃ names, Engine.Agree keep names (Engine.new R A resolve limits rules).1
      (Engine.new R A resolve limits (rules.filter (fun rule => keep rule.sid))).1 := by
  have hnetwork : ∀ rule ∈ rules.filter (fun rule => !rule.isHostRuleByOptions),
      keep rule.sid = true → ∀ other ∈ rules.filter (fun rule => !rule.isHostRuleByOptions),
      keep other.sid = false → ∀ name ∈ ruleFlowbits rule, name ∉ ruleFlowbits other := by
    intro rule hrule hkeep other hother hkeep'
    exact hnames rule (List.mem_of_mem_filter hrule) hkeep other (List.mem_of_mem_filter hother)
      hkeep'
  have hrules (rules : List Rule) : (Engine.new R A resolve limits rules).1.ruleset.rules =
      (rules.filter (fun rule => !rule.isHostRuleByOptions)).filterMap
        (armed R resolve limits.compile) := compile_rules _ _ _
  refine ⟨{name | ∃ rule ∈ rules.filter (fun rule => !rule.isHostRuleByOptions),
      keep rule.sid = true ∧ name ∈ ruleFlowbits rule},
    ⟨rfl, hlongest, hhttp, ?_, ?_, ⟨_, _, _, Engine.new_armed resolve limits _⟩,
      ⟨_, _, _, Engine.new_armed resolve limits _⟩⟩, fun _ => rfl, fun _ _ _ => rfl,
    fun _ _ _ => rfl⟩
  · rw [hrules, hrules, ← filterMap_armed_filter, List.filter_filter, List.filter_filter]
    simp only [Bool.and_comm]
  · rw [hrules]
    exact namesApart_of_ruleFlowbits hnetwork

/-- Rules raise the same alerts with and without rules that name other flowbits, call by call, as
long as the longest pattern and the need for the HTTP pass stay the same and no bound is met. -/
theorem kept_alerts_eq (R : Regex) (A : AhoCorasick) (resolve : HeaderResolver)
    (limits : EngineLimits) (rules : List Rule) (keep : UInt32 → Bool) (calls : List Call)
    (hnames : ∀ rule ∈ rules, keep rule.sid = true → ∀ other ∈ rules, keep other.sid = false →
      ∀ name ∈ ruleFlowbits rule, name ∉ ruleFlowbits other)
    (hlongest : (Engine.new R A resolve limits
        (rules.filter (fun rule => keep rule.sid))).1.longestPattern =
      (Engine.new R A resolve limits rules).1.longestPattern)
    (hhttp : (Engine.new R A resolve limits
        (rules.filter (fun rule => keep rule.sid))).1.ruleset.needsHttp =
      (Engine.new R A resolve limits rules).1.ruleset.needsHttp)
    (hbounds : ∀ out ∈ (Runs.run Engine.step (Engine.new R A resolve limits rules).1 calls).2,
      out.WithinBounds)
    (hbounds' : ∀ out ∈ (Runs.run Engine.step (Engine.new R A resolve limits
      (rules.filter (fun rule => keep rule.sid))).1 calls).2, out.WithinBounds) :
    (Runs.run Engine.step (Engine.new R A resolve limits rules).1 calls).2.map
        (fun out => out.alerts.filter (fun alert => keep alert.sid)) =
      (Runs.run Engine.step (Engine.new R A resolve limits
        (rules.filter (fun rule => keep rule.sid))).1 calls).2.map Output.alerts := by
  obtain ⟨names, hagree⟩ := new_agree A resolve limits hnames hlongest hhttp
  have hstep (e e' : Engine R A) (call : Call) (h : Engine.Agree keep names e e') :
      Engine.AgreeAfter keep names (e.step call) (e'.step call) := h.step call
  have halerts := Runs.simulation_within (Engine.Agree keep names)
    (fun out out' => out.alerts.filter (fun alert => keep alert.sid) = out'.alerts)
    Output.WithinBounds Output.WithinBounds hstep hagree calls hbounds hbounds'
  rw [← List.forall₂_eq_eq_eq, List.forall₂_map_left_iff, List.forall₂_map_right_iff]
  exact halerts

/-- A rule on TCP that asks for a content, then sets or tests a flowbit. -/
def bitRule (sid : UInt32) (pattern : List UInt8) (op : FlowBitsOp) : Rule :=
  { contentRule sid [] with options := [.content { pattern := pattern }, .flowBits op] }

/-- Rule 1 marks a flow at `ab`, rule 2 alerts on a marked flow at `cd`; rule 3 marks it in another
way. -/
theorem kept_alerts_eq_marked :
    let rules := [bitRule 1 [0x61, 0x62] (.set "r"), bitRule 2 [0x63, 0x64] (.isSet "r"),
      bitRule 3 [0x61, 0x62] (.set "s")]
    let calls := [sampleDelivery [0x61, 0x62], sampleDelivery [0x63, 0x64]]
    (Runs.run Engine.step (Engine.new Regex.none AhoCorasick.exhaustive resolveAny {} rules).1
        calls).2.map (fun out => out.alerts.filter (fun alert => alert.sid < 3)) =
      (Runs.run Engine.step (Engine.new Regex.none AhoCorasick.exhaustive resolveAny {}
        (rules.filter (fun rule => rule.sid < 3))).1 calls).2.map Output.alerts := by
  intro rules calls
  exact kept_alerts_eq Regex.none AhoCorasick.exhaustive resolveAny {} rules (fun sid => sid < 3)
    calls (by decide +kernel) (by decide +kernel) (by decide +kernel) (by decide +kernel)
    (by decide +kernel)

structure SideBySide where
  limits : EngineLimits := {}
  alone : List Rule
  other : Rule
  calls : List Call

namespace SideBySide

def compiled (s : SideBySide) (rules : List Rule) :=
  Engine.new Regex.none AhoCorasick.exhaustive resolveAny s.limits rules

def outputs (s : SideBySide) (rules : List Rule) : List Output :=
  (Runs.run Engine.step (s.compiled rules).1 s.calls).2

/-- `ab`, then `c`: the longer pattern `wxyz` has `ab` scanned again. -/
def longerPattern : SideBySide where
  alone := [abRule]
  other := contentRule 9 [{ pattern := [0x77, 0x78, 0x79, 0x7a] }]
  calls := [sampleDelivery [0x61, 0x62], sampleDelivery [0x63]]

/-- A rule that asks for the absence of `ab`, on `G /` and an empty line: the other rule's URI adds
a pass over the request. -/
def httpPass : SideBySide where
  alone := [contentRule 1 [{ abContent with negated := true }]]
  other := contentRule 9 [{ pattern := [0x78], buffer := .httpUri }]
  calls := [sampleDelivery [0x47, 0x20, 0x2f, 0x0a, 0x0a]]

/-- One bit a flow: the other rule takes it. -/
def oneBit : SideBySide where
  limits := { maxFlowbitsPerFlow := 1 }
  alone := [bitRule 1 [0x61, 0x62] (.set "r"), bitRule 2 [0x63, 0x64] (.isSet "r")]
  other := bitRule 9 [0x61, 0x62] (.set "s")
  calls := [sampleDelivery [0x61, 0x62], sampleDelivery [0x63, 0x64]]

/-- The other rule has its own signature id and its own flowbits, all rules compile and no table is
full, and yet the alerts of the rules beside it are not the same. -/
def Disturbed (s : SideBySide) : Prop :=
  (s.compiled s.alone).2.failed = [] ∧ (s.compiled (s.other :: s.alone)).2.failed = [] ∧
    (∀ rule ∈ s.alone, rule.sid ≠ s.other.sid ∧
      ∀ name ∈ ruleFlowbits rule, name ∉ ruleFlowbits s.other) ∧
    (∀ out ∈ s.outputs s.alone ++ s.outputs (s.other :: s.alone),
      out.evicted = [] ∧ out.uncounted = false) ∧
    (s.outputs (s.other :: s.alone)).flatMap
        (fun out => out.alerts.filter (fun alert => alert.sid ≠ s.other.sid)) ≠
      (s.outputs s.alone).flatMap Output.alerts

end SideBySide

/-- Each of the three conditions is needed. -/
theorem other_rule_changes_alerts :
    SideBySide.longerPattern.Disturbed ∧ SideBySide.httpPass.Disturbed ∧
      SideBySide.oneBit.Disturbed := by
  unfold SideBySide.Disturbed
  decide +kernel

end CyberSentinel.Detect
