import CyberSentinel.EngineRuns

/-!
# Which alerts a call raises

The loop over the candidates does what a loop over all compiled rules would do, since the pre-filter
loses no match and a rule that does not match changes nothing. So the alerts of a rule that has its
own identifier, no threshold and no `noalert` are decided by its evaluation alone.
-/

namespace CyberSentinel.Detect

open Rules Tables

variable {R : Regex} {A : AhoCorasick}

def armed (R : Regex) (resolve : HeaderResolver) (limits : CompileLimits) (rule : Rule) :
    Option (CompiledRule R) :=
  match compileRule R resolve limits rule with
  | .ok entry => some entry
  | .error _ => none

theorem gather_compiled (resolve : HeaderResolver) (limits : CompileLimits) (g : Gathered R)
    (rule : Rule) :
    (gather R resolve limits g rule).compiled =
      g.compiled ++ (armed R resolve limits rule).toList := by
  unfold gather armed
  split_ifs with hevaluable
  · cases compileRule R resolve limits rule with
    | ok entry => rfl
    | error error => simp
  · simp [compileRule, hevaluable]

theorem foldl_gather_compiled (resolve : HeaderResolver) (limits : CompileLimits)
    (rules : List Rule)
    (g : Gathered R) :
    (rules.foldl (gather R resolve limits) g).compiled =
      g.compiled ++ rules.filterMap (armed R resolve limits) := by
  induction rules generalizing g with
  | nil => simp
  | cons rule rest ih =>
    rw [List.foldl_cons, ih, gather_compiled, List.append_assoc, List.filterMap_cons]
    cases armed R resolve limits rule <;> rfl

theorem compile_rules (resolve : HeaderResolver) (limits : CompileLimits) (rules : List Rule) :
    (CompiledRuleset.compile R A resolve limits rules).1.rules =
      rules.filterMap (armed R resolve limits) :=
  foldl_gather_compiled resolve limits rules {}

theorem armed_spec {resolve : HeaderResolver} {limits : CompileLimits} {rule : Rule}
    {entry : CompiledRule R} (h : armed R resolve limits rule = some entry) :
    entry.sid = rule.sid ∧ entry.threshold = rule.threshold ∧ entry.noAlert = rule.noAlert ∧
      resolve rule.header = .ok entry.header ∧
      compileOptions R limits rule.options = .ok entry.options := by
  apply compileRule_spec
  unfold armed at h
  split at h
  · next found hfound => rw [hfound, Option.some.inj h]
  · exact absurd h (by simp)

theorem nodup_compiled_sids (resolve : HeaderResolver) (limits : CompileLimits) {rules : List Rule}
    (h : (rules.map Rule.sid).Nodup) :
    ((rules.filterMap (armed R resolve limits)).map CompiledRule.sid).Nodup := by
  induction rules with
  | nil => simp
  | cons rule rest ih =>
    obtain ⟨hfresh, hrest⟩ := List.nodup_cons.1 h
    rw [List.filterMap_cons]
    cases hentry : armed R resolve limits rule with
    | none => exact ih hrest
    | some entry =>
      refine List.nodup_cons.2 ⟨?_, ih hrest⟩
      intro hmem
      obtain ⟨other, hother, hsid⟩ := List.mem_map.1 hmem
      obtain ⟨source, hsource, harmed⟩ := List.mem_filterMap.1 hother
      apply hfresh
      rw [← (armed_spec hentry).1, ← hsid, (armed_spec harmed).1]
      exact List.mem_map_of_mem hsource

theorem judge_of_not_matched (limits : EngineLimits) (input : MatchInput) (now : Instant)
    (bits : FlowBits) (t : Tally) (rule : CompiledRule R) (h : evaluate rule input bits = none) :
    Tally.judge limits input now bits t rule = t := by
  simp only [Tally.judge, h]

theorem foldl_range_getElem? {α β : Type*} (f : β → α → β) (b : β) (l : List α) :
    (List.range l.length).foldl (fun b i => (l[i]?).elim b (f b)) b = l.foldl f b := by
  induction l using List.reverseRecOn with
  | nil => rfl
  | append_singleton l x ih =>
    rw [List.length_append, List.length_singleton, List.range_succ, List.foldl_append,
      List.foldl_append]
    have hfirst : (List.range l.length).foldl (fun b i => ((l ++ [x])[i]?).elim b (f b)) b =
        l.foldl f b := by
      rw [← ih]
      apply List.foldl_ext
      intro b i hi
      rw [List.getElem?_append_left (List.mem_range.1 hi)]
    rw [hfirst]
    simp

theorem foldl_judge_candidates {s : CompiledRuleset R A} {resolve : HeaderResolver}
    {compileLimits : CompileLimits} {rules : List Rule}
    (hs : s = (CompiledRuleset.compile R A resolve compileLimits rules).1) (limits : EngineLimits)
    (shape : Inspected) (input : MatchInput) (hinput : input.buffers = shape.buffers)
    (now : Instant) (bits : FlowBits) (t : Tally) :
    (s.candidatesIn (shape.buffers.haystacks shape.prefilterBuffers)).foldl (fun t index =>
        (s.rule index).elim t (Tally.judge limits input now bits t)) t =
      s.rules.foldl (Tally.judge limits input now bits) t := by
  -- an index whose rule does not match can be left out of the loop
  have hskip (l : List ℕ) (t : Tally) :
      (l.filter (matchesAt s input bits)).foldl (fun t index =>
          (s.rule index).elim t (Tally.judge limits input now bits t)) t =
        l.foldl (fun t index => (s.rule index).elim t (Tally.judge limits input now bits t)) t := by
    rw [List.foldl_filter]
    apply List.foldl_ext
    intro t index _
    cases hrule : s.rule index with
    | none => simp
    | some rule =>
      cases heval : evaluate rule input bits with
      | none => simp [judge_of_not_matched, heval]
      | some outcome => simp [matchesAt, hrule, heval]
  rw [← hskip, hs, filter_candidatesIn resolve compileLimits rules shape input bits hinput, ← hs,
    hskip]
  exact foldl_range_getElem? _ t s.rules

def alertsFor (sid : UInt32) (alerts : List AlertRecord) : List AlertRecord :=
  alerts.filter (fun a => a.sid == sid)

@[simp] theorem alertsFor_append (sid : UInt32) (a b : List AlertRecord) :
    alertsFor sid (a ++ b) = alertsFor sid a ++ alertsFor sid b := List.filter_append a b

theorem hit_alerts_cases (t : Tally) (limits : EngineLimits) (tuple : NetTuple) (now : Instant)
    (rule : CompiledRule R) (outcome : MatchOutcome) :
    (t.hit limits tuple now rule outcome).alerts = t.alerts ∨
      (t.hit limits tuple now rule outcome).alerts = t.alerts ++ [rule.record] := by
  simp only [Tally.hit]
  split_ifs
  · exact Or.inl rfl
  · exact Or.inr rfl
  · exact Or.inl rfl

theorem judge_alertsFor_of_ne (limits : EngineLimits) (input : MatchInput) (now : Instant)
    (bits : FlowBits) (t : Tally) {rule : CompiledRule R} {sid : UInt32} (h : rule.sid ≠ sid) :
    alertsFor sid (Tally.judge limits input now bits t rule).alerts = alertsFor sid t.alerts := by
  unfold Tally.judge
  split
  · rfl
  · next outcome _ =>
    rcases hit_alerts_cases t limits input.tuple now rule outcome with hsame | hmore
    · rw [hsame]
    · rw [hmore, alertsFor_append]
      simp [alertsFor, CompiledRule.record, h]

theorem foldl_judge_alertsFor_of_ne (limits : EngineLimits) (input : MatchInput) (now : Instant)
    (bits : FlowBits) (rules : List (CompiledRule R)) (t : Tally) {sid : UInt32}
    (h : ∀ rule ∈ rules, rule.sid ≠ sid) :
    alertsFor sid (rules.foldl (Tally.judge limits input now bits) t).alerts =
      alertsFor sid t.alerts := by
  induction rules generalizing t with
  | nil => rfl
  | cons rule rest ih =>
    rw [List.foldl_cons, ih _ (fun other hother => h other (List.mem_cons_of_mem _ hother)),
      judge_alertsFor_of_ne limits input now bits t (h rule List.mem_cons_self)]

/-- A rule that alerts whenever it matches: no `noalert` and no threshold. -/
structure Loud (rule : CompiledRule R) : Prop where
  noAlert : rule.noAlert = false
  threshold : rule.threshold = none

theorem loud_of_armed {resolve : HeaderResolver} {limits : CompileLimits} {rule : Rule}
    {entry : CompiledRule R} (harmed : armed R resolve limits rule = some entry)
    (hnoAlert : rule.noAlert = false) (hthreshold : rule.threshold = none) : Loud entry := by
  obtain ⟨-, hentryThreshold, hentryNoAlert, -, -⟩ := armed_spec harmed
  exact ⟨hentryNoAlert.trans hnoAlert, hentryThreshold.trans hthreshold⟩

theorem judge_alerts_of_loud (limits : EngineLimits) (input : MatchInput) (now : Instant)
    (bits : FlowBits) (t : Tally) {rule : CompiledRule R} (h : Loud rule) :
    (Tally.judge limits input now bits t rule).alerts =
      t.alerts ++ (if (evaluate rule input bits).isSome then [rule.record] else []) := by
  unfold Tally.judge
  cases heval : evaluate rule input bits with
  | none => simp
  | some outcome =>
    simp only [Tally.hit, h.noAlert, h.threshold, thresholdAllows, Bool.false_eq_true, if_false,
      if_true, Option.isSome_some]

theorem foldl_judge_alertsFor (limits : EngineLimits) (input : MatchInput) (now : Instant)
    (bits : FlowBits) {rules : List (CompiledRule R)} (t : Tally) {rule : CompiledRule R}
    (hloud : Loud rule) (hmem : rule ∈ rules) (hsids : (rules.map CompiledRule.sid).Nodup) :
    alertsFor rule.sid (rules.foldl (Tally.judge limits input now bits) t).alerts =
      alertsFor rule.sid t.alerts ++
        (if (evaluate rule input bits).isSome then [rule.record] else []) := by
  obtain ⟨first, rest, rfl⟩ := List.append_of_mem hmem
  rw [List.map_append, List.map_cons, List.nodup_append] at hsids
  obtain ⟨_, hlast, hapart⟩ := hsids
  have hbefore : ∀ other ∈ first, other.sid ≠ rule.sid := fun other hother =>
    hapart _ (List.mem_map_of_mem hother) _ List.mem_cons_self
  have hafter : ∀ other ∈ rest, other.sid ≠ rule.sid := by
    intro other hother heq
    exact (List.nodup_cons.1 hlast).1 (heq ▸ List.mem_map_of_mem hother)
  rw [List.foldl_append, List.foldl_cons, foldl_judge_alertsFor_of_ne _ _ _ _ _ _ hafter,
    judge_alerts_of_loud _ _ _ _ _ hloud, alertsFor_append,
    foldl_judge_alertsFor_of_ne _ _ _ _ _ _ hbefore]
  congr 1
  split_ifs <;> simp [alertsFor, CompiledRule.record]

namespace Engine

def Armed (e : Engine R A) (resolve : HeaderResolver) (limits : CompileLimits) (rules : List Rule) :
    Prop :=
  e.ruleset = (CompiledRuleset.compile R A resolve limits rules).1

theorem new_armed (resolve : HeaderResolver) (limits : EngineLimits) (rules : List Rule) :
    (Engine.new R A resolve limits rules).1.Armed resolve limits.compile
      (rules.filter (fun rule => !rule.isHostRuleByOptions)) := rfl

theorem Armed.of_params {e e' : Engine R A} {resolve : HeaderResolver} {limits : CompileLimits}
    {rules : List Rule} (h : e.Armed resolve limits rules) (heq : e'.params = e.params) :
    e'.Armed resolve limits rules :=
  (congrArg Prod.fst heq).trans h

theorem run_armed (resolve : HeaderResolver) (limits : EngineLimits) (rules : List Rule)
    (calls : List Call) :
    (Runs.run step (Engine.new R A resolve limits rules).1 calls).1.Armed resolve limits.compile
      (rules.filter (fun rule => !rule.isHostRuleByOptions)) :=
  (new_armed resolve limits rules).of_params (run_params _ calls)

/-- Inspecting is judging every compiled rule under the bits the flow had before. -/
theorem inspectBuffers_eq (e : Engine R A) {resolve : HeaderResolver} {limits : CompileLimits}
    {rules : List Rule} (he : e.Armed resolve limits rules) (order : HashOrder UInt64)
    (flowId : UInt64) (tuple : NetTuple) (toServer established : Bool) (shape : Inspected)
    (timestamp : Instant) :
    e.inspectBuffers order flowId tuple toServer established shape.buffers shape.prefilterBuffers
        timestamp =
      e.conclude order flowId timestamp (e.ruleset.rules.foldl
        (Tally.judge e.limits ⟨tuple, established, toServer, shape.buffers⟩ timestamp
          (e.stateOf flowId).bits)
        { thresholds := e.thresholds,
          counters := e.countInspection (shape.buffers.haystacks shape.prefilterBuffers) }) := by
  have hbits : ((e.states.lookup flowId).map FlowState.bits).getD {} = (e.stateOf flowId).bits := by
    unfold stateOf
    cases e.states.lookup flowId <;> rfl
  rw [inspectBuffers, hbits]
  exact congrArg (e.conclude order flowId timestamp) (foldl_judge_candidates he e.limits shape
    ⟨tuple, established, toServer, shape.buffers⟩ rfl timestamp _ _)

theorem inspectBuffers_alertsFor (e : Engine R A) {resolve : HeaderResolver}
    {limits : CompileLimits}
    {rules : List Rule} (he : e.Armed resolve limits rules) (hsids : (rules.map Rule.sid).Nodup)
    {rule : CompiledRule R} (hmem : rule ∈ e.ruleset.rules) (hloud : Loud rule)
    (hbits : ∀ input bits, evaluate rule input bits = evaluate rule input {})
    (order : HashOrder UInt64) (flowId : UInt64) (tuple : NetTuple) (toServer established : Bool)
    (shape : Inspected) (timestamp : Instant) :
    alertsFor rule.sid (e.inspectBuffers order flowId tuple toServer established shape.buffers
        shape.prefilterBuffers timestamp).2.alerts =
      if (evaluate rule ⟨tuple, established, toServer, shape.buffers⟩ {}).isSome then [rule.record]
      else [] := by
  have hnodup : (e.ruleset.rules.map CompiledRule.sid).Nodup := by
    rw [he, compile_rules]
    exact nodup_compiled_sids resolve limits hsids
  rw [inspectBuffers_eq e he]
  simp only [conclude]
  rw [foldl_judge_alertsFor _ _ _ _ _ hloud hmem hnodup, hbits]
  simp [alertsFor]

end Engine
end CyberSentinel.Detect
