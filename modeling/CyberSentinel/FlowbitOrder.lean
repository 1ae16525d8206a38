import CyberSentinel.FlowEffects
import CyberSentinel.OptionWalk
import CyberSentinel.PassRules

/-!
# The order of the rules

The rules of one inspection are judged by the bits the flow had before it, so their order decides
neither which of them match nor, while every threshold finds its counter or room for one, which of
them alert. The operations of the rules that match are applied afterwards in the order of the rules,
and never put more bits on a flow than its cap. In a full threshold table an alert is not counted,
and which alert that is depends on the order.
-/

namespace CyberSentinel.Detect

open Rules Tables

def changesBits : FlowBitsOp → Bool
  | .set _ | .unset _ | .toggle _ => true
  | .isSet _ | .isNotSet _ | .noAlert => false

namespace FlowBits

variable {limit : ℕ}

theorem apply_of_not_changesBits {op : FlowBitsOp} (h : changesBits op = false) (b : FlowBits) :
    b.apply op limit = b := by
  cases op with
  | set name => cases h
  | unset name => cases h
  | toggle name => cases h
  | isSet name => rfl
  | isNotSet name => rfl
  | noAlert => rfl

theorem applyAll_filter (b : FlowBits) (ops : List FlowBitsOp) :
    (b.applyAll limit (ops.filter changesBits)).1 = (b.applyAll limit ops).1 := by
  induction ops generalizing b with
  | nil => rfl
  | cons op rest ih =>
    by_cases hop : changesBits op = true
    · rw [List.filter_cons_of_pos hop]
      exact ih _
    · rw [List.filter_cons_of_neg hop, ih, applyAll, apply_of_not_changesBits (by simpa using hop)]

theorem apply_card_le {b : FlowBits} (h : b.bits.card ≤ limit) (op : FlowBitsOp) :
    (b.apply op limit).bits.card ≤ limit := by
  cases op with
  | set name =>
    rw [apply]
    split_ifs with hroom
    · rcases hroom with hroom | hset
      · exact (Finset.card_insert_le _ _).trans hroom
      · rwa [Finset.insert_eq_of_mem hset]
    · exact h
  | unset name => exact (Finset.card_erase_le).trans h
  | toggle name =>
    rw [apply]
    split_ifs with hset hroom
    · exact (Finset.card_erase_le).trans h
    · exact (Finset.card_insert_le _ _).trans hroom
    · exact h
  | isSet name => exact h
  | isNotSet name => exact h
  | noAlert => exact h

theorem applyAll_card_le {b : FlowBits} (h : b.bits.card ≤ limit) (ops : List FlowBitsOp) :
    (b.applyAll limit ops).1.bits.card ≤ limit := by
  induction ops generalizing b with
  | nil => exact h
  | cons op rest ih => exact ih (apply_card_le h op)

end FlowBits

variable {R : Regex} {A : AhoCorasick}

def CompiledRule.operations (rule : CompiledRule R) : List FlowBitsOp :=
  rule.options.filterMap CompiledOption.write

theorem evalOption_sideEffects {input : MatchInput} {bits : FlowBits} {p q : Progress}
    {option : CompiledOption R} (h : evalOption input bits p option = some q) :
    q.sideEffects.filter changesBits =
      p.sideEffects.filter changesBits ++ option.write.toList := by
  cases option with
  | flowBits op =>
    cases op with
    | isSet name =>
      obtain ⟨-, hq⟩ := Option.ite_none_right_eq_some.1 h
      rw [← Option.some.inj hq]
      exact (List.append_nil _).symm
    | isNotSet name =>
      obtain ⟨-, hq⟩ := Option.ite_none_left_eq_some.1 h
      rw [← Option.some.inj hq]
      exact (List.append_nil _).symm
    | set name => rw [← Option.some.inj h, List.filter_append]; rfl
    | unset name => rw [← Option.some.inj h, List.filter_append]; rfl
    | toggle name => rw [← Option.some.inj h, List.filter_append]; rfl
    | noAlert => rw [← Option.some.inj h, List.filter_append]; rfl
  | content content =>
    obtain ⟨haystack, -, hcontent⟩ := Option.bind_eq_some_iff.1 h
    obtain ⟨cursor, -, rfl⟩ := Option.map_eq_some_iff.1 hcontent
    exact (List.append_nil _).symm
  | pcre matcher buffer negated relative =>
    obtain ⟨haystack, -, hpcre⟩ := Option.bind_eq_some_iff.1 h
    obtain ⟨cursor, -, rfl⟩ := Option.map_eq_some_iff.1 hpcre
    exact (List.append_nil _).symm
  | flow flow =>
    obtain ⟨-, hq⟩ := Option.ite_none_right_eq_some.1 h
    rw [← Option.some.inj hq]
    exact (List.append_nil _).symm
  | byteTest test =>
    obtain ⟨haystack, -, htest⟩ := Option.bind_eq_some_iff.1 h
    obtain ⟨-, hq⟩ := Option.ite_none_right_eq_some.1 htest
    rw [← Option.some.inj hq]
    exact (List.append_nil _).symm
  | byteJump jump =>
    obtain ⟨haystack, -, hjump⟩ := Option.bind_eq_some_iff.1 h
    obtain ⟨cursor, -, rfl⟩ := Option.map_eq_some_iff.1 hjump
    exact (List.append_nil _).symm
  | dsize dsize =>
    obtain ⟨haystack, -, hsize⟩ := Option.bind_eq_some_iff.1 h
    obtain ⟨-, hq⟩ := Option.ite_none_right_eq_some.1 hsize
    rw [← Option.some.inj hq]
    exact (List.append_nil _).symm
  | normalized condition =>
    obtain ⟨-, hq⟩ := Option.ite_none_right_eq_some.1 h
    rw [← Option.some.inj hq]
    exact (List.append_nil _).symm

theorem foldlM_sideEffects {input : MatchInput} {bits : FlowBits}
    {options : List (CompiledOption R)}
    {p q : Progress} (h : options.foldlM (evalOption input bits) p = some q) :
    q.sideEffects.filter changesBits =
      p.sideEffects.filter changesBits ++ options.filterMap CompiledOption.write := by
  induction options generalizing p with
  | nil =>
    rw [← Option.some.inj h]
    exact (List.append_nil _).symm
  | cons option rest ih =>
    rw [List.foldlM_cons] at h
    obtain ⟨between, hfirst, hrest⟩ := Option.bind_eq_some_iff.1 h
    rw [ih hrest, evalOption_sideEffects hfirst, List.append_assoc, List.filterMap_cons]
    cases CompiledOption.write option <;> rfl

theorem evaluate_sideEffects {rule : CompiledRule R} {input : MatchInput} {bits : FlowBits}
    {outcome : MatchOutcome} (h : evaluate rule input bits = some outcome) :
    outcome.sideEffects.filter changesBits = rule.operations := by
  rw [evaluate] at h
  obtain ⟨-, hoptions⟩ := Option.ite_none_right_eq_some.1 h
  obtain ⟨q, hfold, rfl⟩ := Option.map_eq_some_iff.1 hoptions
  exact foldlM_sideEffects hfold

theorem evaluate_of_failed {rule : CompiledRule R} {input : MatchInput} {bits : FlowBits}
    {before after : List (CompiledOption R)} {option : CompiledOption R} {p : Progress}
    (hoptions : rule.options = before ++ option :: after)
    (hbefore : before.foldlM (evalOption input bits) {} = some p)
    (hfailed : evalOption input bits p option = none) : evaluate rule input bits = none := by
  have hfold : rule.options.foldlM (evalOption input bits) {} = none := by
    rw [hoptions, List.foldlM_append, hbefore]
    change (option :: after).foldlM (evalOption input bits) p = none
    rw [List.foldlM_cons, hfailed]
    rfl
  rw [evaluate, hfold]
  split_ifs <;> rfl

def Engine.matching (e : Engine R A) (input : MatchInput) (bits : FlowBits) :
    List (CompiledRule R) :=
  e.ruleset.rules.filter fun rule => (evaluate rule input bits).isSome

theorem writes_eq_operations (rules : List (CompiledRule R)) (input : MatchInput)
    (bits : FlowBits) :
    (writes rules input bits).filter changesBits =
      (rules.filter fun rule =>
      (evaluate rule input bits).isSome).flatMap CompiledRule.operations := by
  induction rules with
  | nil => rfl
  | cons rule rest ih =>
    rw [writes] at ih ⊢
    rw [List.flatMap_cons, List.filter_append, ih]
    cases heval : evaluate rule input bits with
    | none => rw [List.filter_cons_of_neg (by rw [heval]; exact Bool.false_ne_true)]; rfl
    | some outcome =>
      rw [List.filter_cons_of_pos (by rw [heval]; rfl), List.flatMap_cons, Option.elim_some,
        evaluate_sideEffects heval]

namespace Hit

variable {κ : Type} [DecidableEq κ] {maxEntries : ℕ} {now : Instant}

theorem silent_of_room {t : Table (UInt32 × κ) ThresholdEntry} {opened : ℕ} (hit : Hit κ)
    (h : hit.opens t = true → size t + opened < maxEntries) :
    hit.silent maxEntries now t opened = hit.silent maxEntries now t 0 := by
  rw [silent, silent]
  cases hquiet : hit.noAlert with
  | true => rfl
  | false =>
    rw [heldBack, heldBack]
    cases hcounter : hit.counter with
    | none => rfl
    | some c =>
      rw [Option.any_some, Option.any_some]
      cases hlookup : t.lookup (hit.sid, c.2) with
      | some entry => rfl
      | none =>
        have hroom : size t + opened < maxEntries := h (by simp [opens, hquiet, hcounter, hlookup])
        have hnow : size t + 0 < maxEntries := by omega
        simp only [decide_eq_true hroom, decide_eq_true hnow]

/-- Where every counter that is asked for finds room, a hit alerts or not whatever comes before it.
-/
theorem run_of_room {t : Table (UInt32 × κ) ThresholdEntry} {hits : List (Hit κ)}
    (hsids : (hits.map Hit.sid).Nodup) (hroom : size t + hits.countP (opens t) ≤ maxEntries) :
    (Runs.run (step maxEntries now) t hits).2 =
      hits.map fun hit => !hit.silent maxEntries now t 0 := by
  refine Runs.outputs_eq_map _ t fun before hit after heq => ?_
  rw [step_snd, silent_run before t hit (nodup_begins hsids heq) 0, Nat.add_zero,
    silent_of_room hit]
  intro hopens
  rw [heq, List.countP_append, List.countP_cons_of_pos hopens] at hroom
  omega

end Hit

theorem spoken_map {ρ : Type} (record : ρ → AlertRecord) (rules : List ρ) (heard : ρ → Bool) :
    spoken record rules (rules.map heard) = (rules.filter heard).map record := by
  induction rules with
  | nil => rfl
  | cons rule rest ih =>
    rw [List.map_cons, spoken_cons, ih]
    cases hheard : heard rule with
    | true => rw [List.filter_cons_of_pos hheard]; rfl
    | false => rw [List.filter_cons_of_neg (by rw [hheard]; exact Bool.false_ne_true)]; rfl

namespace Engine

/-- Every threshold of a rule that matches finds its counter in the table, or room for one. -/
def HasCounterRoom (e : Engine R A) (input : MatchInput) (bits : FlowBits) : Prop :=
  size e.thresholds + (e.hits input bits).countP (Hit.opens e.thresholds) ≤
    e.limits.maxThresholdEntries

instance (e : Engine R A) (input : MatchInput) (bits : FlowBits) :
    Decidable (e.HasCounterRoom input bits) :=
  inferInstanceAs (Decidable (_ ≤ _))

section Inspection

variable {resolve : HeaderResolver} {limits : CompileLimits} {rules rules' : List Rule}

theorem matching_perm {e e' : Engine R A} (he : e.Armed resolve limits rules)
    (he' : e'.Armed resolve limits rules') (hperm : rules'.Perm rules) (input : MatchInput)
    (bits : FlowBits) : (e'.matching input bits).Perm (e.matching input bits) := by
  rw [matching, matching, he, he', compile_rules, compile_rules]
  exact (hperm.filterMap _).filter _

/-- With room for the counters the alerts are those of the rules that match and are not silent. -/
theorem alerts_of_room {e : Engine R A} (he : e.Armed resolve limits rules)
    (hsids : (rules.map Rule.sid).Nodup) (order : HashOrder UInt64) (flowId : UInt64)
    (tuple : NetTuple) (toServer established : Bool) (shape : Inspected) (timestamp : Instant) :
    let input : MatchInput := ⟨tuple, established, toServer, shape.buffers⟩
    let bits := (e.stateOf flowId).bits
    e.HasCounterRoom input bits →
    (e.inspectBuffers order flowId tuple toServer established shape.buffers shape.prefilterBuffers
        timestamp).2.alerts =
      ((e.matching input bits).filter fun rule =>
        !(rule.hit tuple).silent e.limits.maxThresholdEntries timestamp e.thresholds 0).map
          CompiledRule.record := by
  intro input bits hroom
  have hhits : ((e.hits input bits).map Hit.sid).Nodup := by
    rw [hits, List.map_map, he, compile_rules]
    exact (nodup_compiled_sids resolve limits hsids).sublist (List.filter_sublist.map _)
  rw [inspectBuffers_alerts e he, Hit.run_of_room hhits hroom, hits, List.map_map]
  exact spoken_map CompiledRule.record _ _

theorem hasCounterRoom_perm {e e' : Engine R A} (he : e.Armed resolve limits rules)
    (he' : e'.Armed resolve limits rules') (hperm : rules'.Perm rules)
    (hlimits : e'.limits = e.limits) (hthresholds : e'.thresholds = e.thresholds)
    (input : MatchInput) (bits : FlowBits) :
    e'.HasCounterRoom input bits ↔ e.HasCounterRoom input bits := by
  have hhits : (e'.hits input bits).Perm (e.hits input bits) :=
    (matching_perm he he' hperm input bits).map _
  rw [HasCounterRoom, HasCounterRoom, hlimits, hthresholds, hhits.countP_eq]

theorem alerts_perm {e e' : Engine R A} (he : e.Armed resolve limits rules)
    (he' : e'.Armed resolve limits rules') (hperm : rules'.Perm rules)
    (hsids : (rules.map Rule.sid).Nodup) (hlimits : e'.limits = e.limits)
    (hthresholds : e'.thresholds = e.thresholds) (order : HashOrder UInt64) (flowId : UInt64)
    (hbits : (e'.stateOf flowId).bits = (e.stateOf flowId).bits)
    (tuple : NetTuple) (toServer established : Bool) (shape : Inspected) (timestamp : Instant)
    (hroom : e.HasCounterRoom ⟨tuple, established, toServer, shape.buffers⟩
    (e.stateOf flowId).bits) :
    (e'.inspectBuffers order flowId tuple toServer established shape.buffers shape.prefilterBuffers
        timestamp).2.alerts.Perm
      (e.inspectBuffers order flowId tuple toServer established shape.buffers shape.prefilterBuffers
        timestamp).2.alerts := by
  have hroom' := (hasCounterRoom_perm he he' hperm hlimits hthresholds _ _).2 hroom
  rw [← hbits] at hroom'
  rw [alerts_of_room he hsids order flowId tuple toServer established shape timestamp hroom,
    alerts_of_room he' ((hperm.map _).nodup_iff.2 hsids) order flowId tuple toServer
    established shape
      timestamp hroom', hbits, hlimits, hthresholds]
  exact ((matching_perm he he' hperm _ _).filter _).map _

theorem judge_matched (limits : EngineLimits) (input : MatchInput) (now : Instant) (bits : FlowBits)
    (t : Tally) (rule : CompiledRule R) :
    (Tally.judge limits input now bits t rule).counters.matched =
      t.counters.matched + if (evaluate rule input bits).isSome then 1 else 0 := by
  rw [Tally.judge]
  cases evaluate rule input bits with
  | none => rfl
  | some outcome =>
    rw [Option.isSome_some, if_pos rfl]
    simp only [Tally.hit]
    split_ifs <;> rfl

theorem foldl_judge_matched (limits : EngineLimits) (input : MatchInput) (now : Instant)
    (bits : FlowBits) (rules : List (CompiledRule R)) (t : Tally) :
    (rules.foldl (Tally.judge limits input now bits) t).counters.matched =
      t.counters.matched + (rules.filter fun rule => (evaluate rule input bits).isSome).length := by
  induction rules generalizing t with
  | nil => rfl
  | cons rule rest ih =>
    rw [List.foldl_cons, ih, judge_matched, ← List.countP_eq_length_filter,
      ← List.countP_eq_length_filter, List.countP_cons]
    omega

theorem applyPending_counters (e : Engine R A) (order : HashOrder UInt64) (flowId : UInt64)
    (timestamp : Instant) (pending : List FlowBitsOp) :
    (e.applyPending order flowId timestamp pending).1.counters.matched = e.counters.matched := by
  rw [applyPending, makeRoom]
  split_ifs <;> rfl

theorem inspectBuffers_matched {e : Engine R A} (he : e.Armed resolve limits rules)
    (order : HashOrder UInt64) (flowId : UInt64) (tuple : NetTuple) (toServer established : Bool)
    (shape : Inspected) (timestamp : Instant) :
    (e.inspectBuffers order flowId tuple toServer established shape.buffers shape.prefilterBuffers
        timestamp).1.counters.matched =
      e.counters.matched + (e.matching ⟨tuple, established, toServer, shape.buffers⟩
        (e.stateOf flowId).bits).length := by
  rw [inspectBuffers_eq e he, conclude, applyPending_counters]
  exact foldl_judge_matched ..

/-- A table below its cap keeps every flow, and the inspected one gets the bits that were asked for.
-/
theorem applyPending_bits {e : Engine R A} (hroom : size e.states < e.limits.maxFlowStates)
    (order : HashOrder UInt64) (flowId : UInt64) (timestamp : Instant) (pending : List FlowBitsOp) :
    ((e.applyPending order flowId timestamp pending).1.stateOf flowId).bits =
        ((e.stateOf flowId).bits.applyAll e.limits.maxFlowbitsPerFlow pending).1 ∧
      ∀ g, g ≠ flowId →
        (e.applyPending order flowId timestamp pending).1.states.lookup g = e.states.lookup g := by
  rw [applyPending]
  split_ifs with hpending
  · rw [hpending]
    exact ⟨rfl, fun _ _ => rfl⟩
  · rw [makeRoom_of_room hroom]
    dsimp only
    refine ⟨?_, fun g hg => by rw [lookup_setState, if_neg hg]⟩
    rw [stateOf_setState, if_pos rfl]

/-- The bits after an inspection: those before it, and on them the operations of the rules that
match, in the order of the rules. -/
theorem inspectBuffers_bits {e : Engine R A} (he : e.Armed resolve limits rules)
    (hroom : size e.states < e.limits.maxFlowStates) (order : HashOrder UInt64) (flowId : UInt64)
    (tuple : NetTuple) (toServer established : Bool) (shape : Inspected) (timestamp : Instant) :
    let bits := (e.stateOf flowId).bits
    let after := (e.inspectBuffers order flowId tuple toServer established shape.buffers
      shape.prefilterBuffers timestamp).1
    (after.stateOf flowId).bits = (bits.applyAll e.limits.maxFlowbitsPerFlow
        ((e.matching ⟨tuple, established, toServer, shape.buffers⟩ bits).flatMap
          CompiledRule.operations)).1 ∧
      ∀ g, g ≠ flowId → after.states.lookup g = e.states.lookup g := by
  intro bits after
  obtain ⟨judged, hpending, hjudged⟩ := inspectBuffers_judged he order flowId tuple toServer
    established shape timestamp
  have hafter : after = _ := congrArg Prod.fst hjudged
  have happlied := applyPending_bits
    (e := { e with thresholds := judged.thresholds, counters := judged.counters }) hroom
    order flowId
    timestamp judged.pending
  rw [hafter, matching, ← writes_eq_operations, ← hpending, FlowBits.applyAll_filter]
  exact happlied

end Inspection

def BitsCapped (e : Engine R A) : Prop :=
  ∀ flowId s, e.states.lookup flowId = some s → s.bits.bits.card ≤ e.limits.maxFlowbitsPerFlow

namespace BitsCapped

variable {e : Engine R A}

theorem stateOf (h : e.BitsCapped) (flowId : UInt64) :
    (e.stateOf flowId).bits.bits.card ≤ e.limits.maxFlowbitsPerFlow := by
  rw [Engine.stateOf]
  cases hstate : e.states.lookup flowId with
  | none => exact Nat.zero_le _
  | some s => exact h flowId s hstate

theorem setState (h : e.BitsCapped) {s : FlowState}
    (hs : s.bits.bits.card ≤ e.limits.maxFlowbitsPerFlow) (flowId : UInt64) :
    (e.setState flowId s).BitsCapped := by
  intro g state hstate
  rw [lookup_setState] at hstate
  split_ifs at hstate with hg
  · rw [← Option.some.inj hstate]
    exact hs
  · exact h g state hstate

theorem makeRoom (h : e.BitsCapped) (order : HashOrder UInt64) :
    (e.makeRoom order).1.BitsCapped := by
  rw [Engine.makeRoom]
  split_ifs
  · exact h
  · intro flowId s hs
    exact h flowId s (lookup_of_lookup_foldl_erase (e.evictees order) hs)

end BitsCapped

theorem preserved_bitsCapped : Preserved (BitsCapped (R := R) (A := A)) where
  tally _ _ _ h := h
  write e order flowId s ops h hbits := by
    have hroom := h.makeRoom order
    have hlimits := limits_of_params (makeRoom_params e order)
    refine hroom.setState ?_ flowId
    rw [hbits, hlimits]
    exact FlowBits.applyAll_card_le (hlimits ▸ hroom.stateOf flowId) ops
  read e flowId s parser h hstate :=
    h.setState (s := { s with http := some parser }) (h flowId s hstate) flowId
  erase e flowId h g s hs := h g s (lookup_of_lookup_erase hs).2

/-- The order of the rules decides neither which of them match nor, with room for the counters,
which alert; it is the order in which the rules that match write their bits. No flow holds more bits
than its cap, however the run came about. -/
theorem rules_read_before_write (resolve : HeaderResolver) (limits : CompileLimits)
    (rules rules' : List Rule) (hperm : rules'.Perm rules) (hsids : (rules.map Rule.sid).Nodup)
    (e e' : Engine R A) (he : e.Armed resolve limits rules) (he' : e'.Armed resolve limits rules')
    (hlimits : e'.limits = e.limits) (hthresholds : e'.thresholds = e.thresholds)
    (order : HashOrder UInt64) (flowId : UInt64)
    (hbits : (e'.stateOf flowId).bits = (e.stateOf flowId).bits) (tuple : NetTuple)
    (toServer established : Bool) (shape : Inspected) (timestamp : Instant) :
    let input : MatchInput := ⟨tuple, established, toServer, shape.buffers⟩
    let bits := (e.stateOf flowId).bits
    let inspected := e.inspectBuffers order flowId tuple toServer established shape.buffers
      shape.prefilterBuffers timestamp
    let inspected' := e'.inspectBuffers order flowId tuple toServer established shape.buffers
      shape.prefilterBuffers timestamp
    (e'.matching input bits).Perm (e.matching input bits) ∧
      inspected.1.counters.matched = e.counters.matched + (e.matching input bits).length ∧
      inspected'.1.counters.matched = e'.counters.matched + (e'.matching input bits).length ∧
      (e.HasCounterRoom input bits → inspected'.2.alerts.Perm inspected.2.alerts) ∧
      (∀ (rule : CompiledRule R) (before after : List (CompiledOption R))
        (option : CompiledOption R) (p : Progress), rule.options = before ++ option :: after →
          before.foldlM (evalOption input bits) {} = some p →
          evalOption input bits p option = none →
          rule ∉ e.matching input bits) ∧
      (size e.states < e.limits.maxFlowStates →
        (inspected.1.stateOf flowId).bits = (bits.applyAll e.limits.maxFlowbitsPerFlow
            ((e.matching input bits).flatMap CompiledRule.operations)).1 ∧
          ∀ g, g ≠ flowId → inspected.1.states.lookup g = e.states.lookup g) ∧
      ∀ (bounds : EngineLimits) (calls : List Call) (g : UInt64) (s : FlowState),
        (Runs.run step (Engine.new R A resolve bounds rules).1 calls).1.states.lookup g = some s →
          s.bits.bits.card ≤ bounds.maxFlowbitsPerFlow := by
  intro input bits inspected inspected'
  refine ⟨matching_perm he he' hperm input bits, inspectBuffers_matched he .., ?_,
    alerts_perm he he' hperm hsids hlimits hthresholds order flowId hbits tuple toServer established
      shape timestamp, ?_,
    fun hroom => inspectBuffers_bits he hroom order flowId tuple toServer established
    shape timestamp,
    ?_⟩
  · have hmatched := inspectBuffers_matched he' order flowId tuple toServer established
      shape timestamp
    rwa [hbits] at hmatched
  · intro rule before after option p hoptions hbefore hfailed hmem
    have hsome := (List.mem_filter.1 hmem).2
    rw [evaluate_of_failed hoptions hbefore hfailed] at hsome
    exact Bool.false_ne_true hsome
  · intro bounds calls g s hs
    have hcapped : (Runs.run step (Engine.new R A resolve bounds rules).1 calls).1.BitsCapped :=
      preserved_bitsCapped.run (fun _ _ h => absurd h (by rw [new, AList.lookup_empty]; simp)) calls
    have hbounds := limits_of_params (run_params (Engine.new R A resolve bounds rules).1 calls)
    exact (hcapped g s hs).trans_eq (congrArg EngineLimits.maxFlowbitsPerFlow hbounds)

/-- `content:"ab"; flowbits:set,seen`. -/
def setRule : Rule :=
  { abRule with sid := 1, options := [.content abContent, .flowBits (.set "seen")] }

/-- `content:"ab"; flowbits:isset,seen`. -/
def askRule : Rule :=
  { abRule with sid := 2, options := [.content abContent, .flowBits (.isSet "seen")] }

/-- The payload `ab` on flow 7. -/
def inspectAb (e : Engine Regex.none AhoCorasick.exhaustive) :
    Engine Regex.none AhoCorasick.exhaustive × Output :=
  e.inspectBuffers (HashOrder.asStored _) 7 sampleTuple true true
    (Inspected.payload [0x61, 0x62]).buffers
    (Inspected.payload [0x61, 0x62]).prefilterBuffers 0

/-- A rule does not see the bit that a rule before it has set in the same inspection. -/
theorem rules_read_before_write_swapped :
    let e := sampleEngine {} [setRule, askRule]
    (inspectAb (sampleEngine {} [askRule, setRule])).2.alerts.Perm (inspectAb e).2.alerts ∧
      ((inspectAb e).1.stateOf 7).bits = ⟨{"seen"}⟩ := by
  intro e
  obtain ⟨-, -, -, halerts, -, hbits, -⟩ := rules_read_before_write resolveAny {} [setRule, askRule]
    [askRule, setRule] (List.Perm.swap _ _ _)
    (by decide) e (sampleEngine {} [askRule, setRule]) rfl rfl
    rfl rfl (HashOrder.asStored _) 7 rfl sampleTuple true true (.payload [0x61, 0x62]) 0
  refine ⟨halerts (by decide +kernel), (hbits (by decide +kernel)).1.trans ?_⟩
  decide +kernel

def everyOtherRule (sid : UInt32) : Rule :=
  { abRule with sid := sid, threshold := some ⟨.threshold, .byRule, 2, 60⟩ }

/-- The first rule takes the last counter and stays silent; the second one goes uncounted and
alerts. -/
theorem full_table_depends_on_order :
    let e := sampleEngine { maxThresholdEntries := 1 } [everyOtherRule 1, everyOtherRule 2]
    let e' := sampleEngine { maxThresholdEntries := 1 } [everyOtherRule 2, everyOtherRule 1]
    (inspectAb e).2.alerts.map AlertRecord.sid = [2] ∧
      (inspectAb e').2.alerts.map AlertRecord.sid = [1] ∧
      ¬ (inspectAb e').2.alerts.Perm (inspectAb e).2.alerts := by
  intro e e'
  have hfirst : (inspectAb e).2.alerts.map AlertRecord.sid = [2] := by decide +kernel
  have hsecond : (inspectAb e').2.alerts.map AlertRecord.sid = [1] := by decide +kernel
  refine ⟨hfirst, hsecond, fun hperm => ?_⟩
  have hsids := hperm.map AlertRecord.sid
  rw [hfirst, hsecond, List.singleton_perm_singleton] at hsids
  exact absurd hsids (by decide)

end Engine
end CyberSentinel.Detect
