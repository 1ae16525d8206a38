import CyberSentinel.FlowEffects
import CyberSentinel.InspectionWindow

/-!
# The table of flow states

The table keeps to its cap by evicting the flows that were seen longest ago before a new entry may
be needed. It does so also where the inspected flow has its entry already: a full table then loses
flows to an inspection that adds none, the inspected flow itself if it is among the oldest.
-/

namespace CyberSentinel.Detect

open Rules Tables

variable {R : Regex} {A : AhoCorasick}

namespace Engine

theorem size_foldl_erase_le {ν : Type*} (ids : List UInt64) (states : Table UInt64 ν) :
    Tables.size (ids.foldl (fun states id => states.erase id) states) ≤ Tables.size states := by
  induction ids generalizing states with
  | nil => exact le_rfl
  | cons id rest ih => exact (ih _).trans (size_erase_le states id)

theorem evictees_eq_cons (e : Engine R A) (order : HashOrder UInt64)
    (hpos : 0 < Tables.size e.states) :
    ∃ id rest, e.evictees order = id :: rest ∧ (e.states.lookup id).isSome = true := by
  obtain ⟨entry, rest, hbatch, hlookup⟩ := take_insertionSort_eq_cons id
    (fun a b : UInt64 × FlowState =>
    a.2.lastSeen ≤ b.2.lastSeen) order hpos (e.limits.maxFlowStates / 10)
  rw [List.map_id] at hbatch
  refine ⟨entry.1, rest.map Prod.fst, ?_, by rw [hlookup]; rfl⟩
  rw [evictees, hbatch]
  rfl

theorem makeRoom_size {e : Engine R A} (hcap : 1 ≤ e.limits.maxFlowStates)
    (h : Tables.size e.states ≤ e.limits.maxFlowStates) (order : HashOrder UInt64) :
    Tables.size (e.makeRoom order).1.states < e.limits.maxFlowStates := by
  rw [makeRoom]
  split_ifs with hroom
  · exact hroom
  · obtain ⟨id, rest, hids, hsome⟩ := e.evictees_eq_cons order (by omega)
    obtain ⟨state, hstate⟩ := Option.isSome_iff_exists.1 hsome
    have hfirst := size_erase_of_lookup hstate
    have hothers := size_foldl_erase_le rest (e.states.erase id)
    dsimp only
    rw [hids, List.foldl_cons]
    omega

theorem makeRoom_evicts {e : Engine R A} (hfull : e.limits.maxFlowStates ≤ Tables.size e.states)
    (hpos : 0 < Tables.size e.states) (order : HashOrder UInt64) : (e.makeRoom order).2 ≠ [] := by
  obtain ⟨id, rest, hids, -⟩ := e.evictees_eq_cons order hpos
  rw [makeRoom, if_neg (not_lt.2 hfull)]
  dsimp only
  rw [hids]
  exact List.cons_ne_nil _ _

def Capped (e : Engine R A) : Prop :=
  1 ≤ e.limits.maxFlowStates ∧ Tables.size e.states ≤ e.limits.maxFlowStates

theorem Capped.setState {e : Engine R A} (h : e.Capped)
    (hroom : Tables.size e.states < e.limits.maxFlowStates) (flowId : UInt64) (s : FlowState) :
    (e.setState flowId s).Capped :=
  ⟨h.1, (size_insert_le _ _ _).trans hroom⟩

theorem Capped.makeRoom {e : Engine R A} (h : e.Capped) (order : HashOrder UInt64) :
    (e.makeRoom order).1.Capped ∧
      Tables.size (e.makeRoom order).1.states < (e.makeRoom order).1.limits.maxFlowStates := by
  have hlimits := limits_of_params (makeRoom_params e order)
  have hsize := makeRoom_size h.1 h.2 order
  rw [Capped, hlimits]
  exact ⟨⟨h.1, hsize.le⟩, hsize⟩

theorem preserved_capped : Preserved (Capped (R := R) (A := A)) where
  tally _ _ _ h := h
  write e order flowId s _ h _ := (h.makeRoom order).1.setState (h.makeRoom order).2 flowId s
  read e flowId s parser h hstate := by
    -- the entry is there, so writing it does not add one
    have hsize := size_insert e.states flowId { s with http := some parser }
    rw [hstate, Option.isSome_some, if_pos rfl, Nat.add_zero] at hsize
    exact ⟨h.1, hsize.le.trans h.2⟩
  erase _ _ h := ⟨h.1, (size_erase_le _ _).trans h.2⟩

theorem run_capped (R : Regex) (A : AhoCorasick) (resolve : HeaderResolver) (limits : EngineLimits)
    (rules : List Rule) (hcap : 1 ≤ limits.maxFlowStates) (calls : List Call) :
    (Runs.run Engine.step (Engine.new R A resolve limits rules).1 calls).1.Capped :=
  preserved_capped.run
    ⟨hcap, show Tables.size (∅ : Table UInt64 FlowState) ≤ _ from Nat.zero_le _⟩ calls

theorem applyPending_evicts {e : Engine R A} {pending : List FlowBitsOp} (hpending : pending ≠ [])
    (hfull : e.limits.maxFlowStates ≤ Tables.size e.states) (hpos : 0 < Tables.size e.states)
    (order : HashOrder UInt64) (flowId : UInt64) (timestamp : Instant) :
    (e.applyPending order flowId timestamp pending).2.evicted ≠ [] := by
  rw [applyPending, if_neg hpending]
  exact makeRoom_evicts hfull hpos order

/-- A call that asks for room in a full table evicts a flow, whatever it inspects. -/
theorem step_evicts {e : Engine R A} {resolve : HeaderResolver} {limits : CompileLimits}
    {rules : List Rule} (he : e.Armed resolve limits rules) {call : Call}
    (hmakes : e.MakesRoom call)
    (hfull : e.limits.maxFlowStates ≤ Tables.size e.states) (hpos : 0 < Tables.size e.states) :
    (e.step call).2.evicted ≠ [] := by
  cases call with
  | flowEnd flowId => exact hmakes.elim
  | packet order flowId tuple toServer payload timestamp =>
    obtain ⟨judged, hpending, hjudged⟩ := inspectBuffers_judged he order flowId tuple toServer false
      (.payload payload) timestamp
    have hne : judged.pending ≠ [] := fun hnone => hmakes (hpending.symm.trans hnone)
    have hevicted := applyPending_evicts (e := { e with
      thresholds := judged.thresholds, counters := judged.counters }) hne hfull hpos order flowId
      timestamp
    intro hnone
    have hstep : (e.step (.packet order flowId tuple toServer payload timestamp)).2.evicted =
        (e.conclude order flowId timestamp judged).2.evicted :=
        congrArg (fun r => r.2.evicted) hjudged
    exact hevicted (hstep.symm.trans hnone)
  | stream order flowId tuple toServer delivered timestamp =>
    have hroom := makeRoom_evicts hfull hpos order
    have hpass : (e.payloadPass order flowId tuple toServer delivered timestamp).2.evicted ≠ [] :=
      fun hnone => hroom (List.append_eq_nil_iff.1 hnone).1
    rw [step]
    by_cases hhttp : (toServer && e.ruleset.needsHttp) = true
    · rw [inspectStream_of_http e order flowId tuple timestamp hmakes hhttp]
      exact fun hnone => hpass (List.append_eq_nil_iff.1 hnone).1
    · rw [inspectStream_of_not_http e order flowId tuple timestamp hmakes hhttp]
      exact hpass

/-- An inspection of a flow that has its entry changes that flow's state by its own effects only and
evicts nothing, exactly if it does not ask for room or the table is not full. The cap holds after
every call. -/
theorem inspection_keeps_states_iff (R : Regex) (A : AhoCorasick) (resolve : HeaderResolver)
    (limits : EngineLimits) (rules : List Rule) (calls : List Call) (call : Call) (flowId : UInt64)
    (s : FlowState) (hcap : 1 ≤ limits.maxFlowStates) (hcall : call.inspects = some flowId) :
    let e := (Runs.run Engine.step (Engine.new R A resolve limits rules).1 calls).1
    (e.states.lookup flowId = some s →
      (e.Leaves flowId (e.effect s call) (e.step call) ↔
        (e.MakesRoom call → Tables.size e.states < limits.maxFlowStates))) ∧
      Tables.size e.states ≤ limits.maxFlowStates := by
  intro e
  have harmed : e.Armed resolve limits.compile _ := run_armed resolve limits rules calls
  have hlimits : e.limits = limits :=
    limits_of_params (run_params (Engine.new R A resolve limits rules).1 calls)
  have hcapped := run_capped R A resolve limits rules hcap calls
  have hsize : Tables.size e.states ≤ limits.maxFlowStates := hlimits ▸ hcapped.2
  refine ⟨fun hstate => ⟨fun hleaves hmakes => ?_, fun hroom => ?_⟩, hsize⟩
  · by_contra hfull
    have hmem : flowId ∈ e.states.keys := mem_keys_iff_lookup.2 (by rw [hstate]; rfl)
    exact step_evicts harmed hmakes (by rw [hlimits]; exact not_lt.1 hfull)
      (List.length_pos_of_mem hmem) hleaves.evicted
  · exact step_leaves harmed hstate hcall (by rwa [hlimits])

/-- The second delivery of a flow, with a cap on the number of flows. -/
def secondDelivery (cap : ℕ) : Engine Regex.none AhoCorasick.exhaustive :=
  (Runs.run Engine.step (sampleEngine { maxFlowStates := cap } [abRule]) [sampleDelivery [0x61]]).1

theorem inspection_keeps_states_second :
    ∃ s, (secondDelivery 2).states.lookup 7 = some s ∧
      (secondDelivery 2).Leaves 7 ((secondDelivery 2).effect s (sampleDelivery [0x62]))
        ((secondDelivery 2).step (sampleDelivery [0x62])) := by
  obtain ⟨s, hs⟩ : ∃ s, (secondDelivery 2).states.lookup 7 = some s :=
    Option.isSome_iff_exists.1 (by decide +kernel)
  exact ⟨s, hs, ((inspection_keeps_states_iff Regex.none AhoCorasick.exhaustive resolveAny
    { maxFlowStates := 2 } [abRule] [sampleDelivery [0x61]] (sampleDelivery [0x62]) 7 s (by decide)
    rfl).1 hs).2 fun _ => by decide +kernel⟩

/-- With a cap of one flow the only flow is evicted by its own second delivery: the `a` that came
first is gone from its window. -/
theorem own_state_evicted :
    ∃ s, (secondDelivery 1).states.lookup 7 = some s ∧
      ((secondDelivery 1).step (sampleDelivery [0x62])).2.evicted = [7] ∧
      (((secondDelivery 1).step (sampleDelivery [0x62])).1.windowOf 7 true).data = [0x62] ∧
      ((secondDelivery 1).effect s (sampleDelivery [0x62])).toServer.data = [0x61, 0x62] := by
  obtain ⟨s, hs⟩ : ∃ s, (secondDelivery 1).states.lookup 7 = some s :=
    Option.isSome_iff_exists.1 (by decide +kernel)
  have hof : s = (secondDelivery 1).stateOf 7 := by rw [stateOf, hs, Option.getD_some]
  refine ⟨s, hs, by decide +kernel, by decide +kernel, ?_⟩
  rw [hof]
  decide +kernel

end Engine
end CyberSentinel.Detect
