import CyberSentinel.Alerts

/-!
# What an inspection does to a flow's state

The state of the inspected flow after a call is a function of the one before: its window takes in
the delivered bytes, its HTTP parser reads them, and the rules that match write their bits, all of
them judged by the bits from before. A table with room for one more flow comes to exactly that;
nothing else in it changes and nothing is evicted.
-/

namespace CyberSentinel.Detect

open Rules Tables

variable {R : Regex} {A : AhoCorasick}

/-- The operations of the rules that match, in the order of the rules. -/
def writes (rules : List (CompiledRule R)) (input : MatchInput) (bits : FlowBits) :
    List FlowBitsOp :=
  rules.flatMap fun rule => (evaluate rule input bits).elim [] MatchOutcome.sideEffects

theorem hit_pending (t : Tally) (limits : EngineLimits) (tuple : NetTuple) (now : Instant)
    (rule : CompiledRule R) (outcome : MatchOutcome) :
    (t.hit limits tuple now rule outcome).pending = t.pending ++ outcome.sideEffects := by
  simp only [Tally.hit]
  split_ifs <;> rfl

theorem judge_pending (limits : EngineLimits) (input : MatchInput) (now : Instant) (bits : FlowBits)
    (t : Tally) (rule : CompiledRule R) :
    (Tally.judge limits input now bits t rule).pending =
      t.pending ++ (evaluate rule input bits).elim [] MatchOutcome.sideEffects := by
  rw [Tally.judge]
  cases evaluate rule input bits with
  | none => exact (List.append_nil _).symm
  | some outcome => exact hit_pending ..

theorem foldl_judge_pending (limits : EngineLimits) (input : MatchInput) (now : Instant)
    (bits : FlowBits) (rules : List (CompiledRule R)) (t : Tally) :
    (rules.foldl (Tally.judge limits input now bits) t).pending =
      t.pending ++ writes rules input bits := by
  induction rules generalizing t with
  | nil => exact (List.append_nil _).symm
  | cons rule rest ih =>
    rw [List.foldl_cons, ih, judge_pending, List.append_assoc, writes, writes, List.flatMap_cons]

/-- A flow's state after operations on its bits. Without any it keeps its age too. -/
def FlowState.written (s : FlowState) (limit : ℕ) (now : Instant) (ops : List FlowBitsOp) :
    FlowState :=
  if ops = [] then s else { s with lastSeen := now, bits := (s.bits.applyAll limit ops).1 }

def Call.inspects : Call → Option UInt64
  | .packet _ flowId _ _ _ _ => some flowId
  | .stream _ flowId _ _ _ _ => some flowId
  | .flowEnd _ => none

namespace Engine

def inspectedState (e : Engine R A) (tuple : NetTuple) (toServer established : Bool)
    (shape : Inspected) (timestamp : Instant) (s : FlowState) : FlowState :=
  s.written e.limits.maxFlowbitsPerFlow timestamp
    (writes e.ruleset.rules ⟨tuple, established, toServer, shape.buffers⟩ s.bits)

def requestShape (request : HttpRequest) : Inspected :=
  .http (some request.uri) (some request.headers) request.userAgent (some request.method)
    request.host request.normalization

def extendedState (e : Engine R A) (toServer : Bool) (delivered : List UInt8) (timestamp : Instant)
    (s : FlowState) : FlowState × List UInt8 :=
  let appended := (s.direction toServer).append delivered (e.longestPattern - 1)
    e.limits.inspectionWindow
  ({ s with lastSeen := timestamp }.setDirection toServer appended.buffer,
    appended.buffer.data.drop appended.start)

/-- The state after the parser has read the bytes and the heads it completed are inspected. -/
def httpState (e : Engine R A) (tuple : NetTuple) (delivered : List UInt8) (timestamp : Instant)
    (s : FlowState) : FlowState :=
  let pushed := (s.http.getD (HttpParser.new e.limits.maxHttpHead)).push delivered
    e.limits.normalize
  pushed.2.foldl (fun s request =>
    e.inspectedState tuple true true (requestShape request) timestamp s)
    { s with http := some pushed.1 }

def effect (e : Engine R A) (s : FlowState) : Call → FlowState
  | .packet _ _ tuple toServer payload timestamp =>
    e.inspectedState tuple toServer false (.payload payload) timestamp s
  | .stream _ _ tuple toServer delivered timestamp =>
    if delivered = [] then s
    else
      let extended := e.extendedState toServer delivered timestamp s
      let scanned := e.inspectedState tuple toServer true (.payload extended.2) timestamp extended.1
      if toServer && e.ruleset.needsHttp then e.httpState tuple delivered timestamp scanned
      else scanned
  | .flowEnd _ => s

/-- The call left the flow this state, every other flow its own, and evicted none. -/
structure Leaves (e : Engine R A) (flowId : UInt64) (s : FlowState) (r : Engine R A × Output) :
    Prop where
  own : r.1.states.lookup flowId = some s
  others : ∀ g, g ≠ flowId → r.1.states.lookup g = e.states.lookup g
  evicted : r.2.evicted = []

theorem Leaves.size {e : Engine R A} {flowId : UInt64} {s : FlowState} {r : Engine R A × Output}
    (h : e.Leaves flowId s r) (hmem : flowId ∈ e.states) :
    Tables.size r.1.states = Tables.size e.states := by
  refine size_eq_of_mem_iff fun g => ?_
  by_cases hg : g = flowId
  · subst hg
    rw [← AList.lookup_isSome, h.own]
    exact ⟨fun _ => hmem, fun _ => rfl⟩
  · rw [← AList.lookup_isSome, ← AList.lookup_isSome, h.others g hg]

theorem Leaves.andThen {e : Engine R A} {flowId : UInt64} {s s' : FlowState}
    {r r' : Engine R A × Output} (h : e.Leaves flowId s r) (h' : r.1.Leaves flowId s' r') :
    e.Leaves flowId s' (r'.1, r.2.andThen r'.2) where
  own := h'.own
  others g hg := (h'.others g hg).trans (h.others g hg)
  evicted := by rw [Output.andThen, h.evicted, h'.evicted, List.append_nil]

theorem lookup_setState (e : Engine R A) (flowId g : UInt64) (s : FlowState) :
    (e.setState flowId s).states.lookup g = if g = flowId then some s else e.states.lookup g := by
  rw [setState]
  split_ifs with h
  · rw [h, AList.lookup_insert]
  · rw [AList.lookup_insert_ne h]

theorem setState_leaves (e : Engine R A) (flowId : UInt64) (s : FlowState) :
    e.Leaves flowId s (e.setState flowId s, {}) where
  own := by rw [lookup_setState, if_pos rfl]
  others g hg := by rw [lookup_setState, if_neg hg]
  evicted := rfl

theorem makeRoom_of_room {e : Engine R A} (h : Tables.size e.states < e.limits.maxFlowStates)
    (order : HashOrder UInt64) : e.makeRoom order = (e, []) := if_pos h

section Room

variable {e : Engine R A} {flowId : UInt64} {s : FlowState}

theorem applyPending_leaves (hstate : e.states.lookup flowId = some s) (order : HashOrder UInt64)
    (timestamp : Instant) (pending : List FlowBitsOp)
    (hroom : pending ≠ [] → Tables.size e.states < e.limits.maxFlowStates) :
    e.Leaves flowId (s.written e.limits.maxFlowbitsPerFlow timestamp pending)
      (e.applyPending order flowId timestamp pending) := by
  rw [applyPending, FlowState.written]
  split_ifs with hpending
  · exact ⟨hstate, fun g _ => rfl, rfl⟩
  · have hof : e.stateOf flowId = s := by rw [stateOf, hstate, Option.getD_some]
    rw [makeRoom_of_room (hroom hpending)]
    dsimp only
    rw [hof]
    have hset := e.setState_leaves flowId
      { s with lastSeen := timestamp, bits := (s.bits.applyAll e.limits.maxFlowbitsPerFlow
      pending).1 }
    exact ⟨hset.own, hset.others, rfl⟩

variable {resolve : HeaderResolver} {limits : CompileLimits} {rules : List Rule}

/-- Inspecting concludes with the operations of the rules that match. -/
theorem inspectBuffers_judged (he : e.Armed resolve limits rules) (order : HashOrder UInt64)
    (flowId : UInt64) (tuple : NetTuple) (toServer established : Bool) (shape : Inspected)
    (timestamp : Instant) :
    ∃ judged : Tally,
      judged.pending =
        writes e.ruleset.rules ⟨tuple, established, toServer, shape.buffers⟩
          (e.stateOf flowId).bits ∧
      e.inspectBuffers order flowId tuple toServer established shape.buffers shape.prefilterBuffers
        timestamp = e.conclude order flowId timestamp judged :=
  ⟨_, (foldl_judge_pending ..).trans (List.nil_append _),
    inspectBuffers_eq e he order flowId tuple toServer established shape timestamp⟩

theorem inspectBuffers_leaves (he : e.Armed resolve limits rules)
    (hstate : e.states.lookup flowId = some s) (order : HashOrder UInt64) (tuple : NetTuple)
    (toServer established : Bool) (shape : Inspected) (timestamp : Instant)
    (hroom : writes e.ruleset.rules ⟨tuple, established, toServer, shape.buffers⟩ s.bits ≠ [] →
      Tables.size e.states < e.limits.maxFlowStates) :
    e.Leaves flowId (e.inspectedState tuple toServer established shape timestamp s)
      (e.inspectBuffers order flowId tuple toServer established shape.buffers shape.prefilterBuffers
        timestamp) := by
  have hof : e.stateOf flowId = s := by rw [stateOf, hstate, Option.getD_some]
  obtain ⟨judged, hpending, hjudged⟩ := inspectBuffers_judged he order flowId tuple toServer
    established shape timestamp
  rw [hof] at hpending
  rw [hjudged, inspectedState, ← hpending]
  have hleft := applyPending_leaves
    (e := { e with thresholds := judged.thresholds, counters := judged.counters }) hstate order
    timestamp judged.pending (hpending ▸ hroom)
  exact ⟨hleft.own, hleft.others, hleft.evicted⟩

theorem inspectedState_of_params {e' : Engine R A} (h : e'.params = e.params) (tuple : NetTuple)
    (toServer established : Bool) (shape : Inspected) (timestamp : Instant) (s : FlowState) :
    e'.inspectedState tuple toServer established shape timestamp s =
      e.inspectedState tuple toServer established shape timestamp s := by
  rw [inspectedState, inspectedState, limits_of_params h, ruleset_of_params h]

theorem inspectRequests_leaves (he : e.Armed resolve limits rules)
    (hroom : Tables.size e.states < e.limits.maxFlowStates)
    (hstate : e.states.lookup flowId = some s) (order : HashOrder UInt64) (tuple : NetTuple)
    (timestamp : Instant) (requests : List HttpRequest) :
    e.Leaves flowId
      (requests.foldl (fun s request =>
        e.inspectedState tuple true true (requestShape request) timestamp s) s)
      (inspectRequests order flowId tuple timestamp e requests) := by
  induction requests generalizing e s with
  | nil => exact ⟨hstate, fun g _ => rfl, rfl⟩
  | cons request rest ih =>
    have hfirst := inspectBuffers_leaves he hstate order tuple true true (requestShape request)
      timestamp fun _ => hroom
    have hparams := inspectBuffers_params e order flowId tuple true true
      (requestShape request).buffers
      (requestShape request).prefilterBuffers timestamp
    have hsize := hfirst.size (AList.lookup_isSome.1 (by rw [hstate]; rfl))
    have hrest := ih (he.of_params hparams) (by rwa [hsize, limits_of_params hparams]) hfirst.own
    simp only [inspectedState_of_params hparams] at hrest
    exact hfirst.andThen hrest

theorem inspectHttp_leaves (he : e.Armed resolve limits rules)
    (hroom : Tables.size e.states < e.limits.maxFlowStates)
    (hstate : e.states.lookup flowId = some s) (order : HashOrder UInt64) (tuple : NetTuple)
    (delivered : List UInt8) (timestamp : Instant) :
    e.Leaves flowId (e.httpState tuple delivered timestamp s)
      (e.inspectHttp order flowId tuple delivered timestamp) := by
  rw [inspectHttp, hstate, httpState]
  dsimp only
  generalize (s.http.getD (HttpParser.new e.limits.maxHttpHead)).push delivered
    e.limits.normalize = pushed
  have hset := e.setState_leaves flowId { s with http := some pushed.1 }
  have hsize := hset.size (AList.lookup_isSome.1 (by rw [hstate]; rfl))
  have hrequests := inspectRequests_leaves (e := e.setState flowId { s with http := some pushed.1 })
    (he.of_params rfl) (by rw [hsize]; exact hroom) hset.own order tuple timestamp pushed.2
  exact ⟨hrequests.own, fun g hg => (hrequests.others g hg).trans (hset.others g hg),
    hrequests.evicted⟩

theorem payloadPass_leaves (he : e.Armed resolve limits rules)
    (hroom : Tables.size e.states < e.limits.maxFlowStates)
    (hstate : e.states.lookup flowId = some s) (order : HashOrder UInt64) (tuple : NetTuple)
    (toServer : Bool) (delivered : List UInt8) (timestamp : Instant) :
    let extended := e.extendedState toServer delivered timestamp s
    e.Leaves flowId (e.inspectedState tuple toServer true
      (.payload extended.2) timestamp extended.1)
      (e.payloadPass order flowId tuple toServer delivered timestamp) := by
  intro extended
  have hof : e.stateOf flowId = s := by rw [stateOf, hstate, Option.getD_some]
  have hwindow : e.extendWindow flowId toServer delivered timestamp =
      ({ e.setState flowId extended.1 with
          counters := (e.extendWindow flowId toServer delivered timestamp).1.counters },
        ⟨extended.2, (e.extendWindow flowId toServer delivered timestamp).2.dropped⟩) := by
    rw [extendWindow, hof]
    rfl
  rw [payloadPass, makeRoom_of_room hroom]
  dsimp only
  generalize hextended : e.extendWindow flowId toServer delivered timestamp = window at hwindow ⊢
  have hstates : window.1.states = (e.setState flowId extended.1).states := by rw [hwindow]
  have hregion : window.2.region = extended.2 := by rw [hwindow]
  have hparams : window.1.params = e.params := by rw [hwindow]; rfl
  have hset := e.setState_leaves flowId extended.1
  have hsize := hset.size (AList.lookup_isSome.1 (by rw [hstate]; rfl))
  have hscan := inspectBuffers_leaves (he.of_params hparams) (by rw [hstates]; exact hset.own) order
    tuple toServer true (.payload window.2.region) timestamp
    fun _ => by rw [hstates, hsize, limits_of_params hparams]; exact hroom
  rw [inspectedState_of_params hparams] at hscan
  rw [hregion] at hscan ⊢
  exact ⟨hscan.own, fun g hg => (hscan.others g hg).trans (by rw [hstates]; exact hset.others g hg),
    hscan.evicted⟩

theorem httpState_of_params {e' : Engine R A} (h : e'.params = e.params) (tuple : NetTuple)
    (delivered : List UInt8) (timestamp : Instant) (s : FlowState) :
    e'.httpState tuple delivered timestamp s = e.httpState tuple delivered timestamp s := by
  simp only [httpState, inspectedState_of_params h, limits_of_params h]

theorem inspectStream_leaves (he : e.Armed resolve limits rules)
    (hroom : Tables.size e.states < e.limits.maxFlowStates)
    (hstate : e.states.lookup flowId = some s) (order : HashOrder UInt64) (tuple : NetTuple)
    (toServer : Bool) (delivered : List UInt8) (timestamp : Instant) (hne : delivered ≠ []) :
    e.Leaves flowId (e.effect s (.stream order flowId tuple toServer delivered timestamp))
      (e.inspectStream order flowId tuple toServer delivered timestamp) := by
  have hpass := payloadPass_leaves he hroom hstate order tuple toServer delivered timestamp
  rw [effect, if_neg hne]
  split_ifs with hhttp
  · have hparams := payloadPass_params e order flowId tuple toServer delivered timestamp
    have hsize := hpass.size (AList.lookup_isSome.1 (by rw [hstate]; rfl))
    have hrequests := inspectHttp_leaves (he.of_params hparams)
      (by rw [hsize, limits_of_params hparams]; exact hroom) hpass.own order tuple
      delivered timestamp
    rw [httpState_of_params hparams] at hrequests
    rw [inspectStream_of_http e order flowId tuple timestamp hne hhttp]
    exact hpass.andThen hrequests
  · rw [inspectStream_of_not_http e order flowId tuple timestamp hne hhttp]
    exact hpass

/-- The call asks for room in the table: a delivery always does, a packet if it makes rules write.
-/
def MakesRoom (e : Engine R A) : Call → Prop
  | .packet _ flowId tuple toServer payload _ =>
    writes e.ruleset.rules ⟨tuple, false, toServer, { payload }⟩ (e.stateOf flowId).bits ≠ []
  | .stream _ _ _ _ delivered _ => delivered ≠ []
  | .flowEnd _ => False

theorem step_leaves (he : e.Armed resolve limits rules) (hstate : e.states.lookup flowId = some s)
    {call : Call} (hcall : call.inspects = some flowId)
    (hroom : e.MakesRoom call → Tables.size e.states < e.limits.maxFlowStates) :
    e.Leaves flowId (e.effect s call) (e.step call) := by
  cases call with
  | flowEnd g => exact absurd hcall (by simp [Call.inspects])
  | packet order g tuple toServer payload timestamp =>
    obtain rfl : g = flowId := Option.some.inj hcall
    have hof : e.stateOf g = s := by rw [stateOf, hstate, Option.getD_some]
    rw [MakesRoom, hof] at hroom
    exact inspectBuffers_leaves he hstate order tuple toServer false
      (.payload payload) timestamp hroom
  | stream order g tuple toServer delivered timestamp =>
    obtain rfl : g = flowId := Option.some.inj hcall
    by_cases hne : delivered = []
    · rw [effect, if_pos hne, step, inspectStream, if_pos hne]
      exact ⟨hstate, fun h _ => rfl, rfl⟩
    · exact inspectStream_leaves he (hroom hne) hstate order tuple toServer delivered timestamp hne

end Room

end Engine
end CyberSentinel.Detect
