import CyberSentinel.Engine
import CyberSentinel.Runs

/-!
# What a run leaves alone

The rule set, the limits and the overlap of an engine never change. A flow's inspection window
changes only by deliveries of that flow and direction, as long as the flow's state is neither
evicted nor dropped at the flow's end; between two deliveries it is the window of the stream
delivered so far.
-/

namespace CyberSentinel.Detect

open Rules Tables

variable {R : Regex} {A : AhoCorasick}

namespace Engine

def params (e : Engine R A) : CompiledRuleset R A × EngineLimits × ℕ :=
  (e.ruleset, e.limits, e.longestPattern)

theorem ruleset_of_params {e e' : Engine R A} (h : e'.params = e.params) : e'.ruleset = e.ruleset :=
  congrArg Prod.fst h

theorem limits_of_params {e e' : Engine R A} (h : e'.params = e.params) : e'.limits = e.limits :=
  congrArg (fun p => p.2.1) h

theorem longestPattern_of_params {e e' : Engine R A} (h : e'.params = e.params) :
    e'.longestPattern = e.longestPattern := congrArg (fun p => p.2.2) h

@[simp] theorem setState_params (e : Engine R A) (flowId : UInt64) (s : FlowState) :
    (e.setState flowId s).params = e.params := rfl

@[simp] theorem makeRoom_params (e : Engine R A) (order : HashOrder UInt64) :
    (e.makeRoom order).1.params = e.params := by
  unfold makeRoom
  split_ifs <;> rfl

@[simp] theorem applyPending_params (e : Engine R A) (order : HashOrder UInt64) (flowId : UInt64)
    (timestamp : Instant) (pending : List FlowBitsOp) :
    (e.applyPending order flowId timestamp pending).1.params = e.params := by
  unfold applyPending
  split_ifs
  · rfl
  · exact (setState_params _ _ _).trans (makeRoom_params e order)

@[simp] theorem inspectBuffers_params (e : Engine R A) (order : HashOrder UInt64) (flowId : UInt64)
    (tuple : NetTuple) (toServer established : Bool) (buffers : Buffers) (prefilter : List Buffer)
    (timestamp : Instant) :
    (e.inspectBuffers order flowId tuple toServer established buffers prefilter
    timestamp).1.params =
      e.params :=
  applyPending_params _ order flowId timestamp _

@[simp] theorem inspectRequests_params (order : HashOrder UInt64) (flowId : UInt64)
    (tuple : NetTuple)
    (timestamp : Instant) (e : Engine R A) (requests : List HttpRequest) :
    (inspectRequests order flowId tuple timestamp e requests).1.params = e.params := by
  induction requests generalizing e with
  | nil => rfl
  | cons request rest ih => exact (ih _).trans (inspectBuffers_params ..)

@[simp] theorem inspectHttp_params (e : Engine R A) (order : HashOrder UInt64) (flowId : UInt64)
    (tuple : NetTuple) (delivered : List UInt8) (timestamp : Instant) :
    (e.inspectHttp order flowId tuple delivered timestamp).1.params = e.params := by
  unfold inspectHttp
  cases e.states.lookup flowId with
  | none => rfl
  | some state => exact (inspectRequests_params ..).trans (setState_params ..)

@[simp] theorem extendWindow_params (e : Engine R A) (flowId : UInt64) (toServer : Bool)
    (delivered : List UInt8) (timestamp : Instant) :
    (e.extendWindow flowId toServer delivered timestamp).1.params = e.params := rfl

theorem inspectStream_params (e : Engine R A) (order : HashOrder UInt64) (flowId : UInt64)
    (tuple : NetTuple) (toServer : Bool) (delivered : List UInt8) (timestamp : Instant) :
    (e.inspectStream order flowId tuple toServer delivered timestamp).1.params = e.params := by
  unfold inspectStream
  split_ifs <;> simp

theorem step_params (e : Engine R A) (call : Call) : (e.step call).1.params = e.params := by
  cases call with
  | packet order flowId tuple toServer payload timestamp => exact inspectBuffers_params ..
  | stream order flowId tuple toServer delivered timestamp => exact inspectStream_params ..
  | flowEnd flowId => rfl

theorem run_params (e : Engine R A) (calls : List Call) :
    (Runs.run Engine.step e calls).1.params = e.params :=
  Runs.invariant Engine.step (fun e' => e'.params = e.params)
    (fun e' call h => (step_params e' call).trans h) rfl calls

theorem direction_setDirection (s : FlowState) (d d' : Bool) (b : InspectionBuffer) :
    (s.setDirection d b).direction d' = if d' = d then b else s.direction d' := by
  cases d <;> cases d' <;> rfl

def windowOf (e : Engine R A) (flowId : UInt64) (toServer : Bool) : InspectionBuffer :=
  (e.stateOf flowId).direction toServer

theorem stateOf_setState (e : Engine R A) (flowId g : UInt64) (s : FlowState) :
    (e.setState g s).stateOf flowId = if flowId = g then s else e.stateOf flowId := by
  unfold setState stateOf
  split_ifs with h
  · subst h
    rw [AList.lookup_insert, Option.getD_some]
  · rw [AList.lookup_insert_ne h]

theorem lookup_foldl_erase {ν : Type*} (ids : List UInt64) (states : Table UInt64 ν)
    {flowId : UInt64} (h : flowId ∉ ids) :
    (ids.foldl (fun states id => states.erase id) states).lookup flowId = states.lookup flowId := by
  induction ids generalizing states with
  | nil => rfl
  | cons id rest ih =>
    rw [List.foldl_cons, ih _ (fun hmem => h (List.mem_cons_of_mem _ hmem)),
      AList.lookup_erase_ne (fun heq => h (by simp [heq]))]

theorem makeRoom_lookup (e : Engine R A) (order : HashOrder UInt64) {flowId : UInt64}
    (h : flowId ∉ (e.makeRoom order).2) :
    (e.makeRoom order).1.states.lookup flowId = e.states.lookup flowId := by
  unfold makeRoom at h ⊢
  split_ifs with hroom
  · rfl
  · rw [if_neg hroom] at h
    exact lookup_foldl_erase _ _ h

theorem makeRoom_stateOf (e : Engine R A) (order : HashOrder UInt64) {flowId : UInt64}
    (h : flowId ∉ (e.makeRoom order).2) :
    (e.makeRoom order).1.stateOf flowId = e.stateOf flowId := by
  rw [stateOf, makeRoom_lookup e order h, stateOf]

/-- A flow's state but for its bits and its age: what deliveries build up. -/
def contextOf (e : Engine R A) (flowId : UInt64) : FlowState :=
  { e.stateOf flowId with bits := {}, lastSeen := 0 }

theorem windowOf_eq_contextOf (e : Engine R A) (flowId : UInt64) (toServer : Bool) :
    e.windowOf flowId toServer = (e.contextOf flowId).direction toServer := by
  cases toServer <;> rfl

def parserOf (e : Engine R A) (flowId : UInt64) : HttpParser :=
  (e.contextOf flowId).http.getD (HttpParser.new e.limits.maxHttpHead)

theorem applyPending_contextOf (e : Engine R A) (order : HashOrder UInt64) (g : UInt64)
    (timestamp : Instant) (pending : List FlowBitsOp) {flowId : UInt64}
    (h : flowId ∉ (e.applyPending order g timestamp pending).2.evicted) :
    (e.applyPending order g timestamp pending).1.contextOf flowId = e.contextOf flowId := by
  unfold applyPending at h ⊢
  split_ifs with hpending
  · rfl
  · rw [if_neg hpending] at h
    have hroom := makeRoom_stateOf e order h
    simp only [contextOf, stateOf_setState]
    split_ifs with hflow
    · subst hflow
      rw [hroom]
    · rw [hroom]

theorem applyPending_mem (e : Engine R A) (order : HashOrder UInt64) (g : UInt64)
    (timestamp : Instant) (pending : List FlowBitsOp) {flowId : UInt64}
    (h : flowId ∉ (e.applyPending order g timestamp pending).2.evicted) (hmem : flowId ∈ e.states) :
    flowId ∈ (e.applyPending order g timestamp pending).1.states := by
  unfold applyPending at h ⊢
  split_ifs with hpending
  · exact hmem
  · rw [if_neg hpending] at h
    rw [← AList.lookup_isSome, ← makeRoom_lookup e order h, AList.lookup_isSome] at hmem
    exact (AList.mem_insert _).2 (Or.inr hmem)

theorem inspectBuffers_contextOf (e : Engine R A) (order : HashOrder UInt64) (g : UInt64)
    (tuple : NetTuple) (toServer established : Bool) (buffers : Buffers) (prefilter : List Buffer)
    (timestamp : Instant) {flowId : UInt64}
    (h : flowId ∉ (e.inspectBuffers order g tuple toServer established buffers prefilter
      timestamp).2.evicted) :
    (e.inspectBuffers order g tuple toServer established buffers prefilter timestamp).1.contextOf
      flowId = e.contextOf flowId :=
  applyPending_contextOf _ order g timestamp _ h

theorem inspectRequests_contextOf (order : HashOrder UInt64) (g : UInt64) (tuple : NetTuple)
    (timestamp : Instant) (e : Engine R A) (requests : List HttpRequest) {flowId : UInt64}
    (h : flowId ∉ (inspectRequests order g tuple timestamp e requests).2.evicted) :
    (inspectRequests order g tuple timestamp e requests).1.contextOf flowId =
      e.contextOf flowId := by
  induction requests generalizing e with
  | nil => rfl
  | cons request rest ih =>
    obtain ⟨hfirst, hrest⟩ := not_or.1 (fun hmem => h (List.mem_append.2 hmem))
    exact (ih _ hrest).trans (inspectBuffers_contextOf e order g tuple true true _ _ timestamp
      hfirst)

/-- For a flow the table has, the HTTP pass moves the parser on and leaves the rest. -/
theorem inspectHttp_eq (e : Engine R A) (order : HashOrder UInt64) (g : UInt64) (tuple : NetTuple)
    (delivered : List UInt8) (timestamp : Instant) (hmem : g ∈ e.states) :
    e.inspectHttp order g tuple delivered timestamp =
      inspectRequests order g tuple timestamp
        (e.setState g { e.stateOf g with
          http := some ((e.parserOf g).push delivered e.limits.normalize).1 })
        ((e.parserOf g).push delivered e.limits.normalize).2 := by
  obtain ⟨state, hstate⟩ := Option.isSome_iff_exists.1 (AList.lookup_isSome.2 hmem)
  have hof : e.stateOf g = state := by rw [stateOf, hstate, Option.getD_some]
  simp only [inspectHttp, hstate, parserOf, contextOf, hof]

theorem inspectHttp_contextOf (e : Engine R A) (order : HashOrder UInt64) (g : UInt64)
    (tuple : NetTuple) (delivered : List UInt8) (timestamp : Instant) {flowId : UInt64}
    (hmem : flowId = g → g ∈ e.states)
    (h : flowId ∉ (e.inspectHttp order g tuple delivered timestamp).2.evicted) :
    (e.inspectHttp order g tuple delivered timestamp).1.contextOf flowId =
      if flowId = g then
        { e.contextOf flowId with
          http := some ((e.parserOf flowId).push delivered e.limits.normalize).1 }
      else e.contextOf flowId := by
  by_cases htable : g ∈ e.states
  · rw [inspectHttp_eq e order g tuple delivered timestamp htable] at h ⊢
    rw [inspectRequests_contextOf order g tuple timestamp _ _ h]
    simp only [contextOf, stateOf_setState]
    split_ifs with hflow
    · subst hflow
      rfl
    · rfl
  · rw [if_neg (fun hflow => htable (hmem hflow))]
    simp only [inspectHttp, AList.lookup_eq_none.2 htable]

/-- A flow's context after a delivery of which only the window takes notice. -/
def extendedContext (e : Engine R A) (flowId : UInt64) (toServer : Bool) (delivered : List UInt8) :
    FlowState :=
  (e.contextOf flowId).setDirection toServer
    ((e.windowOf flowId toServer).append delivered (e.longestPattern - 1)
      e.limits.inspectionWindow).buffer

theorem extendWindow_contextOf (e : Engine R A) (g : UInt64) (toServer : Bool)
    (delivered : List UInt8) (timestamp : Instant) (flowId : UInt64) :
    (e.extendWindow g toServer delivered timestamp).1.contextOf flowId =
      if flowId = g then e.extendedContext flowId toServer delivered else e.contextOf flowId := by
  change { (e.setState g _).stateOf flowId with bits := {}, lastSeen := 0 } = _
  rw [stateOf_setState]
  by_cases hflow : flowId = g
  · subst hflow
    rw [if_pos rfl, if_pos rfl]
    cases toServer <;> rfl
  · rw [if_neg hflow, if_neg hflow]
    rfl

/-- The first part of a delivery: the window is extended and the region inspected. -/
def payloadPass (e : Engine R A) (order : HashOrder UInt64) (flowId : UInt64) (tuple : NetTuple)
    (toServer : Bool) (delivered : List UInt8) (timestamp : Instant) : Engine R A × Output :=
  let room := e.makeRoom order
  let extended := room.1.extendWindow flowId toServer delivered timestamp
  let scanned := extended.1.inspectBuffers order flowId tuple toServer true
    { payload := extended.2.region } [.payload] timestamp
  (scanned.1, Output.andThen { evicted := room.2, scan := some extended.2 } scanned.2)

theorem inspectStream_of_http (e : Engine R A) (order : HashOrder UInt64) (flowId : UInt64)
    (tuple : NetTuple) {toServer : Bool} {delivered : List UInt8} (timestamp : Instant)
    (hne : delivered ≠ []) (hhttp : (toServer && e.ruleset.needsHttp) = true) :
    e.inspectStream order flowId tuple toServer delivered timestamp =
      (((e.payloadPass order flowId tuple toServer delivered timestamp).1.inspectHttp order flowId
          tuple delivered timestamp).1,
        (e.payloadPass order flowId tuple toServer delivered timestamp).2.andThen
          ((e.payloadPass order flowId tuple toServer delivered timestamp).1.inspectHttp
          order flowId
            tuple delivered timestamp).2) := by
  simp only [inspectStream, if_neg hne, if_pos hhttp, payloadPass]

theorem inspectStream_of_not_http (e : Engine R A) (order : HashOrder UInt64) (flowId : UInt64)
    (tuple : NetTuple) {toServer : Bool} {delivered : List UInt8} (timestamp : Instant)
    (hne : delivered ≠ []) (hhttp : ¬ (toServer && e.ruleset.needsHttp) = true) :
    e.inspectStream order flowId tuple toServer delivered timestamp =
      e.payloadPass order flowId tuple toServer delivered timestamp := by
  simp only [inspectStream, if_neg hne, if_neg hhttp, payloadPass]

@[simp] theorem payloadPass_params (e : Engine R A) (order : HashOrder UInt64) (flowId : UInt64)
    (tuple : NetTuple) (toServer : Bool) (delivered : List UInt8) (timestamp : Instant) :
    (e.payloadPass order flowId tuple toServer delivered timestamp).1.params = e.params :=
  (inspectBuffers_params ..).trans ((extendWindow_params ..).trans (makeRoom_params ..))

section PayloadPass

variable (e : Engine R A) (order : HashOrder UInt64) (g : UInt64) (tuple : NetTuple)
  (toServer : Bool) (delivered : List UInt8) (timestamp : Instant)

theorem payloadPass_contextOf {flowId : UInt64}
    (h : flowId ∉ (e.payloadPass order g tuple toServer delivered timestamp).2.evicted) :
    (e.payloadPass order g tuple toServer delivered timestamp).1.contextOf flowId =
      if flowId = g then e.extendedContext flowId toServer delivered else e.contextOf flowId := by
  obtain ⟨hroom, hscan⟩ := not_or.1 (fun hmem => h (List.mem_append.2 hmem))
  have hstate := makeRoom_stateOf e order hroom
  have hlimits := limits_of_params (makeRoom_params e order)
  have hlongest := longestPattern_of_params (makeRoom_params e order)
  simp only [payloadPass]
  rw [inspectBuffers_contextOf _ order g tuple toServer true _ _ timestamp hscan,
    extendWindow_contextOf]
  simp only [extendedContext, contextOf, windowOf, hstate, hlimits, hlongest]

theorem payloadPass_mem
    (h : g ∉ (e.payloadPass order g tuple toServer delivered timestamp).2.evicted) :
    g ∈ (e.payloadPass order g tuple toServer delivered timestamp).1.states := by
  obtain ⟨_, hscan⟩ := not_or.1 (fun hmem => h (List.mem_append.2 hmem))
  exact applyPending_mem _ order g timestamp _ hscan ((AList.mem_insert _).2 (Or.inl rfl))

theorem inspectStream_contextOf {flowId : UInt64} (hne : delivered ≠ [])
    (h : flowId ∉ (e.inspectStream order g tuple toServer delivered timestamp).2.evicted) :
    (e.inspectStream order g tuple toServer delivered timestamp).1.contextOf flowId =
      if flowId = g then
        if toServer && e.ruleset.needsHttp then
          { e.extendedContext flowId toServer delivered with
            http := some ((e.parserOf flowId).push delivered e.limits.normalize).1 }
        else e.extendedContext flowId toServer delivered
      else e.contextOf flowId := by
  by_cases hhttp : (toServer && e.ruleset.needsHttp) = true
  · rw [inspectStream_of_http e order g tuple timestamp hne hhttp] at h ⊢
    obtain ⟨hpass, hrequests⟩ := not_or.1 (fun hmem => h (List.mem_append.2 hmem))
    have hcontext := payloadPass_contextOf e order g tuple toServer delivered timestamp hpass
    have hlimits := limits_of_params
      (payloadPass_params e order g tuple toServer delivered timestamp)
    simp only
    have htable (hflow : flowId = g) :
        g ∈ (e.payloadPass order g tuple toServer delivered timestamp).1.states :=
      payloadPass_mem e order g tuple toServer delivered timestamp (by rwa [hflow] at hpass)
    rw [inspectHttp_contextOf _ order g tuple delivered timestamp htable hrequests]
    simp only [parserOf, hcontext, hlimits, if_pos hhttp]
    by_cases hflow : flowId = g
    · simp only [if_pos hflow]
      cases toServer <;> rfl
    · simp only [if_neg hflow]
  · rw [inspectStream_of_not_http e order g tuple timestamp hne hhttp] at h ⊢
    rw [payloadPass_contextOf e order g tuple toServer delivered timestamp h, if_neg hhttp]

end PayloadPass

/-- Every way in which the engine changes the flow states keeps the property: a state is written
once there is room for it, a parser that has read on is put back, and a state is dropped. -/
structure Preserved (P : Engine R A → Prop) : Prop where
  tally : ∀ e thresholds counters, P e → P { e with thresholds := thresholds, counters := counters }
  write : ∀ e order flowId s ops, P e →
    s.bits = (((e.makeRoom order).1.stateOf flowId).bits.applyAll
    e.limits.maxFlowbitsPerFlow ops).1 →
    P ((e.makeRoom order).1.setState flowId s)
  read : ∀ e flowId s parser, P e → e.states.lookup flowId = some s →
    P (e.setState flowId { s with http := some parser })
  erase : ∀ e flowId, P e → P (e.onFlowEnd flowId)

namespace Preserved

variable {P : Engine R A → Prop} {e : Engine R A}

theorem applyPending (h : Preserved P) (he : P e) (order : HashOrder UInt64) (flowId : UInt64)
    (timestamp : Instant) (pending : List FlowBitsOp) :
    P (e.applyPending order flowId timestamp pending).1 := by
  rw [Engine.applyPending]
  split_ifs
  · exact he
  · exact h.write e order flowId _ pending he rfl

theorem inspectBuffers (h : Preserved P) (he : P e) (order : HashOrder UInt64) (flowId : UInt64)
    (tuple : NetTuple) (toServer established : Bool) (buffers : Buffers) (prefilter : List Buffer)
    (timestamp : Instant) :
    P (e.inspectBuffers order flowId tuple toServer established buffers prefilter timestamp).1 :=
  h.applyPending (h.tally e _ _ he) order flowId timestamp _

theorem inspectRequests (h : Preserved P) (he : P e) (order : HashOrder UInt64) (flowId : UInt64)
    (tuple : NetTuple) (timestamp : Instant) (requests : List HttpRequest) :
    P (Engine.inspectRequests order flowId tuple timestamp e requests).1 := by
  induction requests generalizing e with
  | nil => exact he
  | cons request rest ih =>
    exact ih (h.inspectBuffers he order flowId tuple true true (requestBuffers request) httpBuffers
      timestamp)

theorem inspectHttp (h : Preserved P) (he : P e) (order : HashOrder UInt64) (flowId : UInt64)
    (tuple : NetTuple) (delivered : List UInt8) (timestamp : Instant) :
    P (e.inspectHttp order flowId tuple delivered timestamp).1 := by
  rw [Engine.inspectHttp]
  cases hstate : e.states.lookup flowId with
  | none => exact he
  | some s => exact h.inspectRequests (h.read e flowId s _ he hstate) order flowId tuple timestamp _

theorem payloadPass (h : Preserved P) (he : P e) (order : HashOrder UInt64) (flowId : UInt64)
    (tuple : NetTuple) (toServer : Bool) (delivered : List UInt8) (timestamp : Instant) :
    P (e.payloadPass order flowId tuple toServer delivered timestamp).1 := by
  have hextended : P ((e.makeRoom order).1.extendWindow flowId toServer delivered timestamp).1 := by
    refine h.tally _ _ _ (h.write e order flowId _ [] he ?_)
    cases toServer
    · rfl
    · rfl
  exact h.inspectBuffers hextended order flowId tuple toServer true _ _ timestamp

theorem inspectStream (h : Preserved P) (he : P e) (order : HashOrder UInt64) (flowId : UInt64)
    (tuple : NetTuple) (toServer : Bool) (delivered : List UInt8) (timestamp : Instant) :
    P (e.inspectStream order flowId tuple toServer delivered timestamp).1 := by
  by_cases hne : delivered = []
  · rw [Engine.inspectStream, if_pos hne]
    exact he
  have hpass := h.payloadPass he order flowId tuple toServer delivered timestamp
  by_cases hhttp : (toServer && e.ruleset.needsHttp) = true
  · rw [inspectStream_of_http e order flowId tuple timestamp hne hhttp]
    exact h.inspectHttp hpass order flowId tuple delivered timestamp
  · rw [inspectStream_of_not_http e order flowId tuple timestamp hne hhttp]
    exact hpass

theorem step (h : Preserved P) (he : P e) (call : Call) : P (e.step call).1 := by
  cases call with
  | packet order flowId tuple toServer payload timestamp =>
    exact h.inspectBuffers he order flowId tuple toServer false _ _ timestamp
  | stream order flowId tuple toServer delivered timestamp =>
    exact h.inspectStream he order flowId tuple toServer delivered timestamp
  | flowEnd flowId => exact h.erase e flowId he

theorem run (h : Preserved P) (he : P e) (calls : List Call) : P (Runs.run Engine.step e calls).1 :=
  Runs.invariant Engine.step P (fun _ call hp => h.step hp call) he calls

end Preserved

end Engine

def Call.delivery (flowId : UInt64) (toServer : Bool) : Call → List UInt8
  | .stream _ g _ d delivered _ => if flowId = g ∧ toServer = d then delivered else []
  | _ => []

def Call.Ends (flowId : UInt64) : Call → Prop
  | .flowEnd g => g = flowId
  | _ => False

/-- The call neither evicts the state of the flow nor ends the flow. -/
def Engine.KeepsFlow (flowId : UInt64) (e : Engine R A) (call : Call) : Prop :=
  flowId ∉ (e.step call).2.evicted ∧ ¬ call.Ends flowId

/-- The non-empty deliveries of a run to one direction of a flow, in order. -/
def deliveries (flowId : UInt64) (toServer : Bool) (calls : List Call) : List (List UInt8) :=
  (calls.map (Call.delivery flowId toServer)).filter (fun bytes => !bytes.isEmpty)

namespace Engine

theorem inspectStream_windowOf (e : Engine R A) (order : HashOrder UInt64) (g : UInt64)
    (tuple : NetTuple) (toServer : Bool) (delivered : List UInt8) (timestamp : Instant)
    {flowId : UInt64} (direction : Bool) (hne : delivered ≠ [])
    (h : flowId ∉ (e.inspectStream order g tuple toServer delivered timestamp).2.evicted) :
    (e.inspectStream order g tuple toServer delivered timestamp).1.windowOf flowId direction =
      if flowId = g ∧ direction = toServer then
        ((e.windowOf flowId direction).append delivered (e.longestPattern - 1)
          e.limits.inspectionWindow).buffer
      else e.windowOf flowId direction := by
  simp only [windowOf_eq_contextOf]
  rw [inspectStream_contextOf e order g tuple toServer delivered timestamp hne h]
  have hextended : (e.extendedContext flowId toServer delivered).direction direction =
      if direction = toServer then
        ((e.windowOf flowId direction).append delivered (e.longestPattern - 1)
          e.limits.inspectionWindow).buffer
      else e.windowOf flowId direction := by
    rw [extendedContext, direction_setDirection, ← windowOf_eq_contextOf]
    split_ifs with hdirection
    · rw [hdirection]
    · rfl
  have hparser (s : FlowState) (parser : Option HttpParser) :
      ({ s with http := parser } : FlowState).direction direction = s.direction direction := by
    cases direction <;> rfl
  by_cases hflow : flowId = g
  · rw [if_pos hflow]
    split_ifs <;> simp_all [windowOf_eq_contextOf]
  · rw [if_neg hflow, if_neg (fun hmine => hflow hmine.1)]

theorem step_windowOf (e : Engine R A) (call : Call) {flowId : UInt64} (toServer : Bool)
    (h : e.KeepsFlow flowId call) :
    (e.step call).1.windowOf flowId toServer =
      if call.delivery flowId toServer = [] then e.windowOf flowId toServer
      else ((e.windowOf flowId toServer).append (call.delivery flowId toServer)
        (e.longestPattern - 1) e.limits.inspectionWindow).buffer := by
  obtain ⟨hkept, hends⟩ := h
  cases call with
  | packet order g tuple d payload timestamp =>
    have hcontext := inspectBuffers_contextOf e order g tuple d false _ _ timestamp hkept
    rw [windowOf_eq_contextOf, windowOf_eq_contextOf]
    exact congrArg (fun s => FlowState.direction s toServer) hcontext
  | stream order g tuple d delivered timestamp =>
    by_cases hne : delivered = []
    · subst hne
      have hstep : (e.step (.stream order g tuple d [] timestamp)).1 = e := by
        simp [step, inspectStream]
      rw [hstep, if_pos (by simp [Call.delivery])]
    · have hwindow := inspectStream_windowOf e order g tuple d delivered timestamp
        toServer hne hkept
      simp only [step]
      rw [hwindow]
      by_cases hmine : flowId = g ∧ toServer = d
      · simp only [Call.delivery, if_pos hmine, if_neg hne]
      · simp only [Call.delivery, if_neg hmine, if_true]
  | flowEnd g =>
    have hflow : flowId ≠ g := fun heq => hends heq.symm
    simp only [step, Call.delivery, if_true, windowOf, stateOf, onFlowEnd]
    rw [AList.lookup_erase_ne hflow]

end Engine
end CyberSentinel.Detect
