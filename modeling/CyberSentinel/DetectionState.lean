import CyberSentinel.FlowAccounts
import CyberSentinel.FlowEnds
import CyberSentinel.FlowStates
import CyberSentinel.FlowbitOrder
import CyberSentinel.HttpStream

/-!
# What detection keeps

All that the engine keeps is chosen by whoever sends the traffic: how many flows there are, how many
bits the rules set on them, how much of a stream or of a request head arrives before it ends, and
how many addresses a threshold counts. Each has its cap, and no flow's state outlives the flow.
-/

namespace CyberSentinel.Detect

open Rules Tables

structure FlowState.Within (limits : EngineLimits) (s : FlowState) : Prop where
  bits : s.bits.bits.card ≤ limits.maxFlowbitsPerFlow
  window : ∀ toServer, (s.direction toServer).data.length ≤ limits.inspectionWindow
  head : ∀ parser ∈ s.http, parser.buffer.length ≤ parser.maxHead ∧
    parser.maxHead = max limits.maxHttpHead 64

def FlowState.held (s : FlowState) : ℕ :=
  s.toServer.data.length + s.toClient.data.length + s.http.elim 0 (fun parser =>
    parser.buffer.length)

def EngineLimits.heldPerFlow (limits : EngineLimits) : ℕ :=
  2 * limits.inspectionWindow + max limits.maxHttpHead 64

theorem FlowState.within_empty (limits : EngineLimits) : FlowState.Within limits {} := by
  refine ⟨Nat.zero_le _, fun toServer => ?_, fun parser hparser => nomatch hparser⟩
  cases toServer
  · exact Nat.zero_le _
  · exact Nat.zero_le _

theorem FlowState.Within.held_le {limits : EngineLimits} {s : FlowState} (h : s.Within limits) :
    s.held ≤ limits.heldPerFlow := by
  have hserver := h.window true
  have hclient := h.window false
  have hhead : s.http.elim 0 (fun parser => parser.buffer.length) ≤ max limits.maxHttpHead 64 := by
    cases hhttp : s.http with
    | none => exact Nat.zero_le _
    | some parser =>
      obtain ⟨hbuffer, hmax⟩ := h.head parser hhttp
      exact hbuffer.trans hmax.le
  simp only [FlowState.direction, if_true, Bool.false_eq_true, if_false] at hserver hclient
  unfold FlowState.held EngineLimits.heldPerFlow
  omega

theorem InspectionBuffer.length_append_le (b : InspectionBuffer) (bytes : List UInt8)
    (overlap window : ℕ) : (b.append bytes overlap window).buffer.data.length ≤ window := by
  simp only [append, List.length_drop]
  omega

theorem push_maxHead (options : NormalizeConfig) (p : HttpParser) (bytes : List UInt8) :
    (p.push bytes options).1.maxHead = p.maxHead := by
  obtain ⟨heads, rest, hsplit⟩ := Frames.exists_split not_endsHead_nil (p.buffer ++ bytes)
  exact (p.push_took options bytes hsplit).maxHead_eq

theorem countAgainstThreshold_size {maxEntries : ℕ} {thresholds : Thresholds}
    (h : size thresholds ≤ maxEntries) (sid : UInt32) (threshold : Threshold) (key : String)
    (now : Instant) :
    size (countAgainstThreshold maxEntries thresholds sid threshold key now).thresholds ≤
      maxEntries := by
  unfold countAgainstThreshold
  cases hlookup : thresholds.lookup (sid, key) with
  | none =>
    dsimp only
    split_ifs with hfull
    · exact h
    · exact (size_insert_le _ _ _).trans (not_le.1 hfull)
  | some entry =>
    dsimp only
    rw [size_insert, hlookup]
    exact h

variable {R : Regex} {A : AhoCorasick}

theorem Tally.hit_thresholds {t : Tally} {limits : EngineLimits}
    (h : size t.thresholds ≤ limits.maxThresholdEntries) (tuple : NetTuple) (now : Instant)
    (rule : CompiledRule R) (outcome : MatchOutcome) :
    size (t.hit limits tuple now rule outcome).thresholds ≤ limits.maxThresholdEntries := by
  have hcounted : size
      (thresholdAllows limits.maxThresholdEntries t.thresholds rule.sid rule.threshold
      tuple now).thresholds ≤ limits.maxThresholdEntries := by
    unfold thresholdAllows
    cases rule.threshold with
    | none => exact h
    | some threshold => exact countAgainstThreshold_size h rule.sid threshold _ now
  simp only [Tally.hit]
  split_ifs
  · exact h
  · exact hcounted
  · exact hcounted

theorem Tally.judgeAll_thresholds {limits : EngineLimits} (rules : ℕ → Option (CompiledRule R))
    (input : MatchInput) (now : Instant) (bits : FlowBits) (candidates : List ℕ) {t : Tally}
    (h : size t.thresholds ≤ limits.maxThresholdEntries) :
    size (candidates.foldl (fun t index =>
      (rules index).elim t (Tally.judge limits input now bits t))
      t).thresholds ≤ limits.maxThresholdEntries := by
  induction candidates generalizing t with
  | nil => exact h
  | cons index rest ih =>
    apply ih
    dsimp only
    cases rules index with
    | none => exact h
    | some rule =>
      rw [Option.elim_some, Tally.judge]
      cases evaluate rule input bits with
      | none => exact h
      | some outcome => exact Tally.hit_thresholds h input.tuple now rule outcome

/-- The engine keeps to its caps, and has states for live flows only. -/
structure Engine.Within (live : UInt64 → Prop) (e : Engine R A) : Prop where
  states : size e.states ≤ max e.limits.maxFlowStates 1
  flows : ∀ flowId s, e.states.lookup flowId = some s → live flowId ∧ s.Within e.limits
  thresholds : size e.thresholds ≤ e.limits.maxThresholdEntries

namespace Engine.Within

variable {live : UInt64 → Prop} {e : Engine R A} {flowId : UInt64}

theorem mono {live' : UInt64 → Prop} (h : e.Within live)
    (hlive : ∀ flowId, live flowId → live' flowId) :
    e.Within live' :=
  ⟨h.states, fun flowId s hs => ⟨hlive flowId (h.flows flowId s hs).1, (h.flows flowId s hs).2⟩,
    h.thresholds⟩

theorem stateOf (h : e.Within live) (flowId : UInt64) : (e.stateOf flowId).Within e.limits := by
  unfold Engine.stateOf
  cases hstate : e.states.lookup flowId with
  | none => exact FlowState.within_empty e.limits
  | some s => exact (h.flows flowId s hstate).2

theorem erase (h : e.Within live) (flowId : UInt64) :
    (e.onFlowEnd flowId).Within fun other => live other ∧ other ≠ flowId := by
  refine ⟨(size_erase_le _ _).trans h.states, fun other s hs => ?_, h.thresholds⟩
  obtain ⟨hother, hbefore⟩ := lookup_of_lookup_erase hs
  obtain ⟨hlive, hwithin⟩ := h.flows other s hbefore
  exact ⟨⟨hlive, hother⟩, hwithin⟩

theorem makeRoom (h : e.Within live) (order : HashOrder UInt64) :
    (e.makeRoom order).1.Within live ∧
      size (e.makeRoom order).1.states < max e.limits.maxFlowStates 1 := by
  unfold Engine.makeRoom
  split_ifs with hroom
  · exact ⟨h, hroom.trans_le (le_max_left _ _)⟩
  · refine ⟨⟨(size_foldl_erase_le _ _).trans h.states, fun other s hs => ?_, h.thresholds⟩, ?_⟩
    · exact h.flows other s (lookup_of_lookup_foldl_erase _ hs)
    · dsimp only
      rcases Nat.eq_zero_or_pos (size e.states) with hnone | hpos
      · refine lt_of_le_of_lt (size_foldl_erase_le _ _) ?_
        rw [hnone]
        exact lt_of_lt_of_le Nat.zero_lt_one (le_max_right _ _)
      · obtain ⟨id, rest, hids, hsome⟩ := e.evictees_eq_cons order hpos
        obtain ⟨s, hs⟩ := Option.isSome_iff_exists.1 hsome
        have hfirst := size_erase_of_lookup hs
        have hothers := size_foldl_erase_le rest (e.states.erase id)
        have hstates := h.states
        rw [hids, List.foldl_cons]
        omega

/-- A state is written for a live flow that has an entry, or there is room for one. -/
theorem setState (h : e.Within live) (hlive : live flowId)
    (hroom : size e.states < max e.limits.maxFlowStates 1 ∨ (e.states.lookup flowId).isSome)
    {s : FlowState} (hs : s.Within e.limits) : (e.setState flowId s).Within live := by
  refine ⟨?_, fun other s' hs' => ?_, h.thresholds⟩
  · have hsize := size_insert e.states flowId s
    rcases hroom with hroom | hsome
    · exact (size_insert_le _ _ _).trans hroom
    · rw [hsome, if_pos rfl, Nat.add_zero] at hsize
      exact hsize.le.trans h.states
  · by_cases hother : other = flowId
    · rw [Engine.setState, hother, AList.lookup_insert] at hs'
      obtain rfl := Option.some.inj hs'
      exact ⟨hother ▸ hlive, hs⟩
    · rw [Engine.setState, AList.lookup_insert_ne hother] at hs'
      exact h.flows other s' hs'

theorem applyPending (h : e.Within live) (hlive : live flowId) (order : HashOrder UInt64)
    (timestamp : Instant) (pending : List FlowBitsOp) :
    (e.applyPending order flowId timestamp pending).1.Within live := by
  unfold Engine.applyPending
  split_ifs
  · exact h
  · obtain ⟨hwithin, hroom⟩ := h.makeRoom order
    have hlimits := limits_of_params (makeRoom_params e order)
    have hstate := hwithin.stateOf flowId
    rw [← hlimits] at hroom
    refine hwithin.setState hlive (Or.inl hroom) ⟨?_, hstate.window, hstate.head⟩
    rw [hlimits] at hstate ⊢
    exact FlowBits.applyAll_card_le hstate.bits pending

theorem inspectBuffers (h : e.Within live) (hlive : live flowId) (order : HashOrder UInt64)
    (tuple : NetTuple) (toServer established : Bool) (buffers : Buffers) (prefilter : List Buffer)
    (timestamp : Instant) :
    (e.inspectBuffers order flowId tuple toServer established buffers prefilter timestamp).1.Within
      live := by
  let haystacks := buffers.haystacks prefilter
  let bits := ((e.states.lookup flowId).map FlowState.bits).getD {}
  let t : Tally := (e.ruleset.candidatesIn haystacks).foldl (fun t index =>
      (e.ruleset.rule index).elim t
        (Tally.judge e.limits ⟨tuple, established, toServer, buffers⟩ timestamp bits t))
    { thresholds := e.thresholds, counters := e.countInspection haystacks }
  have hjudged : size t.thresholds ≤ e.limits.maxThresholdEntries :=
    Tally.judgeAll_thresholds e.ruleset.rule _ timestamp bits _ h.thresholds
  have hcounted : Engine.Within live
      { e with thresholds := t.thresholds, counters := t.counters } :=
    ⟨h.states, h.flows, hjudged⟩
  exact hcounted.applyPending hlive order timestamp t.pending

theorem inspectRequests (hlive : live flowId) (order : HashOrder UInt64) (tuple : NetTuple)
    (timestamp : Instant) (requests : List HttpRequest) (h : e.Within live) :
    (Engine.inspectRequests order flowId tuple timestamp e requests).1.Within live := by
  induction requests generalizing e with
  | nil => exact h
  | cons request rest ih =>
    exact ih (h.inspectBuffers hlive order tuple true true
      (requestBuffers request) httpBuffers timestamp)

theorem inspectHttp (h : e.Within live) (hlive : live flowId) (order : HashOrder UInt64)
    (tuple : NetTuple) (delivered : List UInt8) (timestamp : Instant) :
    (e.inspectHttp order flowId tuple delivered timestamp).1.Within live := by
  unfold Engine.inspectHttp
  cases hstate : e.states.lookup flowId with
  | none => exact h
  | some s =>
    have hs := (h.flows flowId s hstate).2
    let parser := s.http.getD (HttpParser.new e.limits.maxHttpHead)
    have hparser : parser.maxHead = max e.limits.maxHttpHead 64 := by
      cases hhttp : s.http with
      | none =>
        simp only [parser, hhttp]
        rfl
      | some parser' =>
        simp only [parser, hhttp]
        exact (hs.head parser' hhttp).2
    refine inspectRequests hlive order tuple timestamp _
      (h.setState hlive (Or.inr (by rw [hstate]; rfl)) ⟨hs.bits, hs.window, fun pushed hpushed =>
      ?_⟩)
    obtain rfl := Option.some.inj hpushed
    exact ⟨(parser.push_buffer e.limits.normalize delivered).1,
      (push_maxHead e.limits.normalize parser delivered).trans hparser⟩

theorem extendWindow (h : e.Within live) (hlive : live flowId)
    (hroom : size e.states < max e.limits.maxFlowStates 1) (toServer : Bool)
    (delivered : List UInt8)
    (timestamp : Instant) : (e.extendWindow flowId toServer delivered timestamp).1.Within live := by
  have hstate := h.stateOf flowId
  let buffer := ((e.stateOf flowId).direction toServer).append delivered (e.longestPattern - 1)
    e.limits.inspectionWindow
  let s := { e.stateOf flowId with lastSeen := timestamp }.setDirection toServer buffer.buffer
  have hs : s.Within e.limits := by
    refine ⟨?_, fun direction => ?_, ?_⟩
    · cases toServer
      · exact hstate.bits
      · exact hstate.bits
    · rw [direction_setDirection]
      split_ifs with hdirection
      · exact InspectionBuffer.length_append_le _ _ _ _
      · exact hstate.window direction
    · cases toServer
      · exact hstate.head
      · exact hstate.head
  have hwithin := h.setState hlive (Or.inl hroom) hs
  exact ⟨hwithin.states, hwithin.flows, hwithin.thresholds⟩

theorem inspectStream (h : e.Within live) (hlive : live flowId) (order : HashOrder UInt64)
    (tuple : NetTuple) (toServer : Bool) (delivered : List UInt8) (timestamp : Instant) :
    (e.inspectStream order flowId tuple toServer delivered timestamp).1.Within live := by
  by_cases hne : delivered = []
  · rw [Engine.inspectStream, if_pos hne]
    exact h
  · have hpass : (e.payloadPass order flowId tuple toServer delivered timestamp).1.Within live := by
      obtain ⟨hwithin, hroom⟩ := h.makeRoom order
      rw [← limits_of_params (makeRoom_params e order)] at hroom
      exact (hwithin.extendWindow hlive hroom toServer delivered timestamp).inspectBuffers hlive
        order
        tuple toServer true _ _ timestamp
    by_cases hhttp : (toServer && e.ruleset.needsHttp) = true
    · rw [inspectStream_of_http e order flowId tuple timestamp hne hhttp]
      exact hpass.inspectHttp hlive order tuple delivered timestamp
    · rw [inspectStream_of_not_http e order flowId tuple timestamp hne hhttp]
      exact hpass

end Engine.Within

theorem Engine.Within.step {live : UInt64 → Prop} {e : Engine R A} (h : e.Within live) (call : Call)
    (hlive : live call.about) : (e.step call).1.Within live := by
  cases call with
  | packet order flowId tuple toServer payload timestamp =>
    exact h.inspectBuffers hlive order tuple toServer false _ _ timestamp
  | stream order flowId tuple toServer delivered timestamp =>
    exact h.inspectStream hlive order tuple toServer delivered timestamp
  | flowEnd flowId => exact (h.erase flowId).mono fun _ hother => hother.1

theorem Engine.new_within (resolve : HeaderResolver) (limits : EngineLimits) (rules : List Rule)
    (live : UInt64 → Prop) : (Engine.new R A resolve limits rules).1.Within live := by
  refine ⟨Nat.zero_le _, fun flowId s hs => ?_, Nat.zero_le _⟩
  exact absurd hs (by simp [Engine.new])

theorem Engine.Within.ends {live : UInt64 → Prop} {e : Engine R A} (h : e.Within live)
    (flowIds : List UInt64) :
    (Runs.run Engine.step e (flowIds.map .flowEnd)).1.Within fun other =>
    live other ∧ other ∉ flowIds := by
  induction flowIds generalizing e live with
  | nil => exact h.mono fun other hother => ⟨hother, List.not_mem_nil⟩
  | cons flowId rest ih =>
    refine (ih (h.erase flowId)).mono fun other hother => ⟨hother.1.1, ?_⟩
    exact List.not_mem_cons_of_ne_of_not_mem hother.1.2 hother.2

end CyberSentinel.Detect

namespace CyberSentinel

open Tables Detect

namespace PacketPipeline

variable {R : Regex} {A : AhoCorasick}

/-- The pipeline's engine keeps to its caps, and has states for flows that the table carries. -/
def Keeps (p : PacketPipeline R A) : Prop := ∀ e ∈ p.engine, e.Within p.flows.Carries

variable {p : PacketPipeline R A}

theorem Keeps.callAll (h : p.Keeps) (calls : List Call)
    (hcarries : ∀ call ∈ calls, p.flows.Carries call.about) : (p.callAll calls).1.Keeps := by
  induction calls generalizing p with
  | nil => exact h
  | cons call rest ih =>
    obtain ⟨hflows, -⟩ := p.callAll_flows [call]
    have hcall : (p.callEngine call).1.Keeps := by
      intro e he
      unfold callEngine at he ⊢
      cases hengine : p.engine with
      | none =>
        rw [hengine] at he
        exact absurd (he : p.engine = some e) (by simp [hengine])
      | some engine =>
        rw [hengine] at he
        obtain rfl := Option.some.inj he
        exact (h engine hengine).step call (hcarries call List.mem_cons_self)
    refine ih hcall fun other hother => ?_
    have hsame : (p.callEngine call).1.flows = p.flows := hflows
    rw [hsame]
    exact hcarries other (List.mem_cons_of_mem _ hother)

theorem Keeps.inspectDatagram (h : p.Keeps) (walks : Walks) {observed : Observed}
    (hown : p.flows.Carries observed.flowId) (packet : PacketSummary) :
    (p.inspectDatagram walks observed packet).1.Keeps ∧
      (p.inspectDatagram walks observed packet).1.flows = p.flows := by
  unfold PacketPipeline.inspectDatagram
  split_ifs
  · let call : Call := .packet walks.states observed.flowId (summaryTuple packet) observed.toServer
      packet.payload packet.timestamp
    refine ⟨h.callAll [call] fun c hc => ?_, (p.callAll_flows [call]).1⟩
    rw [List.mem_singleton.1 hc]
    exact hown
  · exact ⟨h, rfl⟩

theorem Keeps.consumeReady (h : p.Keeps) (walks : Walks) {flowId : UInt64}
    (hown : p.flows.Carries flowId) (oriented : NetTuple) (timestamp : Instant)
    (ready : StreamReady) :
    (p.consumeReady walks flowId oriented timestamp ready).1.Keeps := by
  unfold PacketPipeline.consumeReady
  split_ifs
  · exact h
  · have hcounted : Keeps { p with streamBytesDelivered := p.streamBytesDelivered + ready.len } := h
    refine hcounted.callAll _ fun call hcall => ?_
    rw [streamCalls_about walks flowId oriented timestamp ready call hcall]
    exact hown

theorem Keeps.observe (h : p.Keeps) (walks : Walks) (packet : PacketSummary) :
    (p.observe walks packet).1.Keeps := by
  let result := p.flows.observe walks.flows packet p.policy.forDestination
  have hobserved : Keeps { p with flows := result.1 } := fun e he =>
    (h e he).mono fun flowId hflow => hflow.observe walks.flows packet p.policy.forDestination
  have hown : result.1.Carries result.2.1.flowId :=
    FlowTable.carries_observed p.flows walks.flows packet p.policy.forDestination
  obtain ⟨hdatagram, hflows⟩ := hobserved.inspectDatagram walks hown packet
  refine hdatagram.consumeReady walks ?_ _ packet.timestamp result.2.2
  rw [hflows]
  exact hown

theorem Keeps.observeAll (h : p.Keeps) (packets : List (Walks × PacketSummary)) :
    (p.observeAll packets).1.Keeps := by
  induction packets generalizing p with
  | nil => exact h
  | cons packet rest ih => exact ih (h.observe packet.1 packet.2)

theorem callAll_engine (p : PacketPipeline R A) (calls : List Call) :
    (p.callAll calls).1.engine = p.engine.map fun e => (Runs.run Engine.step e calls).1 := by
  induction calls generalizing p with
  | nil => exact Option.map_id'.symm
  | cons call rest ih =>
    rw [PacketPipeline.callAll, ih]
    unfold callEngine
    cases hengine : p.engine with
    | none =>
      dsimp only
      rw [hengine]
      rfl
    | some e => rfl

/-- After a drain the engine has states for flows of the table only. -/
theorem Keeps.drain (h : p.Keeps) :
    p.drainEndedFlows.1.Keeps ∧ p.drainEndedFlows.1.flows.ended = [] := by
  obtain ⟨hflows, -⟩ := p.drainEndedFlows_reports
  refine ⟨fun e he => ?_, by rw [hflows]⟩
  rw [hflows]
  unfold drainEndedFlows at he
  split_ifs at he with hnone
  · refine (h e he).mono fun flowId hflow => ?_
    rcases hflow with hheld | ⟨ended, hended, -⟩
    · exact Or.inl hheld
    · rw [hnone] at hended
      exact absurd hended List.not_mem_nil
  · have hengine : e ∈ p.engine.map fun e => (Runs.run Engine.step e
        ((p.flows.ended.map fun e : EndedFlow => e.flow.id).map .flowEnd)).1 := by
      rw [List.map_map]
      let counted := { p with streamBytesDelivered := p.streamBytesDelivered +
        (p.flows.ended.map (fun e : EndedFlow => e.finalReady.len)).sum }
      exact Option.mem_def.2 ((counted.callAll_engine _).symm.trans he)
    obtain ⟨e', he', rfl⟩ := Option.map_eq_some_iff.1 hengine
    refine ((h e' he').ends _).mono fun flowId hflow => ?_
    rcases hflow.1 with hheld | ⟨ended, hended, hid⟩
    · exact Or.inl hheld
    · exact absurd (List.mem_map.2 ⟨ended, hended, hid⟩) hflow.2

theorem Keeps.step (h : p.Keeps) (D : Decoder) (op : PipelineOp) :
    (p.step D op).1.Keeps ∧ (p.step D op).1.flows.ended = [] := by
  cases op with
  | packet walks again sets raw =>
    have htracked : (p.track D walks again sets (D.decode raw.data raw.originalLen)
        raw.timestamp).1.Keeps := by
      rw [track_eq_observeAll]
      exact h.observeAll _
    exact htracked.drain
  | flush order =>
    have hflushed : Keeps { p with flows := p.flows.flush order } := fun e he =>
      (h e he).mono fun flowId hflow => hflow.flush order
    exact hflushed.drain

theorem keeps_run (R : Regex) (A : AhoCorasick) (D : Decoder) (config : Config)
    (resolve : HeaderResolver) (limits : EngineLimits) (rules : List Rules.Rule)
    (ops : List PipelineOp) :
    let p := (PacketPipeline.new R A config).arm (Engine.new R A resolve limits rules).1
    let run := Runs.run (PacketPipeline.step D) p ops
    ∃ e, run.1.engine = some e ∧ e.limits = limits ∧
      e.Within fun flowId =>
      ∃ key flow, run.1.flows.flows.lookup key = some flow ∧ flow.id = flowId := by
  intro p run
  have hrun : run.1.Keeps ∧ run.1.flows.ended = [] := by
    refine Runs.invariant (PacketPipeline.step D) (fun q => q.Keeps ∧ q.flows.ended = [])
      (fun q op hq => hq.1.step D op) ⟨fun e he => ?_, rfl⟩ ops
    obtain rfl := Option.some.inj he
    exact Engine.new_within resolve limits rules _
  obtain ⟨hengine, -⟩ := p.run_drives D ops _ rfl
  refine ⟨_, hengine, Engine.limits_of_params (Engine.run_params _ _),
    (hrun.1 _ hengine).mono fun flowId hflow => ?_⟩
  rcases hflow with hheld | ⟨ended, hended, -⟩
  · exact hheld
  · rw [hrun.2] at hended
    exact absurd hended List.not_mem_nil

/-- Whatever is captured, in whatever order: what detection keeps stays within the limits. There are
no more flow states than the cap, they hold no more bytes of streams and request heads than the
windows of so many flows, no flow has more bits than the cap, and there are no more threshold
counters than the cap. -/
theorem detection_bounded (R : Regex) (A : AhoCorasick) (D : Decoder) (config : Config)
    (resolve : HeaderResolver) (limits : EngineLimits) (rules : List Rules.Rule)
    (ops : List PipelineOp) :
    let p := (PacketPipeline.new R A config).arm (Engine.new R A resolve limits rules).1
    let run := Runs.run (PacketPipeline.step D) p ops
    ∃ e, run.1.engine = some e ∧ size e.states ≤ max limits.maxFlowStates 1 ∧
      total FlowState.held e.states ≤ max limits.maxFlowStates 1 * limits.heldPerFlow ∧
      (∀ flowId s, e.states.lookup flowId = some s → s.bits.bits.card ≤ limits.maxFlowbitsPerFlow) ∧
      size e.thresholds ≤ limits.maxThresholdEntries := by
  intro p run
  obtain ⟨e, hengine, rfl, h⟩ := keeps_run R A D config resolve limits rules ops
  refine ⟨e, hengine, h.states, ?_, fun flowId s hs => (h.flows flowId s hs).2.bits, h.thresholds⟩
  calc total FlowState.held e.states
      ≤ size e.states * e.limits.heldPerFlow := total_le fun flowId s hs =>
      (h.flows flowId s hs).2.held_le
    _ ≤ max e.limits.maxFlowStates 1 * e.limits.heldPerFlow := Nat.mul_le_mul_right _ h.states

end PacketPipeline
end CyberSentinel
