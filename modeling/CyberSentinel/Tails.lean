import CyberSentinel.FlowLedger
import CyberSentinel.InspectionWindow
import CyberSentinel.Pipeline

/-!
# Which delivered bytes are inspected

The bytes a packet makes deliverable are handed to the engine at once. The bytes a flow still had in
order when it left the table are counted and reported as delivered, but never handed over: the
flow's detection state is dropped without them. So every delivered byte is inspected exactly when no
flow leaves the table with bytes in order.
-/

namespace CyberSentinel

open Tables Detect

def Flow.Settled (f : Flow) : Prop :=
  ∀ pair ∈ f.streams, ∀ toServer, (pair.side toServer).buffer.peekContiguous = []

theorem Stream.deliver_force (s : Stream) : (s.deliver true).2 = s.buffer.peekContiguous := by
  simp only [Stream.deliver, Stream.deliverLimit, if_true, RangeBuffer.drainContiguousUpto,
    RangeBuffer.peekContiguous, Nat.min_self]
  split_ifs with h
  · rw [Nat.sub_eq_zero_of_le h]
    simp
  · rw [List.take_eq_take_min]

namespace FlowTable

theorem flushFlow_isEmpty_iff (flow : Flow) :
    (flushFlow flow).2.isEmpty = true ↔ flow.Settled := by
  unfold flushFlow Flow.Settled
  cases flow.streams with
  | none => simp [StreamReady.isEmpty]
  | some pair =>
    simp only [StreamPair.flush, StreamPair.deliver, StreamReady.isEmpty, Stream.deliver_force,
      Bool.and_eq_true, List.isEmpty_iff, Option.mem_def, Option.some.injEq, forall_eq',
      Bool.forall_bool, StreamPair.side, Bool.false_eq_true, if_false, if_true]
    exact and_comm

/-- Flows leave the table and are reported; the others are untouched. -/
structure Releases (t t' : FlowTable) (gone : List EndedFlow) : Prop where
  ended : t'.ended = t.ended ++ gone
  flows : ∀ key, t'.flows.lookup key = none ∨ t'.flows.lookup key = t.flows.lookup key
  settled : (∀ e ∈ gone, e.finalReady.isEmpty = true) ↔ ∀ key flow,
    t.flows.lookup key = some flow → t'.flows.lookup key = none → flow.Settled

theorem Releases.of_same {t t' : FlowTable} (hended : t'.ended = t.ended)
    (hflows : t'.flows = t.flows) : Releases t t' [] := by
  refine ⟨by rw [hended, List.append_nil], fun key => Or.inr (by rw [hflows]), ?_, ?_⟩
  · intro _ key flow hflow hgone
    rw [hflows, hflow] at hgone
    exact absurd hgone (by simp)
  · intro _ e he
    exact absurd he List.not_mem_nil

theorem Releases.trans {t t' t'' : FlowTable} {gone gone' : List EndedFlow}
    (h : Releases t t' gone) (h' : Releases t' t'' gone') : Releases t t'' (gone ++ gone') := by
  refine ⟨by rw [h'.ended, h.ended, List.append_assoc], fun key => ?_, ?_⟩
  · rcases h'.flows key with hnone | hsame
    · exact Or.inl hnone
    · rw [hsame]
      exact h.flows key
  · rw [List.forall_mem_append, h.settled, h'.settled]
    constructor
    · rintro ⟨hfirst, hsecond⟩ key flow hflow hgone
      rcases h.flows key with hnone | hsame
      · exact hfirst key flow hflow hnone
      · exact hsecond key flow (by rw [hsame, hflow]) hgone
    · intro hall
      constructor
      · intro key flow hflow hgone
        apply hall key flow hflow
        rcases h'.flows key with hnone | hsame
        · exact hnone
        · rw [hsame, hgone]
      · intro key flow hflow hgone
        rcases h.flows key with hnone | hsame
        · rw [hnone] at hflow
          exact absurd hflow (by simp)
        · exact hall key flow (by rw [← hsame, hflow]) hgone

theorem removeFlow_releases (reason : EndReason) (t : FlowTable) (key : FlowKey) :
    ∃ gone, Releases t (removeFlow reason t key) gone := by
  unfold removeFlow
  cases hlookup : t.flows.lookup key with
  | none => exact ⟨[], Releases.of_same rfl rfl⟩
  | some flow =>
    refine ⟨[⟨(flushFlow flow).1, reason, (flushFlow flow).2⟩], rfl, ?_, ?_⟩
    · intro other
      by_cases hother : other = key
      · left
        rw [hother]
        exact AList.lookup_erase _ _
      · right
        exact AList.lookup_erase_ne hother
    · rw [List.forall_mem_singleton, flushFlow_isEmpty_iff]
      constructor
      · intro hsettled other flow' hflow' hgone
        by_cases hother : other = key
        · rw [hother, hlookup] at hflow'
          rw [← Option.some.inj hflow']
          exact hsettled
        · have hkept := (AList.lookup_erase_ne hother).symm.trans hgone
          rw [hflow'] at hkept
          exact absurd hkept (by simp)
      · intro hall
        exact hall key flow hlookup (AList.lookup_erase _ _)

theorem prepare_releases (t : FlowTable) (order : HashOrder FlowKey) (packet : PacketSummary)
    (key : FlowKey) : ∃ gone, Releases t (t.prepare order packet key) gone := by
  apply prepare_invariant (P := fun t' => ∃ gone, Releases t t' gone)
  · rintro reason t' other ⟨gone, h⟩
    obtain ⟨gone', h'⟩ := removeFlow_releases reason t' other
    exact ⟨gone ++ gone', h.trans h'⟩
  · rintro t' now ⟨gone, h⟩
    exact ⟨gone, h.ended, h.flows, h.settled⟩
  · exact ⟨[], Releases.of_same rfl rfl⟩

/-- Every flow that leaves the table on the way of a packet, swept, evicted or closed by it, leaves
with nothing in order. -/
structure ObserveSettles (t : FlowTable) (order : HashOrder FlowKey) (packet : PacketSummary)
    (policy : IpAddr → OverlapPolicy) : Prop where
  released : ∀ key flow, t.flows.lookup key = some flow →
    (t.prepare order packet
      (FlowKey.new packet.protocol packet.source packet.destination)).flows.lookup key = none →
    flow.Settled
  closed :
    let flow := (updateFlow (t.flowFor order packet)
      (packet.source = (t.flowFor order packet).initiator) packet policy).1
    flow.isClosed = true → flow.Settled

theorem reportClosed_settled_iff (flow : Flow) :
    (∀ e ∈ reportClosed flow, e.finalReady.isEmpty = true) ↔
      (flow.isClosed = true → flow.Settled) := by
  unfold reportClosed
  by_cases hclosed : flow.isClosed = true
  · rw [if_pos hclosed, List.forall_mem_singleton, flushFlow_isEmpty_iff]
    exact ⟨fun h _ => h, fun h => h hclosed⟩
  · rw [if_neg hclosed]
    exact ⟨fun _ h => absurd h hclosed, fun _ e he => absurd he List.not_mem_nil⟩

theorem observe_ended (t : FlowTable) (order : HashOrder FlowKey) (packet : PacketSummary)
    (policy : IpAddr → OverlapPolicy) :
    ∃ gone, (t.observe order packet policy).1.ended = t.ended ++ gone ∧
      ((∀ e ∈ gone, e.finalReady.isEmpty = true) ↔ t.ObserveSettles order packet policy) := by
  obtain ⟨gone, hgone⟩ := prepare_releases t order packet
    (FlowKey.new packet.protocol packet.source packet.destination)
  have hended : (t.observe order packet policy).1.ended = t.ended ++ (gone ++
      reportClosed (updateFlow (t.flowFor order packet)
        (packet.source = (t.flowFor order packet).initiator) packet policy).1) := by
    simp only [observe]
    rw [record_ended, entry_ended, hgone.ended, List.append_assoc]
    rfl
  refine ⟨_, hended, ?_⟩
  rw [List.forall_mem_append, hgone.settled, reportClosed_settled_iff]
  exact ⟨fun h => ⟨h.1, h.2⟩, fun h => ⟨h.released, h.closed⟩⟩

theorem flush_settled_iff (t : FlowTable) (order : HashOrder FlowKey) :
    (∀ e ∈ (iter order t.flows).map (fun entry =>
      (⟨(flushFlow entry.2).1, .sensorStopped, (flushFlow entry.2).2⟩ : EndedFlow)),
        e.finalReady.isEmpty = true) ↔
      ∀ key flow, t.flows.lookup key = some flow → flow.Settled := by
  rw [List.forall_mem_map]
  constructor
  · intro h key flow hflow
    exact (flushFlow_isEmpty_iff flow).1 (h (key, flow) ((mem_iter order t.flows key flow).2 hflow))
  · intro h entry hentry
    exact (flushFlow_isEmpty_iff entry.2).2
      (h entry.1 entry.2 ((mem_iter order t.flows entry.1 entry.2).1 hentry))

end FlowTable

/-- The bytes an event hands to the engine for one direction of a flow. -/
def Event.inspected (flowId : UInt64) (toServer : Bool) : Event → List UInt8
  | .call engineCall _ => engineCall.delivery flowId toServer
  | _ => []

/-- The bytes an event reports as delivered for one direction of a flow. -/
def Event.deliveredTo (flowId : UInt64) (toServer : Bool) : Event → List UInt8
  | .delivered id ready => if flowId = id then ready.side toServer else []
  | .ended e => if flowId = e.flow.id then e.finalReady.side toServer else []
  | .call _ _ => []

def inspectedBytes (flowId : UInt64) (toServer : Bool) (trace : List Event) : List UInt8 :=
  trace.flatMap (Event.inspected flowId toServer)

def deliveredBytes (flowId : UInt64) (toServer : Bool) (trace : List Event) : List UInt8 :=
  trace.flatMap (Event.deliveredTo flowId toServer)

/-- Whenever the engine is told that a flow has ended, it has been given, in order, all the bytes
the flow table has delivered for the flow. -/
def EveryByteInspected (trace : List Event) : Prop :=
  ∀ before flowId output after, trace = before ++ .call (.flowEnd flowId) output :: after →
    ∀ toServer, inspectedBytes flowId toServer before = deliveredBytes flowId toServer before

def Event.flowEndId : Event → Option UInt64
  | .call (.flowEnd flowId) _ => some flowId
  | _ => none

theorem EveryByteInspected.at_flowEnd {events : List Event} (h : EveryByteInspected events) {i : ℕ}
    {flowId : UInt64} (hi : (events[i]?).bind Event.flowEndId = some flowId) (toServer : Bool) :
    inspectedBytes flowId toServer (events.take i) =
      deliveredBytes flowId toServer (events.take i) := by
  obtain ⟨event, hevent, hid⟩ := Option.bind_eq_some_iff.1 hi
  obtain ⟨hlt, hget⟩ := List.getElem?_eq_some_iff.1 hevent
  have hcall : ∃ output, event = .call (.flowEnd flowId) output := by
    unfold Event.flowEndId at hid
    split at hid
    · next output => exact ⟨output, by rw [Option.some.inj hid]⟩
    · exact absurd hid (by simp)
  obtain ⟨output, hcall⟩ := hcall
  refine h (events.take i) flowId output (events.drop (i + 1)) ?_ toServer
  rw [← hcall, ← hget, List.getElem_cons_drop, List.take_append_drop]

def InspectedFrom (earlier trace : List Event) : Prop :=
  ∀ before flowId output after, trace = before ++ .call (.flowEnd flowId) output :: after →
    ∀ toServer, inspectedBytes flowId toServer (earlier ++ before) =
      deliveredBytes flowId toServer (earlier ++ before)

def Balanced (trace : List Event) : Prop :=
  ∀ flowId toServer, inspectedBytes flowId toServer trace = deliveredBytes flowId toServer trace

theorem inspectedBytes_append (flowId : UInt64) (toServer : Bool) (xs ys : List Event) :
    inspectedBytes flowId toServer (xs ++ ys) =
      inspectedBytes flowId toServer xs ++ inspectedBytes flowId toServer ys :=
  List.flatMap_append

theorem deliveredBytes_append (flowId : UInt64) (toServer : Bool) (xs ys : List Event) :
    deliveredBytes flowId toServer (xs ++ ys) =
      deliveredBytes flowId toServer xs ++ deliveredBytes flowId toServer ys :=
  List.flatMap_append

theorem balanced_nil : Balanced [] := fun _ _ => rfl

theorem Balanced.append {xs ys : List Event} (hx : Balanced xs) (hy : Balanced ys) :
    Balanced (xs ++ ys) := by
  intro flowId toServer
  rw [inspectedBytes_append, deliveredBytes_append, hx, hy]

theorem inspectedFrom_append (earlier xs ys : List Event) :
    InspectedFrom earlier (xs ++ ys) ↔
      InspectedFrom earlier xs ∧ InspectedFrom (earlier ++ xs) ys := by
  constructor
  · intro h
    refine ⟨?_, ?_⟩
    · intro before flowId output after heq
      exact h before flowId output (after ++ ys) (by rw [heq]; simp)
    · intro before flowId output after heq toServer
      rw [List.append_assoc]
      exact h (xs ++ before) flowId output after (by rw [heq, List.append_assoc]) toServer
  · rintro ⟨hx, hy⟩ before flowId output after heq
    rcases List.append_eq_append_iff.1 heq with ⟨rest, hbefore, hrest⟩ | ⟨rest, hx', hrest⟩
    · rw [hbefore, ← List.append_assoc]
      exact hy rest flowId output after hrest
    · cases rest with
      | nil =>
        rw [List.append_nil] at hx'
        rw [← hx', ← List.append_nil (earlier ++ xs)]
        exact hy [] flowId output after hrest.symm
      | cons event rest =>
        obtain ⟨hevent, hafter⟩ := List.cons.inj hrest
        exact hx before flowId output rest (by rw [hx', hevent])

theorem inspectedFrom_of_no_flowEnd {earlier xs : List Event}
    (h : ∀ event ∈ xs, event.flowEndId = none) : InspectedFrom earlier xs := by
  intro before flowId output after heq
  exact absurd (h (.call (.flowEnd flowId) output) (by rw [heq]; simp)) (by simp [Event.flowEndId])

variable {R : Regex} {A : AhoCorasick}

namespace PacketPipeline

/-- With an engine present, a list of calls leaves one event for each of them and nothing else. -/
theorem callAll_spec (p : PacketPipeline R A) (hengine : p.engine.isSome = true)
    (calls : List Call) :
    (p.callAll calls).1.engine.isSome = true ∧ (p.callAll calls).1.flows = p.flows ∧
      (p.callAll calls).1.policy = p.policy ∧ (p.callAll calls).1.defrag = p.defrag ∧
      ∃ outputs : List Output, outputs.length = calls.length ∧
        (p.callAll calls).2 = List.zipWith Event.call calls outputs := by
  induction calls generalizing p with
  | nil => exact ⟨hengine, rfl, rfl, rfl, [], rfl, rfl⟩
  | cons call rest ih =>
    obtain ⟨engine, hsome⟩ := Option.isSome_iff_exists.1 hengine
    have hfirst : p.callEngine call =
        ({ p with engine := some (engine.step call).1 }, [.call call (engine.step call).2]) := by
      simp only [callEngine, hsome]
    obtain ⟨hkept, hflows, hpolicy, hdefrag, outputs, hlength, hevents⟩ :=
      ih { p with engine := some (engine.step call).1 } rfl
    simp only [callAll, hfirst]
    refine ⟨hkept, hflows, hpolicy, hdefrag, (engine.step call).2 :: outputs, ?_, ?_⟩
    · rw [List.length_cons, List.length_cons, hlength]
    · rw [hevents]
      rfl

theorem deliveredBytes_zipWith_call (flowId : UInt64) (toServer : Bool) (calls : List Call)
    (outputs : List Output) :
    deliveredBytes flowId toServer (List.zipWith Event.call calls outputs) = [] := by
  induction calls generalizing outputs with
  | nil => rfl
  | cons call rest ih =>
    cases outputs with
    | nil => rfl
    | cons output others => exact ih others

theorem inspectedBytes_zipWith_call (flowId : UInt64) (toServer : Bool) (calls : List Call)
    {outputs : List Output} (hlength : outputs.length = calls.length) :
    inspectedBytes flowId toServer (List.zipWith Event.call calls outputs) =
      calls.flatMap (Call.delivery flowId toServer) := by
  induction calls generalizing outputs with
  | nil => simp [inspectedBytes]
  | cons call rest ih =>
    cases outputs with
    | nil => simp at hlength
    | cons output others =>
      rw [List.flatMap_cons, ← ih (Nat.succ.inj hlength)]
      rfl

theorem mem_zipWith_call {calls : List Call} {outputs : List Output} {event : Event}
    (h : event ∈ List.zipWith Event.call calls outputs) :
    ∃ call ∈ calls, ∃ output, event = .call call output := by
  induction calls generalizing outputs with
  | nil => simp at h
  | cons call rest ih =>
    cases outputs with
    | nil => simp at h
    | cons output others =>
      rcases List.mem_cons.1 h with heq | hmem
      · exact ⟨call, List.mem_cons_self, output, heq⟩
      · obtain ⟨other, hother, found⟩ := ih hmem
        exact ⟨other, List.mem_cons_of_mem _ hother, found⟩

/-- What a part of a packet's way does: the engine stays, flows that leave are gathered with nothing
in order exactly when the part settles, and what is delivered is inspected at once. -/
structure Inspects (p p' : PacketPipeline R A) (events : List Event) (settles : Prop) : Prop where
  engine : p'.engine.isSome = true
  ended : ∃ gone, p'.flows.ended = p.flows.ended ++ gone ∧
    ((∀ e ∈ gone, e.finalReady.isEmpty = true) ↔ settles)
  balanced : Balanced events
  noFlowEnd : ∀ event ∈ events, event.flowEndId = none

theorem Inspects.trans {p p' p'' : PacketPipeline R A} {events events' : List Event}
    {settles settles' : Prop} (h : Inspects p p' events settles)
    (h' : Inspects p' p'' events' settles') :
    Inspects p p'' (events ++ events') (settles ∧ settles') := by
  obtain ⟨gone, hgone, hsettled⟩ := h.ended
  obtain ⟨gone', hgone', hsettled'⟩ := h'.ended
  refine ⟨h'.engine, ⟨gone ++ gone', ?_, ?_⟩, h.balanced.append h'.balanced, ?_⟩
  · rw [hgone', hgone, List.append_assoc]
  · rw [List.forall_mem_append, hsettled, hsettled']
  · intro event hevent
    rcases List.mem_append.1 hevent with hmem | hmem
    · exact h.noFlowEnd event hmem
    · exact h'.noFlowEnd event hmem

/-- The calls for a delivery hand over its bytes, each direction's to its own. -/
theorem streamCalls_delivery (walks : Walks) (flowId id : UInt64) (oriented : NetTuple)
    (timestamp : Instant) (ready : StreamReady) (toServer : Bool) :
    (streamCalls walks flowId oriented timestamp ready).flatMap (Call.delivery id toServer) =
      if id = flowId then ready.side toServer else [] := by
  unfold streamCalls
  by_cases hid : id = flowId
  · subst hid
    by_cases hserver : ready.side true = []
    · by_cases hclient : ready.side false = []
      · cases toServer <;> simp [hserver, hclient]
      · cases toServer <;> simp [hserver, hclient, Call.delivery]
    · by_cases hclient : ready.side false = []
      · cases toServer <;> simp [hserver, hclient, Call.delivery]
      · cases toServer <;> simp [hserver, hclient, Call.delivery]
  · rw [if_neg hid, List.flatMap_eq_nil_iff]
    intro call hcall
    obtain ⟨side, _, hside⟩ := List.mem_filterMap.1 hcall
    split_ifs at hside
    rw [← Option.some.inj hside]
    simp [Call.delivery, hid]

/-- Calls on the engine in the course of a packet: they hand over `bytes` and change nothing else.
-/
structure HandsOver (p p' : PacketPipeline R A) (events : List Event)
    (bytes : UInt64 → Bool → List UInt8) : Prop where
  engine : p'.engine.isSome = true
  flows : p'.flows = p.flows
  inspected : ∀ flowId toServer, inspectedBytes flowId toServer events = bytes flowId toServer
  delivered : ∀ flowId toServer, deliveredBytes flowId toServer events = []
  noFlowEnd : ∀ event ∈ events, event.flowEndId = none

theorem callAll_handsOver (p : PacketPipeline R A) (hengine : p.engine.isSome = true)
    (calls : List Call) (hcalls : ∀ call ∈ calls, ∀ flowId, call ≠ .flowEnd flowId) :
    HandsOver p (p.callAll calls).1 (p.callAll calls).2
      (fun flowId toServer => calls.flatMap (Call.delivery flowId toServer)) := by
  obtain ⟨hkept, hflows, -, -, outputs, hlength, hevents⟩ := callAll_spec p hengine calls
  refine ⟨hkept, hflows, ?_, ?_, ?_⟩
  · intro flowId toServer
    rw [hevents, inspectedBytes_zipWith_call flowId toServer calls hlength]
  · intro flowId toServer
    rw [hevents, deliveredBytes_zipWith_call]
  · intro event hevent
    rw [hevents] at hevent
    obtain ⟨call, hcall, output, rfl⟩ := mem_zipWith_call hevent
    cases call with
    | packet order id tuple d payload timestamp => rfl
    | stream order id tuple d bytes timestamp => rfl
    | flowEnd id => exact absurd rfl (hcalls _ hcall id)

theorem inspectDatagram_handsOver (p : PacketPipeline R A) (hengine : p.engine.isSome = true)
    (walks : Walks) (observed : Observed) (packet : PacketSummary) :
    HandsOver p (p.inspectDatagram walks observed packet).1
      (p.inspectDatagram walks observed packet).2 (fun _ _ => []) := by
  have hone := callAll_handsOver p hengine [.packet walks.states observed.flowId
    (summaryTuple packet) observed.toServer packet.payload packet.timestamp] (by simp)
  unfold inspectDatagram
  split_ifs
  · simpa [callAll, Call.delivery] using hone
  · exact ⟨hengine, rfl, fun _ _ => rfl, fun _ _ => rfl, by simp⟩

theorem consumeReady_handsOver (p : PacketPipeline R A) (hengine : p.engine.isSome = true)
    (walks : Walks) (flowId : UInt64) (oriented : NetTuple) (timestamp : Instant)
    (ready : StreamReady) :
    HandsOver p (p.consumeReady walks flowId oriented timestamp ready).1
      (p.consumeReady walks flowId oriented timestamp ready).2
      (fun id toServer => if id = flowId then ready.side toServer else []) := by
  unfold consumeReady
  by_cases hempty : ready.isEmpty = true
  · rw [if_pos hempty]
    have hside (toServer : Bool) : ready.side toServer = [] := by
      rw [StreamReady.isEmpty, Bool.and_eq_true, List.isEmpty_iff, List.isEmpty_iff] at hempty
      cases toServer
      · exact hempty.2
      · exact hempty.1
    exact ⟨hengine, rfl, fun _ toServer => by simp [hside, inspectedBytes], fun _ _ => rfl, by simp⟩
  · rw [if_neg hempty]
    have hstreams : ∀ call ∈ streamCalls walks flowId oriented timestamp ready,
        ∀ id, call ≠ .flowEnd id := by
      intro call hcall id heq
      obtain ⟨side, _, hside⟩ := List.mem_filterMap.1 hcall
      split_ifs at hside
      rw [heq] at hside
      exact absurd hside (by simp)
    obtain ⟨hkept, hflows, hinspected, hdelivered, hends⟩ := callAll_handsOver
      { p with streamBytesDelivered := p.streamBytesDelivered + ready.len } hengine _ hstreams
    refine ⟨hkept, hflows, ?_, hdelivered, hends⟩
    intro id toServer
    rw [hinspected, streamCalls_delivery]

theorem observe_inspects (p : PacketPipeline R A) (hengine : p.engine.isSome = true) (walks : Walks)
    (packet : PacketSummary) :
    Inspects p (p.observe walks packet).1 (p.observe walks packet).2
      (p.flows.ObserveSettles walks.flows packet p.policy.forDestination) := by
  have hobserved := FlowTable.observe_ended p.flows walks.flows packet p.policy.forDestination
  simp only [observe]
  generalize p.flows.observe walks.flows packet p.policy.forDestination = result at hobserved ⊢
  obtain ⟨flows, observed, ready⟩ := result
  have hdatagram := inspectDatagram_handsOver
    { p with flows := flows } hengine walks observed packet
  have hstreams := consumeReady_handsOver _ hdatagram.engine walks observed.flowId
    (if observed.toServer then summaryTuple packet else (summaryTuple packet).reverse)
    packet.timestamp ready
  refine ⟨hstreams.engine, ?_, ?_, ?_⟩
  · rw [hstreams.flows, hdatagram.flows]
    exact hobserved
  · intro id toServer
    rw [← List.singleton_append, inspectedBytes_append, inspectedBytes_append,
      deliveredBytes_append, deliveredBytes_append, hdatagram.inspected, hstreams.inspected,
      hdatagram.delivered, hstreams.delivered]
    simp [inspectedBytes, deliveredBytes, Event.inspected, Event.deliveredTo]
  · intro event hevent
    rcases List.mem_cons.1 hevent with heq | hrest
    · rw [heq]
      rfl
    · rcases List.mem_append.1 hrest with hmem | hmem
      · exact hdatagram.noFlowEnd event hmem
      · exact hstreams.noFlowEnd event hmem

/-- Every flow that leaves on the way of a decoded packet leaves with nothing in order. -/
def TrackSettles (D : Decoder) (p : PacketPipeline R A) (walks again : Walks)
    (sets : HashOrder FragmentKey) (decoded : Decoded) (timestamp : Instant) : Prop :=
  ∀ network ∈ decoded.network,
    if network.isFragment then
      let summary := decoded.fragmentSummary network timestamp
      let offered := (p.observe walks summary).1.defragment sets network decoded timestamp
      p.flows.ObserveSettles walks.flows summary p.policy.forDestination ∧
        ∀ reassembled ∈ offered.2, offered.1.flows.ObserveSettles again.flows
          (reassembled.summary D timestamp) offered.1.policy.forDestination
    else
      p.flows.ObserveSettles walks.flows
        (decoded.summary network.protocol network.source network.destination timestamp)
        p.policy.forDestination

theorem track_inspects (D : Decoder) (p : PacketPipeline R A) (hengine : p.engine.isSome = true)
    (walks again : Walks) (sets : HashOrder FragmentKey) (decoded : Decoded) (timestamp : Instant) :
    Inspects p (p.track D walks again sets decoded timestamp).1
      (p.track D walks again sets decoded timestamp).2
      (TrackSettles D p walks again sets decoded timestamp) := by
  unfold track TrackSettles
  cases decoded.network with
  | none =>
    refine ⟨hengine, ⟨[], (List.append_nil _).symm, ?_⟩, fun _ _ => rfl, by simp⟩
    simp
  | some network =>
    simp only [Option.mem_def, Option.some.injEq, forall_eq']
    by_cases hfragment : network.isFragment = true
    · rw [if_pos hfragment, if_pos hfragment]
      have hcounted := observe_inspects p hengine walks (decoded.fragmentSummary network timestamp)
      -- the defragmenter is not part of what the trace is about
      have hoffered : Inspects p ((p.observe walks
          (decoded.fragmentSummary network timestamp)).1.defragment sets network decoded
          timestamp).1
          (p.observe walks (decoded.fragmentSummary network timestamp)).2
          (p.flows.ObserveSettles walks.flows (decoded.fragmentSummary network timestamp)
            p.policy.forDestination) :=
        ⟨hcounted.engine, hcounted.ended, hcounted.balanced, hcounted.noFlowEnd⟩
      generalize (p.observe walks (decoded.fragmentSummary network timestamp)).1.defragment sets
        network decoded timestamp = offered at hoffered ⊢
      obtain ⟨next, reassembled⟩ := offered
      cases reassembled with
      | none => simpa using hoffered
      | some datagram =>
        simpa [onReassembled] using hoffered.trans (observe_inspects next hoffered.engine again
          (datagram.summary D timestamp))
    · rw [if_neg hfragment, if_neg hfragment]
      exact observe_inspects p hengine walks _

theorem isEmpty_iff_side (ready : StreamReady) :
    ready.isEmpty = true ↔ ∀ toServer, ready.side toServer = [] := by
  rw [StreamReady.isEmpty, Bool.and_eq_true, List.isEmpty_iff, List.isEmpty_iff, Bool.forall_bool]
  exact and_comm

/-- The events of a drain: the flows that ended, then one call for each. -/
theorem drainEndedFlows_spec (p : PacketPipeline R A) (hengine : p.engine.isSome = true) :
    p.drainEndedFlows.1.engine.isSome = true ∧ p.drainEndedFlows.1.flows.ended = [] ∧
      ∃ outputs : List Output, outputs.length = p.flows.ended.length ∧
        p.drainEndedFlows.2 = p.flows.ended.map .ended ++
          List.zipWith Event.call (p.flows.ended.map (fun e => .flowEnd e.flow.id)) outputs := by
  unfold drainEndedFlows
  by_cases hnone : p.flows.ended = []
  · rw [if_pos hnone]
    exact ⟨hengine, hnone, [], by simp [hnone], by simp [hnone]⟩
  · rw [if_neg hnone]
    obtain ⟨hkept, -, -, -, outputs, hlength, hevents⟩ := callAll_spec
      { p with streamBytesDelivered := p.streamBytesDelivered +
        (p.flows.ended.map (fun e : EndedFlow => e.finalReady.len)).sum } hengine
      (p.flows.ended.map (fun e => .flowEnd e.flow.id))
    refine ⟨hkept, rfl, outputs, by simpa using hlength, ?_⟩
    simp only [takeFinalDeliveries, hevents]

section Drain

variable (ended : List EndedFlow) {outputs : List Output}

theorem inspected_of_mem_drain {event : Event}
    (h : event ∈ ended.map .ended ++
      List.zipWith Event.call (ended.map (fun e => .flowEnd e.flow.id)) outputs)
    (flowId : UInt64) (toServer : Bool) : event.inspected flowId toServer = [] := by
  rcases List.mem_append.1 h with hmem | hmem
  · obtain ⟨e, _, rfl⟩ := List.mem_map.1 hmem
    rfl
  · obtain ⟨call, hcall, output, rfl⟩ := mem_zipWith_call hmem
    obtain ⟨e, _, rfl⟩ := List.mem_map.1 hcall
    rfl

/-- After balanced events, the ends of a drain are in order exactly when every flow ended empty. -/
theorem inspectedFrom_drain_iff {earlier : List Event} (hbalanced : Balanced earlier)
    (hlength : outputs.length = ended.length) :
    InspectedFrom earlier (ended.map .ended ++
        List.zipWith Event.call (ended.map (fun e => .flowEnd e.flow.id)) outputs) ↔
      ∀ e ∈ ended, e.finalReady.isEmpty = true := by
  constructor
  · intro h e he
    -- the call that reports this flow's end, and what comes before it
    have hcall : ∃ output, Event.call (.flowEnd e.flow.id) output ∈
        List.zipWith Event.call (ended.map (fun e => .flowEnd e.flow.id)) outputs := by
      obtain ⟨i, hi, rfl⟩ := List.getElem_of_mem he
      refine ⟨outputs[i], ?_⟩
      rw [List.mem_iff_getElem]
      exact ⟨i, by simp [hi, hlength], by simp⟩
    obtain ⟨output, hmem⟩ := hcall
    obtain ⟨before, after, hsplit⟩ := List.append_of_mem hmem
    have hends := h (ended.map .ended ++ before) e.flow.id output after (by
      rw [hsplit, List.append_assoc])
    rw [isEmpty_iff_side]
    intro toServer
    have heq := hends toServer
    have hquiet : inspectedBytes e.flow.id toServer (ended.map .ended ++ before) = [] := by
      rw [inspectedBytes, List.flatMap_eq_nil_iff]
      intro event hevent
      apply inspected_of_mem_drain ended (h := ?_)
      · exact outputs
      · rcases List.mem_append.1 hevent with hmem | hmem
        · exact List.mem_append_left _ hmem
        · exact List.mem_append_right _ (by rw [hsplit]; exact List.mem_append_left _ hmem)
    rw [inspectedBytes_append, deliveredBytes_append, hbalanced, hquiet] at heq
    have hdelivered := (List.append_cancel_left heq).symm
    rw [deliveredBytes, List.flatMap_eq_nil_iff] at hdelivered
    have hfinal := hdelivered (.ended e) (List.mem_append_left _ (List.mem_map_of_mem he))
    simpa [Event.deliveredTo] using hfinal
  · intro hempty before flowId output after heq toServer
    have hquiet : inspectedBytes flowId toServer before = [] ∧
        deliveredBytes flowId toServer before = [] := by
      rw [inspectedBytes, deliveredBytes, List.flatMap_eq_nil_iff, List.flatMap_eq_nil_iff,
        ← forall₂_and]
      intro event hevent
      have hmem : event ∈ ended.map .ended ++
          List.zipWith Event.call (ended.map (fun e => .flowEnd e.flow.id)) outputs := by
        rw [heq]
        exact List.mem_append_left _ hevent
      refine ⟨inspected_of_mem_drain ended hmem flowId toServer, ?_⟩
      rcases List.mem_append.1 hmem with hend | hcall
      · obtain ⟨e, he, rfl⟩ := List.mem_map.1 hend
        simp [Event.deliveredTo, (isEmpty_iff_side _).1 (hempty e he)]
      · obtain ⟨call, _, other, rfl⟩ := mem_zipWith_call hcall
        rfl
    rw [inspectedBytes_append, deliveredBytes_append, hbalanced, hquiet.1, hquiet.2]

theorem balanced_drain (hempty : ∀ e ∈ ended, e.finalReady.isEmpty = true) :
    Balanced (ended.map .ended ++
      List.zipWith Event.call (ended.map (fun e => .flowEnd e.flow.id)) outputs) := by
  intro flowId toServer
  have hinspected : inspectedBytes flowId toServer (ended.map .ended ++
      List.zipWith Event.call (ended.map (fun e => .flowEnd e.flow.id)) outputs) = [] := by
    rw [inspectedBytes, List.flatMap_eq_nil_iff]
    exact fun event hevent => inspected_of_mem_drain ended hevent flowId toServer
  rw [hinspected, deliveredBytes_append, deliveredBytes_zipWith_call, List.append_nil,
    deliveredBytes,
    eq_comm, List.flatMap_eq_nil_iff]
  intro event hevent
  obtain ⟨e, he, rfl⟩ := List.mem_map.1 hevent
  simp [Event.deliveredTo, (isEmpty_iff_side _).1 (hempty e he)]

end Drain

/-- Every flow that leaves the table in a step leaves with nothing in order. -/
def Settles (D : Decoder) (p : PacketPipeline R A) : PipelineOp → Prop
  | .packet walks again sets packet =>
    TrackSettles D p walks again sets (D.decode packet.data packet.originalLen) packet.timestamp
  | .flush _ => ∀ key flow, p.flows.flows.lookup key = some flow → flow.Settled

/-- A step that starts with nothing to drain drains all it ends, and inspects what it delivers just
when it settles. -/
theorem step_inspects (D : Decoder) (p : PacketPipeline R A) (hengine : p.engine.isSome = true)
    (hended : p.flows.ended = []) (op : PipelineOp) {earlier : List Event}
    (hbalanced : Balanced earlier) :
    (p.step D op).1.engine.isSome = true ∧ (p.step D op).1.flows.ended = [] ∧
      (InspectedFrom earlier (p.step D op).2 ↔ p.Settles D op) ∧
      (p.Settles D op → Balanced (p.step D op).2) := by
  cases op with
  | packet walks again sets packet =>
    have htracked := track_inspects D p hengine walks again sets
      (D.decode packet.data packet.originalLen) packet.timestamp
    obtain ⟨hkept, hdrained, outputs, hlength, hevents⟩ :=
      drainEndedFlows_spec _ htracked.engine
    obtain ⟨gone, hgone, hsettled⟩ := htracked.ended
    rw [hended, List.nil_append] at hgone
    rw [hgone] at hlength hevents
    have hall : (p.step D (.packet walks again sets packet)).2 =
        (p.track D walks again sets (D.decode packet.data packet.originalLen) packet.timestamp).2 ++
          (gone.map .ended ++
            List.zipWith Event.call (gone.map (fun e => .flowEnd e.flow.id)) outputs) := by
      rw [← hevents]
      rfl
    refine ⟨hkept, hdrained, ?_, ?_⟩
    · rw [hall, inspectedFrom_append,
        inspectedFrom_drain_iff gone (hbalanced.append htracked.balanced) hlength, hsettled]
      exact ⟨fun h => h.2, fun h => ⟨inspectedFrom_of_no_flowEnd htracked.noFlowEnd, h⟩⟩
    · intro hsettles
      rw [hall]
      exact htracked.balanced.append (balanced_drain gone (hsettled.2 hsettles))
  | flush order =>
    obtain ⟨hkept, hdrained, outputs, hlength, hevents⟩ :=
      drainEndedFlows_spec { p with flows := p.flows.flush order } hengine
    have hgone := FlowTable.flush_ended p.flows order
    rw [hended, List.nil_append] at hgone
    rw [hgone] at hlength hevents
    have hsettled := FlowTable.flush_settled_iff p.flows order
    refine ⟨hkept, hdrained, ?_, ?_⟩
    · simp only [step, flush, hevents]
      rw [inspectedFrom_drain_iff _ hbalanced hlength, hsettled]
      rfl
    · intro hsettles
      simp only [step, flush, hevents]
      exact balanced_drain _ (hsettled.2 hsettles)

theorem run_inspectedFrom_iff (D : Decoder) (p : PacketPipeline R A)
    (hengine : p.engine.isSome = true) (hended : p.flows.ended = []) (ops : List PipelineOp)
    {earlier : List Event} (hbalanced : Balanced earlier) :
    InspectedFrom earlier (Runs.run (PacketPipeline.step D) p ops).2.flatten ↔
      Runs.Along (PacketPipeline.step D) (Settles D) p ops := by
  induction ops generalizing p earlier with
  | nil =>
    refine ⟨fun _ => trivial, fun _ => inspectedFrom_of_no_flowEnd ?_⟩
    simp
  | cons op rest ih =>
    obtain ⟨hkept, hdrained, hiff, hstep⟩ := step_inspects D p hengine hended op hbalanced
    rw [Runs.run_cons, List.flatten_cons, inspectedFrom_append, hiff]
    exact and_congr_right (fun hsettles => ih _ hkept hdrained (hbalanced.append (hstep hsettles)))

/-- However the packets go, the engine is given every delivered byte of a flow before it is told of
the flow's end exactly when no flow leaves the table, closed, timed out, evicted or at the final
flush, with bytes still in order. -/
theorem every_byte_inspected_iff (D : Decoder) (R : Regex) (A : AhoCorasick) (config : Config)
    (engine : Engine R A) (packets : List (Walks × Walks × HashOrder FragmentKey × RawPacket))
    (order : HashOrder FlowKey) :
    let p := (PacketPipeline.new R A config).arm engine
    let ops := packets.map (fun x => PipelineOp.packet x.1 x.2.1 x.2.2.1 x.2.2.2) ++ [.flush order]
    EveryByteInspected (Runs.run (PacketPipeline.step D) p ops).2.flatten ↔
      Runs.Along (PacketPipeline.step D) (Settles D) p ops := by
  intro p ops
  have hiff := run_inspectedFrom_iff D p rfl rfl ops balanced_nil
  rw [← hiff]
  rfl

/-- Decodes Ethernet frames of an IPv4 and a TCP header without options. -/
def plainDecoder : Decoder where
  decode frame _ :=
    let field := fun start count =>
      (Bytes.slice frame start (start + count)).foldl (fun n byte => n * 256 + byte.toNat) 0
    { frame := frame
      network := some (.ipv4 ⟨BitVec.ofNat 32 (field 26 4), BitVec.ofNat 32 (field 30 4),
        UInt8.ofNat (field 23 1), UInt16.ofNat (field 18 2), 0, false⟩)
      transport := some (.tcp ⟨UInt16.ofNat (field 34 2), UInt16.ofNat (field 36 2),
        UInt32.ofNat (field 38 4), UInt32.ofNat (field 42 4), UInt8.ofNat (field 47 1)⟩)
      payload := (54, frame.length)
      networkPayload := (34, frame.length) }
  decodeTransportBytes bytes _ := ⟨bytes, none, none, (0, 0), (0, 0)⟩

/-- The payload `ab` from 192.0.2.1, port 51000, to 198.51.100.1, port 80. -/
def sampleFrame : List UInt8 :=
  [0x02, 0, 0, 0, 0, 0x02, 0x02, 0, 0, 0, 0, 0x01, 0x08, 0x00,
   0x45, 0x00, 0x00, 0x2a, 0x00, 0x01, 0x00, 0x00, 0x40, 0x06, 0x8e, 0x97,
   0xc0, 0x00, 0x02, 0x01, 0xc6, 0x33, 0x64, 0x01,
   0xc7, 0x38, 0x00, 0x50, 0, 0, 0, 1, 0, 0, 0, 0, 0x50, 0x18, 0xff, 0xff, 0, 0, 0, 0,
   0x61, 0x62]

def sampleWalks : Walks := ⟨HashOrder.asStored _, HashOrder.asStored _⟩

/-- One segment that nobody acknowledges, then the end of the capture. -/
def lostTail : List Event :=
  (Runs.run (PacketPipeline.step plainDecoder)
    ((PacketPipeline.new Regex.none AhoCorasick.exhaustive smallWindowConfig).arm
      (sampleEngine {} [abRule]))
    [.packet sampleWalks sampleWalks (HashOrder.asStored _) ⟨sampleFrame, sampleFrame.length, 0⟩,
      .flush (HashOrder.asStored _)]).2.flatten

def sampleFlowId : UInt64 :=
  deriveFlowId (FlowKey.new 6 ⟨.v4 0xc0000201, 51000⟩ ⟨.v4 0xc6336401, 80⟩) 0

/-- The pattern `ab` is delivered as its flow ends, and the engine never sees it. -/
theorem unacknowledged_tail_uninspected :
    smallWindowConfig.check (fun _ => true) = .ok () ∧
      deliveredBytes sampleFlowId true lostTail = [0x61, 0x62] ∧
      inspectedBytes sampleFlowId true lostTail = [] ∧ ¬ EveryByteInspected lostTail := by
  refine ⟨by decide +kernel, by decide +kernel, by decide +kernel, ?_⟩
  intro h
  have hend : (lostTail[2]?).bind Event.flowEndId = some sampleFlowId := by decide +kernel
  have hsame := h.at_flowEnd hend true
  have hinspected : inspectedBytes sampleFlowId true (lostTail.take 2) = [] := by decide +kernel
  have hdelivered : deliveredBytes sampleFlowId true (lostTail.take 2) = [0x61, 0x62] := by
    decide +kernel
  rw [hinspected, hdelivered] at hsame
  exact absurd hsame (by simp)

end PacketPipeline
end CyberSentinel
