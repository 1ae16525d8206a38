import CyberSentinel.FlowCeiling
import CyberSentinel.Reassembly
import CyberSentinel.Tails

/-!
# One conversation among all the others

Every packet handed to the flow table is attributed to a flow. The packets of one conversation are
mixed with any others, their flow is one of many that are swept, evicted and closed around it, and
the engine is called for all of them. What the engine is handed for the conversation nevertheless
depends on its own packets only: it is what a pair of streams delivers that is given their segments
alone.
-/

namespace CyberSentinel

open Tables Detect

/-- What a packet pushes into the streams of a conversation between two endpoints. -/
def PacketSummary.push? (policy : IpAddr → OverlapPolicy) (initiator responder : Endpoint)
    (packet : PacketSummary) : Option Push :=
  packet.tcp.map (fun segment =>
    ⟨packet.source = initiator, segment, policy responder.ip, policy initiator.ip⟩)

/-- What the packets of a conversation push into its streams. The first of them opens it. -/
def pushesOf (policy : IpAddr → OverlapPolicy) : List PacketSummary → List Push
  | [] => []
  | first :: rest => (first ::
    rest).filterMap (PacketSummary.push? policy first.source first.destination)

theorem pushesOf_snoc (policy : IpAddr → OverlapPolicy) {mine rest : List PacketSummary}
    {first packet : PacketSummary} (hfirst : mine ++ [packet] = first :: rest) :
    pushesOf policy (mine ++ [packet]) =
      pushesOf policy mine ++ (packet.push? policy first.source first.destination).toList := by
  have hlast : [packet].filterMap (PacketSummary.push? policy first.source first.destination) =
      (packet.push? policy first.source first.destination).toList := by
    cases hpush : packet.push? policy first.source first.destination with
    | none => rw [List.filterMap_cons_none hpush, List.filterMap_nil, Option.toList_none]
    | some q => rw [List.filterMap_cons_some hpush, List.filterMap_nil, Option.toList_some]
  cases mine with
  | nil =>
    obtain ⟨rfl, rfl⟩ := List.cons.inj hfirst
    exact hlast
  | cons earlier others =>
    obtain ⟨rfl, rfl⟩ := List.cons.inj hfirst
    rw [List.cons_append, pushesOf, pushesOf, ← List.cons_append, List.filterMap_append, hlast]

namespace FlowTable

theorem updateFlow_endpoints (flow : Flow) (toServer : Bool) (packet : PacketSummary)
    (policy : IpAddr → OverlapPolicy) :
    (updateFlow flow toServer packet policy).1.initiator = flow.initiator ∧
      (updateFlow flow toServer packet policy).1.responder = flow.responder := by
  simp only [updateFlow]
  cases packet.tcp with
  | none => exact ⟨rfl, rfl⟩
  | some segment =>
    simp only [pushSegment, countPacket]
    cases flow.streams with
    | none => exact ⟨rfl, rfl⟩
    | some pair => exact ⟨rfl, rfl⟩

/-- The streams of a flow are pushed what its packet carries, and deliver what the packet made
deliverable. -/
theorem updateFlow_push {flow : Flow} {pair : StreamPair} (hstreams : flow.streams = some pair)
    (packet : PacketSummary) (policy : IpAddr → OverlapPolicy) :
    let q := packet.push? policy flow.initiator flow.responder
    (updateFlow flow (packet.source = flow.initiator) packet policy).1.streams =
        some (Runs.run StreamPair.step pair q.toList).1 ∧
      ∀ toServer, (updateFlow flow (packet.source = flow.initiator) packet policy).2.1.side
      toServer =
        delivered toServer (Runs.run StreamPair.step pair q.toList).2 := by
  intro q
  cases htcp : packet.tcp with
  | none =>
    have hq : q = none := by simp only [q, PacketSummary.push?, htcp, Option.map_none]
    rw [hq]
    simp only [updateFlow, htcp, countPacket]
    refine ⟨hstreams, fun toServer => ?_⟩
    cases toServer <;> rfl
  | some segment =>
    have hq : q = some ⟨packet.source = flow.initiator, segment, policy flow.responder.ip,
        policy flow.initiator.ip⟩ := by simp only [q, PacketSummary.push?, htcp, Option.map_some]
    rw [hq]
    simp only [updateFlow, htcp, pushSegment, countPacket, hstreams]
    refine ⟨rfl, fun toServer => ?_⟩
    simp only [Option.toList_some, Runs.run_cons, Runs.run_nil, delivered, List.flatMap_cons,
      List.flatMap_nil, List.append_nil]
    rfl

theorem newFlow_responder (t : FlowTable) (packet : PacketSummary) :
    (t.newFlow (packetKey packet) packet).responder = packet.destination := by
  simp only [Flow.responder, newFlow, packetKey, FlowKey.new]
  split_ifs with hle hsource hsource
  · rfl
  · exact absurd rfl hsource
  · exact hsource
  · rfl

/-- Nothing has happened to the flow at a key but that it may have left. -/
def OnlyLoses (key : FlowKey) (t t' : FlowTable) : Prop :=
  t'.flows.lookup key = none ∨ t'.flows.lookup key = t.flows.lookup key

theorem OnlyLoses.removeFlow {key : FlowKey} {t t' : FlowTable} (h : OnlyLoses key t t')
    (reason : EndReason) (other : FlowKey) : OnlyLoses key t (removeFlow reason t' other) := by
  unfold OnlyLoses
  rw [lookup_removeFlow]
  split_ifs
  · exact Or.inl rfl
  · exact h

theorem prepare_onlyLoses (t : FlowTable) (order : HashOrder FlowKey) (packet : PacketSummary)
    (other key : FlowKey) : OnlyLoses key t (t.prepare order packet other) :=
  prepare_invariant (P := OnlyLoses key t) (fun reason _ other h => h.removeFlow reason other)
    (fun _ _ h => h) order packet other (Or.inr rfl)

/-- A packet of another conversation leaves a flow as it is, if it leaves it at all. -/
theorem observe_onlyLoses (t : FlowTable) (order : HashOrder FlowKey) {packet : PacketSummary}
    (policy : IpAddr → OverlapPolicy) {key : FlowKey} (hother : packetKey packet ≠ key) :
    OnlyLoses key t (t.observe order packet policy).1 := by
  apply observe_invariant (P := OnlyLoses key t) (fun reason _ other h => h.removeFlow reason other)
  unfold OnlyLoses
  rw [stored_flows, AList.lookup_insert_ne hother.symm]
  exact prepare_onlyLoses t order packet _ key

/-- After a packet of its own a flow is what the packet made of it, if it is still there. -/
theorem observe_own (t : FlowTable) (order : HashOrder FlowKey) (packet : PacketSummary)
    (policy : IpAddr → OverlapPolicy) :
    (t.observe order packet policy).1.flows.lookup (packetKey packet) = none ∨
      (t.observe order packet policy).1.flows.lookup (packetKey packet) =
        some (t.flowAfter order packet policy) := by
  rw [observe_eq]
  split_ifs
  · rw [lookup_removeFlow, if_pos rfl]
    exact Or.inl rfl
  · rw [stored_flows, AList.lookup_insert]
    exact Or.inr rfl

theorem observe_reassembly (t : FlowTable) (order : HashOrder FlowKey) (packet : PacketSummary)
    (policy : IpAddr → OverlapPolicy) :
    (t.observe order packet policy).1.reassembly = t.reassembly := by
  apply observe_invariant (P := fun t' => t'.reassembly = t.reassembly)
    (fun reason t' key h => (removeFlow_limits reason t' key).2.trans h)
  rw [(t.stored_limits order packet policy).2]
  exact prepare_invariant (P := fun t' => t'.reassembly = t.reassembly)
    (fun reason t' key h => (removeFlow_limits reason t' key).2.trans h) (fun _ _ h => h) order
    packet _ rfl

end FlowTable

/-- A packet handed to the flow table, and what it was attributed to. -/
structure Attribution where
  packet : PacketSummary
  observed : Observed
  deriving DecidableEq, Repr

def conversation (key : FlowKey) (all : List Attribution) : List Attribution :=
  all.filter (fun a => FlowTable.packetKey a.packet = key)

def packetsOf (key : FlowKey) (all : List Attribution) : List PacketSummary :=
  (conversation key all).map Attribution.packet

/-- The identifier is that of the conversation's packets and of no others, and its flow is opened by
its first packet only. -/
structure Sole (key : FlowKey) (flowId : UInt64) (all : List Attribution) : Prop where
  identified : ∀ a ∈ all, FlowTable.packetKey a.packet = key ↔ a.observed.flowId = flowId
  openedOnce : ∀ a ∈ (conversation key all).tail, a.observed.isNew = false

theorem conversation_append (key : FlowKey) (xs ys : List Attribution) :
    conversation key (xs ++ ys) = conversation key xs ++ conversation key ys :=
  List.filter_append ..

theorem conversation_own {key : FlowKey} {a : Attribution} (h : FlowTable.packetKey a.packet = key)
    (all : List Attribution) : conversation key (all ++ [a]) = conversation key all ++ [a] := by
  have hone : conversation key [a] = [a] := List.filter_cons_of_pos (decide_eq_true h)
  rw [conversation_append, hone]

theorem conversation_other {key : FlowKey} {a : Attribution}
    (h : FlowTable.packetKey a.packet ≠ key) (all : List Attribution) :
    conversation key (all ++ [a]) = conversation key all := by
  have hnone : conversation key [a] = [] :=
    List.filter_cons_of_neg (by rw [decide_eq_true_iff]; exact h)
  rw [conversation_append, hnone, List.append_nil]

theorem Sole.of_append {key : FlowKey} {flowId : UInt64} {xs ys : List Attribution}
    (h : Sole key flowId (xs ++ ys)) : Sole key flowId xs := by
  refine ⟨fun a ha => h.identified a (List.mem_append_left _ ha), fun a ha => h.openedOnce a ?_⟩
  rw [conversation_append, List.tail_append]
  split_ifs with hempty
  · rw [List.isEmpty_iff.1 hempty] at ha
    exact absurd ha List.not_mem_nil
  · exact List.mem_append_left _ ha

theorem Sole.first {key : FlowKey} {flowId : UInt64} {all : List Attribution} {a : Attribution}
    (h : Sole key flowId (all ++ [a])) (hkey : FlowTable.packetKey a.packet = key)
    (hnew : a.observed.isNew = true) : conversation key all = [] := by
  by_contra hne
  have hlater : a ∈ (conversation key (all ++ [a])).tail := by
    rw [conversation_own hkey, List.tail_append_of_ne_nil hne]
    exact List.mem_append_right _ (List.mem_singleton_self a)
  exact absurd hnew (by rw [h.openedOnce a hlater]; exact Bool.false_ne_true)

variable {R : Regex} {A : AhoCorasick}

namespace PacketPipeline

def attribution (p : PacketPipeline R A) (walks : Walks) (packet : PacketSummary) : Attribution :=
  ⟨packet, (p.flows.observe walks.flows packet p.policy.forDestination).2.1⟩

/-- The packets handed over one after the other, each with what it is attributed to. -/
def attributedAll (p : PacketPipeline R A) : List (Walks × PacketSummary) → List Attribution
  | [] => []
  | (walks, packet) :: rest =>
    p.attribution walks packet :: (p.observe walks packet).1.attributedAll rest

def attributedBy (D : Decoder) (p : PacketPipeline R A) : PipelineOp → List Attribution
  | .packet walks again sets raw =>
    p.attributedAll ([walks, again].zip
      (p.handed D sets (D.decode raw.data raw.originalLen) raw.timestamp))
  | .flush _ => []

def attributed (D : Decoder) (p : PacketPipeline R A) : List PipelineOp → List Attribution
  | [] => []
  | op :: rest => p.attributedBy D op ++ (p.step D op).1.attributed D rest

/-- After the packets attributed so far: the conversation's flow, if it is in the table, is the one
its first packet opened, with its streams where the conversation's own segments have brought them;
and the bytes handed to the engine for it are those that the streams delivered. -/
structure Isolates (config : ReassemblyConfig) (policy : PolicyResolver) (key : FlowKey)
    (flowId : UInt64) (all : List Attribution) (trace : List Event) (p : PacketPipeline R A) :
    Prop where
  engine : p.engine.isSome = true
  policy_eq : p.policy = policy
  reassembly_eq : p.flows.reassembly = config
  live : ∀ flow, p.flows.flows.lookup key = some flow →
    ∃ first rest, packetsOf key all = first :: rest ∧ flow.id = flowId ∧
      flow.initiator = first.source ∧ flow.responder = first.destination ∧
      flow.streams = some (Runs.run StreamPair.step (StreamPair.new config)
        (pushesOf policy.forDestination (packetsOf key all))).1
  inspected : ∀ toServer, inspectedBytes flowId toServer trace =
    delivered toServer (Runs.run StreamPair.step (StreamPair.new config)
      (pushesOf policy.forDestination (packetsOf key all))).2

theorem observe_inspected (p : PacketPipeline R A) (hengine : p.engine.isSome = true)
    (walks : Walks)
    (packet : PacketSummary) :
    let result := p.flows.observe walks.flows packet p.policy.forDestination
    (p.observe walks packet).1.engine.isSome = true ∧
      (p.observe walks packet).1.flows = result.1 ∧
      ∀ flowId toServer, inspectedBytes flowId toServer (p.observe walks packet).2 =
        if flowId = result.2.1.flowId then result.2.2.side toServer else [] := by
  intro result
  have hdatagram := inspectDatagram_handsOver { p with flows := result.1 } hengine walks result.2.1
    packet
  have hstreams := consumeReady_handsOver _ hdatagram.engine walks result.2.1.flowId
    (if result.2.1.toServer then summaryTuple packet else (summaryTuple packet).reverse)
    packet.timestamp result.2.2
  refine ⟨hstreams.engine, hstreams.flows.trans hdatagram.flows, ?_⟩
  intro flowId toServer
  have hevents : inspectedBytes flowId toServer (p.observe walks packet).2 =
      inspectedBytes flowId toServer ([.delivered result.2.1.flowId result.2.2] ++
        (({ p with flows := result.1 }.inspectDatagram walks result.2.1 packet).2 ++
          (({ p with flows := result.1 }.inspectDatagram walks result.2.1 packet).1.consumeReady
          walks
            result.2.1.flowId
            (if result.2.1.toServer then summaryTuple packet else (summaryTuple packet).reverse)
            packet.timestamp result.2.2).2)) := rfl
  rw [hevents, inspectedBytes_append, inspectedBytes_append, hdatagram.inspected,
    hstreams.inspected]
  rfl

section Observe

variable {config : ReassemblyConfig} {policy : PolicyResolver} {key : FlowKey}
  {flowId : UInt64} {all : List Attribution} {trace : List Event} {p : PacketPipeline R A}

/-- The flow that one of the conversation's packets is attributed to is the conversation's, with its
streams where the packets before have brought them. -/
theorem Isolates.flowFor (h : Isolates config policy key flowId all trace p)
    (htcp : key.protocol = tcpProtocol) (walks : Walks) {packet : PacketSummary}
    (hkey : FlowTable.packetKey packet = key)
    (hsole : Sole key flowId (all ++ [p.attribution walks packet])) :
    let flow := p.flows.flowFor walks.flows packet
    ∃ first rest, packetsOf key all ++ [packet] = first :: rest ∧ flow.id = flowId ∧
      flow.initiator = first.source ∧ flow.responder = first.destination ∧
      flow.streams = some (Runs.run StreamPair.step (StreamPair.new config)
        (pushesOf policy.forDestination (packetsOf key all))).1 := by
  intro flow
  have hid : flow.id = flowId :=
    (hsole.identified _ (List.mem_append_right _ (List.mem_singleton_self _))).1 hkey
  have hflow : flow = ((p.flows.prepare walks.flows packet key).flows.lookup key).getD
      ((p.flows.prepare walks.flows packet key).newFlow key packet) := by
    subst hkey
    exact FlowTable.entry_flow _ _ packet
  cases hlookup : (p.flows.prepare walks.flows packet key).flows.lookup key with
  | some before =>
    rw [hlookup, Option.getD_some] at hflow
    have hbefore : p.flows.flows.lookup key = some before := by
      rcases FlowTable.prepare_onlyLoses p.flows walks.flows packet key key with hnone | hsame
      · rw [hlookup] at hnone
        exact absurd hnone (by simp)
      · rw [← hsame, hlookup]
    obtain ⟨first, rest, hmine, _, hinitiator, hresponder, hstreams⟩ := h.live before hbefore
    rw [hflow]
    exact ⟨first, rest ++ [_], by rw [hmine, List.cons_append], hflow ▸ hid, hinitiator, hresponder,
      hstreams⟩
  | none =>
    -- the packet opens the flow, so it is the conversation's first
    rw [hlookup, Option.getD_none] at hflow
    have hnew : (p.attribution walks packet).observed.isNew = true := by
      have hprepare := FlowTable.prepare_lookup p.flows walks.flows packet key
      rw [hlookup] at hprepare
      subst hkey
      exact hprepare.symm
    have hfirst : packetsOf key all = [] := by
      rw [packetsOf, hsole.first hkey hnew, List.map_nil]
    have hprotocol : packet.protocol = tcpProtocol := by
      rw [← htcp, ← hkey, FlowTable.packetKey, FlowKey.new]
      split_ifs <;> rfl
    have hreassembly : (p.flows.prepare walks.flows packet key).reassembly = config := by
      rw [← h.reassembly_eq]
      exact FlowTable.prepare_invariant (P := fun t' => t'.reassembly = p.flows.reassembly)
        (fun reason t' other h => (FlowTable.removeFlow_limits reason t' other).2.trans h)
        (fun _ _ h => h) walks.flows packet key rfl
    rw [hfirst, hflow]
    refine ⟨_, [], rfl, hflow ▸ hid, rfl, ?_, ?_⟩
    · rw [← hkey]
      exact FlowTable.newFlow_responder _ packet
    · simp only [FlowTable.newFlow, if_pos hprotocol, hreassembly]
      rfl

/-- A packet of the conversation: the streams of its flow are pushed what it carries. -/
theorem Isolates.observe_own (h : Isolates config policy key flowId all trace p)
    (htcp : key.protocol = tcpProtocol) (walks : Walks) {packet : PacketSummary}
    (hkey : FlowTable.packetKey packet = key)
    (hsole : Sole key flowId (all ++ [p.attribution walks packet])) :
    Isolates config policy key flowId (all ++ [p.attribution walks packet])
      (trace ++ (p.observe walks packet).2) (p.observe walks packet).1 := by
  obtain rfl := h.policy_eq
  obtain ⟨hengine, hflows, hinspected⟩ := p.observe_inspected h.engine walks packet
  obtain ⟨first, rest, hfirst, hid, hinitiator, hresponder, hstreams⟩ :=
    h.flowFor htcp walks hkey hsole
  obtain ⟨hpushed, hready⟩ :=
    FlowTable.updateFlow_push hstreams packet p.policy.forDestination
  obtain ⟨hsameId, _⟩ := FlowTable.updateFlow_identity (p.flows.flowFor walks.flows packet)
    (packet.source = (p.flows.flowFor walks.flows packet).initiator) packet p.policy.forDestination
  obtain ⟨hsameInitiator, hsameResponder⟩ := FlowTable.updateFlow_endpoints
    (p.flows.flowFor walks.flows packet)
    (packet.source = (p.flows.flowFor walks.flows packet).initiator) packet p.policy.forDestination
  have hmine : packetsOf key (all ++ [p.attribution walks packet]) =
      packetsOf key all ++ [packet] := by
    rw [packetsOf, conversation_own (a := p.attribution walks packet) hkey, List.map_append]
    rfl
  have hpushes := pushesOf_snoc p.policy.forDestination hfirst
  have hown : flowId = (p.attribution walks packet).observed.flowId :=
    ((hsole.identified _ (List.mem_append_right _ (List.mem_singleton_self _))).1 hkey).symm
  have hpush : packet.push? p.policy.forDestination (p.flows.flowFor walks.flows packet).initiator
      (p.flows.flowFor walks.flows packet).responder =
      packet.push? p.policy.forDestination first.source first.destination := by
    rw [hinitiator, hresponder]
  rw [hpush] at hpushed hready
  refine ⟨hengine, ?_, ?_, ?_, ?_⟩
  · exact (observe_keepsDefrag walks packet).policy_eq p
  · rw [hflows, FlowTable.observe_reassembly, h.reassembly_eq]
  · intro flow hflow
    rw [hflows, ← hkey] at hflow
    rcases FlowTable.observe_own p.flows walks.flows packet p.policy.forDestination with
      hgone | hthere
    · rw [hgone] at hflow
      exact absurd hflow (by simp)
    · rw [hthere] at hflow
      obtain rfl := Option.some.inj hflow
      rw [hmine, hpushes, Runs.run_append]
      refine ⟨first, rest, hfirst, hsameId.trans hid, hsameInitiator.trans hinitiator,
        hsameResponder.trans hresponder, hpushed⟩
  · intro toServer
    rw [inspectedBytes_append, h.inspected, hinspected, hmine, hpushes, Runs.run_append, delivered,
      delivered, List.flatMap_append]
    exact congrArg (_ ++ ·) ((if_pos hown).trans (hready toServer))

/-- A packet of another conversation: at most, the flow is no longer there. -/
theorem Isolates.observe_other (h : Isolates config policy key flowId all trace p) (walks : Walks)
    {packet : PacketSummary} (hkey : FlowTable.packetKey packet ≠ key)
    (hsole : Sole key flowId (all ++ [p.attribution walks packet])) :
    Isolates config policy key flowId (all ++ [p.attribution walks packet])
      (trace ++ (p.observe walks packet).2) (p.observe walks packet).1 := by
  obtain ⟨hengine, hflows, hinspected⟩ := p.observe_inspected h.engine walks packet
  have hother : flowId ≠ (p.attribution walks packet).observed.flowId := fun heq => hkey
    ((hsole.identified _ (List.mem_append_right _ (List.mem_singleton_self _))).2 heq.symm)
  have hmine : packetsOf key (all ++ [p.attribution walks packet]) = packetsOf key all := by
    rw [packetsOf, conversation_other (a := p.attribution walks packet) hkey, packetsOf]
  refine ⟨hengine, ?_, ?_, ?_, ?_⟩
  · rw [(observe_keepsDefrag walks packet).policy_eq p, h.policy_eq]
  · rw [hflows, FlowTable.observe_reassembly, h.reassembly_eq]
  · intro flow hflow
    rw [hflows] at hflow
    rw [hmine]
    rcases FlowTable.observe_onlyLoses p.flows walks.flows p.policy.forDestination hkey with
      hgone | hsame
    · rw [hgone] at hflow
      exact absurd hflow (by simp)
    · exact h.live flow (hsame ▸ hflow)
  · intro toServer
    rw [inspectedBytes_append, hinspected, hmine, h.inspected]
    exact (congrArg (_ ++ ·) (if_neg hother)).trans (List.append_nil _)

theorem Isolates.observe (h : Isolates config policy key flowId all trace p)
    (htcp : key.protocol = tcpProtocol) (walks : Walks) (packet : PacketSummary)
    (hsole : Sole key flowId (all ++ [p.attribution walks packet])) :
    Isolates config policy key flowId (all ++ [p.attribution walks packet])
      (trace ++ (p.observe walks packet).2) (p.observe walks packet).1 := by
  by_cases hkey : FlowTable.packetKey packet = key
  · exact h.observe_own htcp walks hkey hsole
  · exact h.observe_other walks hkey hsole

theorem Isolates.observeAll (h : Isolates config policy key flowId all trace p)
    (htcp : key.protocol = tcpProtocol) (packets : List (Walks × PacketSummary))
    (hsole : Sole key flowId (all ++ p.attributedAll packets)) :
    Isolates config policy key flowId (all ++ p.attributedAll packets)
      (trace ++ (p.observeAll packets).2) (p.observeAll packets).1 := by
  induction packets generalizing p all trace with
  | nil =>
    rw [attributedAll, PacketPipeline.observeAll, List.append_nil, List.append_nil]
    exact h
  | cons packet rest ih =>
    rw [attributedAll, List.append_cons] at hsole ⊢
    have hrest := ih (h.observe htcp packet.1 packet.2 hsole.of_append) hsole
    rw [List.append_assoc trace] at hrest
    exact hrest

theorem Isolates.with_defrag (h : Isolates config policy key flowId all trace p)
    (d : Defragmenter) :
    Isolates config policy key flowId all trace { p with defrag := d } :=
  ⟨h.engine, h.policy_eq, h.reassembly_eq, h.live, h.inspected⟩

theorem drainEndedFlows_flows (p : PacketPipeline R A) (hengine : p.engine.isSome = true) :
    p.drainEndedFlows.1.flows.flows = p.flows.flows ∧
      p.drainEndedFlows.1.flows.reassembly = p.flows.reassembly := by
  have hflows : p.takeFinalDeliveries.1.flows = p.flows :=
    (callAll_spec { p with streamBytesDelivered := p.streamBytesDelivered +
      (p.flows.ended.map (fun e : EndedFlow => e.finalReady.len)).sum } hengine
      (p.flows.ended.map (fun e : EndedFlow => .flowEnd e.flow.id))).2.1
  unfold drainEndedFlows
  split_ifs
  · exact ⟨rfl, rfl⟩
  · dsimp only
    exact ⟨congrArg FlowTable.flows hflows, congrArg FlowTable.reassembly hflows⟩

/-- Draining hands nothing over and touches no flow that is still in the table. -/
theorem Isolates.drain (h : Isolates config policy key flowId all trace p) :
    Isolates config policy key flowId all (trace ++ p.drainEndedFlows.2) p.drainEndedFlows.1 := by
  obtain ⟨hengine, -, outputs, -, hevents⟩ := p.drainEndedFlows_spec h.engine
  obtain ⟨hflows, hreassembly⟩ := p.drainEndedFlows_flows h.engine
  refine ⟨hengine, ?_, hreassembly.trans h.reassembly_eq, ?_, ?_⟩
  · rw [drainEndedFlows_keepsDefrag.policy_eq p, h.policy_eq]
  · rw [hflows]
    exact h.live
  · intro toServer
    have hnone : inspectedBytes flowId toServer p.drainEndedFlows.2 = [] := by
      rw [hevents, inspectedBytes, List.flatMap_eq_nil_iff]
      exact fun event hevent => inspected_of_mem_drain p.flows.ended hevent flowId toServer
    rw [inspectedBytes_append, hnone, List.append_nil, h.inspected]

theorem Isolates.flush (h : Isolates config policy key flowId all trace p)
    (order : HashOrder FlowKey) :
    Isolates config policy key flowId all trace { p with flows := p.flows.flush order } := by
  obtain ⟨hflows, -, -, hreassembly⟩ := p.flows.flush_fields order
  refine ⟨h.engine, h.policy_eq, hreassembly.trans h.reassembly_eq, ?_, h.inspected⟩
  intro flow hflow
  rw [hflows, AList.lookup_empty] at hflow
  exact absurd hflow (by simp)

theorem Isolates.step (h : Isolates config policy key flowId all trace p)
    (htcp : key.protocol = tcpProtocol) (D : Decoder) (op : PipelineOp)
    (hsole : Sole key flowId (all ++ p.attributedBy D op)) :
    Isolates config policy key flowId (all ++ p.attributedBy D op) (trace ++ (p.step D op).2)
      (p.step D op).1 := by
  cases op with
  | packet walks again sets raw =>
    have htracked := (h.observeAll htcp _ hsole).with_defrag
      (((D.decode raw.data raw.originalLen).network.filter Network.isFragment).elim p.defrag
        (fun network => (p.defragment sets network (D.decode raw.data raw.originalLen)
          raw.timestamp).1.defrag))
    have hdrained := htracked.drain
    rw [List.append_assoc] at hdrained
    simp only [PacketPipeline.step, onPacket, track_eq_observeAll]
    exact hdrained
  | flush order =>
    rw [attributedBy, List.append_nil]
    exact (h.flush order).drain

theorem Isolates.run (h : Isolates config policy key flowId all trace p)
    (htcp : key.protocol = tcpProtocol) (D : Decoder) (ops : List PipelineOp)
    (hsole : Sole key flowId (all ++ p.attributed D ops)) :
    Isolates config policy key flowId (all ++ p.attributed D ops)
      (trace ++ (Runs.run (PacketPipeline.step D) p ops).2.flatten)
      (Runs.run (PacketPipeline.step D) p ops).1 := by
  induction ops generalizing p all trace with
  | nil =>
    rw [attributed, Runs.run_nil, List.flatten_nil, List.append_nil, List.append_nil]
    exact h
  | cons op rest ih =>
    rw [attributed, ← List.append_assoc] at hsole ⊢
    rw [Runs.run_cons, List.flatten_cons, ← List.append_assoc]
    exact ih (h.step htcp D op hsole.of_append) hsole

end Observe

theorem isolates_new (R : Regex) (A : AhoCorasick) (config : Config) (engine : Engine R A)
    (key : FlowKey) (flowId : UInt64) :
    Isolates config.reassembly (PolicyResolver.ofConfig config.reassembly) key flowId [] []
      ((PacketPipeline.new R A config).arm engine) := by
  refine ⟨rfl, rfl, rfl, ?_, fun _ => rfl⟩
  intro flow hflow
  exact absurd hflow (by simp [arm, PacketPipeline.new, FlowTable.withReassembly])

theorem isolates_run (R : Regex) (A : AhoCorasick) (D : Decoder) (config : Config)
    (engine : Engine R A) (ops : List PipelineOp) {key : FlowKey} {flowId : UInt64}
    (htcp : key.protocol = tcpProtocol)
    (hsole : Sole key flowId (((PacketPipeline.new R A config).arm engine).attributed D ops)) :
    let p := (PacketPipeline.new R A config).arm engine
    Isolates config.reassembly (PolicyResolver.ofConfig config.reassembly) key flowId
      (p.attributed D ops) (Runs.run (PacketPipeline.step D) p ops).2.flatten
      (Runs.run (PacketPipeline.step D) p ops).1 :=
  (isolates_new R A config engine key flowId).run htcp D ops hsole

/-- Whatever else passes the sensor, interleaved in any way, and however its tables are walked,
swept and evicted: as long as the flow of a TCP conversation is opened once and no other flow has
its identifier, the engine is handed for it exactly what a pair of streams delivers that is given
the conversation's own segments and nothing else. -/
theorem inspected_eq_delivered_alone (R : Regex) (A : AhoCorasick) (D : Decoder) (config : Config)
    (engine : Engine R A) (ops : List PipelineOp) (key : FlowKey) (flowId : UInt64)
    (htcp : key.protocol = tcpProtocol)
    (hsole : Sole key flowId (((PacketPipeline.new R A config).arm engine).attributed D ops))
    (toServer : Bool) :
    let p := (PacketPipeline.new R A config).arm engine
    let pushes := pushesOf (PolicyResolver.ofConfig config.reassembly).forDestination
      (packetsOf key (p.attributed D ops))
    inspectedBytes flowId toServer (Runs.run (PacketPipeline.step D) p ops).2.flatten =
      delivered toServer (Runs.run StreamPair.step
      (StreamPair.new config.reassembly) pushes).2 := by
  intro p pushes
  exact (isolates_run R A D config engine ops htcp hsole).inspected toServer

/-- An Ethernet frame with an IPv4 and a TCP header without options, between 192.0.2.1 and
198.51.100.1, port 80. -/
def segmentFrame (toServer : Bool) (port : UInt16) (sequence acknowledgment : UInt32)
    (flags : UInt8)
    (payload : List UInt8) : List UInt8 :=
  let client := [0xc0, 0x00, 0x02, 0x01]
  let server := [0xc6, 0x33, 0x64, 0x01]
  let ports := [bigEndian 2 port.toNat, [0x00, 0x50]]
  List.replicate 12 0 ++ [0x08, 0x00, 0x45, 0] ++ bigEndian 2 (40 + payload.length) ++
    [0, 1, 0, 0, 0x40, 0x06, 0, 0] ++ (if toServer then client ++ server else server ++ client) ++
    (if toServer then ports else ports.reverse).flatten ++ bigEndian 4 sequence.toNat ++
    bigEndian 4 acknowledgment.toNat ++ [0x50, flags, 0xff, 0xff, 0, 0, 0, 0] ++ payload

def frameOp (timestamp : Instant) (frame : List UInt8) : PipelineOp :=
  .packet sampleWalks sampleWalks (HashOrder.asStored _) ⟨frame, frame.length, timestamp⟩

/-- A message of two segments, the second one first, with a segment of another client between them,
and then its acknowledgment. -/
def twoClients : List PipelineOp :=
  [frameOp 0 (segmentFrame true 51000 6 0 Flags.syn []),
    frameOp 1 (segmentFrame true 51000 8 0 0 [0x62]),
    frameOp 2 (segmentFrame true 51001 7 0 0 [0x78]),
    frameOp 3 (segmentFrame true 51000 7 0 0 [0x61]),
    frameOp 4 (segmentFrame false 51000 1 9 Flags.ack [])]

theorem inspected_eq_delivered_alone_two_clients :
    inspectedBytes sampleFlowId true (Runs.run (PacketPipeline.step plainDecoder)
      ((PacketPipeline.new Regex.none AhoCorasick.exhaustive smallWindowConfig).arm
        (sampleEngine {} [abRule])) twoClients).2.flatten = [0x61, 0x62] := by
  have halone := inspected_eq_delivered_alone Regex.none AhoCorasick.exhaustive plainDecoder
    smallWindowConfig (sampleEngine {} [abRule]) twoClients
    (FlowKey.new 6 ⟨.v4 0xc0000201, 51000⟩ ⟨.v4 0xc6336401, 80⟩) sampleFlowId (by decide)
    ⟨by decide +kernel, by decide +kernel⟩ true
  exact halone.trans (by decide +kernel)

end PacketPipeline
end CyberSentinel
