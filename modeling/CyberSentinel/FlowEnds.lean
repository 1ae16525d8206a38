import CyberSentinel.FlowAccounts

/-!
# What the engine is told of one flow

The calls that a run of the pipeline makes on the engine are a run of the engine. Among them, the
calls for one flow follow a discipline: bytes come with the tuple of the packet that opened it, seen
from the side that sends, and once the engine has been told of the flow's end, and so has dropped
its state, no call is about the flow any more. What carries it is the ledger of the flow table: a
flow that was opened once is open, has ended or has been reported, and only one of the three.
-/

namespace CyberSentinel

open Tables Detect

variable {R : Regex} {A : AhoCorasick}

def Detect.Call.about : Call → UInt64
  | .packet _ flowId _ _ _ _ | .stream _ flowId _ _ _ _ | .flowEnd flowId => flowId

def Event.call? : Event → Option (Call × Output)
  | .call engineCall output => some (engineCall, output)
  | _ => none

def callsOf (trace : List Event) : List (Call × Output) := trace.filterMap Event.call?

/-- The flow that an event calls the engine for. -/
def Event.about (event : Event) : Option UInt64 := event.call?.map (fun c => c.1.about)

theorem callsOf_append (xs ys : List Event) : callsOf (xs ++ ys) = callsOf xs ++ callsOf ys :=
  List.filterMap_append

namespace PacketPipeline

/-- The engine goes through the run of the calls that the events show, with the outputs they show.
-/
def Drives (p : PacketPipeline R A) (r : PacketPipeline R A × List Event) : Prop :=
  ∀ e ∈ p.engine, let calls := (callsOf r.2).map Prod.fst
    r.1.engine = some (Runs.run Engine.step e calls).1 ∧
      (callsOf r.2).map Prod.snd = (Runs.run Engine.step e calls).2

theorem Drives.of_silent {p : PacketPipeline R A} {r : PacketPipeline R A × List Event}
    (hengine : r.1.engine = p.engine) (hevents : callsOf r.2 = []) : Drives p r := by
  intro e he
  rw [hevents, hengine]
  exact ⟨he, rfl⟩

theorem Drives.andThen {p : PacketPipeline R A} {r r' : PacketPipeline R A × List Event}
    (h : Drives p r) (h' : Drives r.1 r') : Drives p (r'.1, r.2 ++ r'.2) := by
  intro e he
  obtain ⟨hengine, houtputs⟩ := h e he
  obtain ⟨hengine', houtputs'⟩ := h' _ hengine
  dsimp only at houtputs houtputs' ⊢
  rw [callsOf_append, List.map_append, List.map_append, Runs.run_append]
  exact ⟨hengine', by rw [houtputs, houtputs']⟩

theorem callEngine_drives (p : PacketPipeline R A) (call : Call) :
    Drives p (p.callEngine call) := by
  intro e he
  rw [callEngine, Option.mem_def.1 he]
  exact ⟨rfl, rfl⟩

theorem callAll_drives (p : PacketPipeline R A) (calls : List Call) :
    Drives p (p.callAll calls) := by
  induction calls generalizing p with
  | nil => exact Drives.of_silent rfl rfl
  | cons call rest ih => exact (callEngine_drives p call).andThen (ih _)

theorem observe_drives (p : PacketPipeline R A) (walks : Walks) (packet : PacketSummary) :
    Drives p (p.observe walks packet) := by
  have hdatagram (q : PacketPipeline R A) (observed : Observed) :
      Drives q (q.inspectDatagram walks observed packet) := by
    unfold inspectDatagram
    split_ifs
    · exact callEngine_drives q _
    · exact Drives.of_silent rfl rfl
  have hstreams (q : PacketPipeline R A) (flowId : UInt64) (oriented : NetTuple)
      (ready : StreamReady) :
      Drives q (q.consumeReady walks flowId oriented packet.timestamp ready) := by
    unfold consumeReady
    split_ifs
    · exact Drives.of_silent rfl rfl
    · exact callAll_drives { q with streamBytesDelivered := q.streamBytesDelivered + ready.len } _
  exact (hdatagram { p with
    flows := (p.flows.observe walks.flows packet p.policy.forDestination).1 } _).andThen
      (hstreams _ _ _ _)

theorem observeAll_drives (p : PacketPipeline R A) (packets : List (Walks × PacketSummary)) :
    Drives p (p.observeAll packets) := by
  induction packets generalizing p with
  | nil => exact Drives.of_silent rfl rfl
  | cons packet rest ih => exact (observe_drives p packet.1 packet.2).andThen (ih _)

theorem callsOf_map_ended (ended : List EndedFlow) : callsOf (ended.map .ended) = [] := by
  induction ended with
  | nil => rfl
  | cons e rest ih => exact ih

theorem drainEndedFlows_drives (p : PacketPipeline R A) : Drives p p.drainEndedFlows := by
  unfold drainEndedFlows
  split_ifs
  · exact Drives.of_silent rfl rfl
  · intro e he
    have hcalls := callAll_drives { p with streamBytesDelivered := p.streamBytesDelivered +
      (p.flows.ended.map (fun e : EndedFlow => e.finalReady.len)).sum }
      (p.flows.ended.map (fun e : EndedFlow => .flowEnd e.flow.id)) e he
    simp only [takeFinalDeliveries, callsOf_append, callsOf_map_ended, List.nil_append]
    exact hcalls

theorem step_drives (D : Decoder) (p : PacketPipeline R A) (op : PipelineOp) :
    Drives p (p.step D op) := by
  cases op with
  | packet walks again sets raw =>
    have htracked : Drives p (p.track D walks again sets (D.decode raw.data raw.originalLen)
        raw.timestamp) := by
      rw [track_eq_observeAll]
      exact observeAll_drives p _
    exact htracked.andThen (drainEndedFlows_drives _)
  | flush order => exact drainEndedFlows_drives { p with flows := p.flows.flush order }

theorem run_drives (D : Decoder) (p : PacketPipeline R A) (ops : List PipelineOp) :
    Drives p ((Runs.run (PacketPipeline.step D) p ops).1,
      (Runs.run (PacketPipeline.step D) p ops).2.flatten) := by
  induction ops generalizing p with
  | nil => exact Drives.of_silent rfl rfl
  | cons op rest ih =>
    rw [Runs.run_cons, List.flatten_cons]
    exact (step_drives D p op).andThen (ih _)

end PacketPipeline

/-- The tuple of a conversation as its first packet has it, seen from the side that sends. -/
def PacketSummary.tupleToward (first : PacketSummary) (toServer : Bool) : NetTuple :=
  if toServer then summaryTuple first else (summaryTuple first).reverse

theorem flowKey_new_eq {protocol protocol' : UInt8} {a b a' b' : Endpoint}
    (h : FlowKey.new protocol a b = FlowKey.new protocol' a' b') :
    protocol = protocol' ∧ (a = a' ∧ b = b' ∨ a = b' ∧ b = a') := by
  simp only [FlowKey.new] at h
  split_ifs at h <;> obtain ⟨hprotocol, hfirst, hsecond⟩ := FlowKey.mk.inj h
  · exact ⟨hprotocol, Or.inl ⟨hfirst, hsecond⟩⟩
  · exact ⟨hprotocol, Or.inr ⟨hfirst, hsecond⟩⟩
  · exact ⟨hprotocol, Or.inr ⟨hsecond, hfirst⟩⟩
  · exact ⟨hprotocol, Or.inl ⟨hsecond, hfirst⟩⟩

/-- Turned towards the side that opened the conversation, all its packets show one tuple. -/
theorem oriented_eq {first packet : PacketSummary}
    (hkey : FlowTable.packetKey packet = FlowTable.packetKey first) :
    (if packet.source = first.source then summaryTuple packet else (summaryTuple packet).reverse) =
      summaryTuple first := by
  obtain ⟨hprotocol, ⟨hsource, hdestination⟩ | ⟨hsource, hdestination⟩⟩ := flowKey_new_eq hkey
  · rw [if_pos hsource, summaryTuple, hprotocol, hsource, hdestination]
    rfl
  · split_ifs with hsame
    · rw [summaryTuple, hprotocol, hdestination, ← hsame, hsource]
      have hboth : first.source = first.destination := hsame.symm.trans hsource
      rw [summaryTuple, hboth]
    · rw [summaryTuple, hprotocol, hsource, hdestination]
      rfl

/-- The packets that a flow of the identifier was opened by. -/
def openersOf (flowId : UInt64) (all : List Attribution) : List PacketSummary :=
  (all.filter (fun a => a.observed.isNew && a.observed.flowId = flowId)).map Attribution.packet

/-- The flows that were opened, each with its key. -/
def openings (all : List Attribution) : List (FlowKey × UInt64) :=
  (all.filter (fun a => a.observed.isNew)).map
    (fun a => (FlowTable.packetKey a.packet, a.observed.flowId))

theorem openersOf_append (flowId : UInt64) (xs ys : List Attribution) :
    openersOf flowId (xs ++ ys) = openersOf flowId xs ++ openersOf flowId ys := by
  rw [openersOf, List.filter_append, List.map_append]
  rfl

theorem openings_append (xs ys : List Attribution) :
    openings (xs ++ ys) = openings xs ++ openings ys := by
  rw [openings, List.filter_append, List.map_append]
  rfl

theorem length_openersOf (flowId : UInt64) (all : List Attribution) :
    (openersOf flowId all).length = (openings all).countP (fun o => o.2 = flowId) := by
  rw [openersOf, List.length_map, openings, List.countP_map, List.countP_filter,
    List.countP_eq_length_filter]
  exact congrArg List.length (List.filter_congr fun a _ => Bool.and_comm _ _)

theorem length_openersOf_le (flowId : UInt64) (xs ys : List Attribution) :
    (openersOf flowId xs).length ≤ (openersOf flowId (xs ++ ys)).length := by
  rw [openersOf_append, List.length_append]
  exact Nat.le_add_right _ _

/-- A conversation that is opened once, under an identifier of its own, is opened by its first
packet. -/
theorem Sole.openers {key : FlowKey} {flowId : UInt64} {all : List Attribution}
    (h : Sole key flowId all) :
    (openersOf flowId all).length ≤ 1 ∧
      ∀ first ∈ openersOf flowId all, first ∈ (packetsOf key all).head? := by
  have hfilter : all.filter (fun a => a.observed.isNew && a.observed.flowId = flowId) =
      (conversation key all).filter (fun a => a.observed.isNew) := by
    rw [conversation, List.filter_filter]
    refine List.filter_congr fun a ha => ?_
    simp only [h.identified a ha]
  rw [openersOf, hfilter, packetsOf]
  cases hmine : conversation key all with
  | nil => simp
  | cons a rest =>
    have hlater : rest.filter (fun a => a.observed.isNew) = [] := by
      refine List.filter_eq_nil_iff.2 fun b hb hnew => ?_
      have hold := h.openedOnce b (by rw [hmine]; exact hb)
      exact absurd hnew (by rw [hold]; exact Bool.false_ne_true)
    rw [List.filter_cons, hlater]
    split_ifs
    · simp
    · simp

namespace FlowTable

/-- A flow of that identifier is in the table, or has left it and is not drained yet. -/
def Carries (t : FlowTable) (flowId : UInt64) : Prop :=
  (∃ key flow, t.flows.lookup key = some flow ∧ flow.id = flowId) ∨
    ∃ e ∈ t.ended, e.flow.id = flowId

variable {t : FlowTable} {flowId : UInt64}

theorem Carries.removeFlow (h : t.Carries flowId) (reason : EndReason) (key : FlowKey) :
    (removeFlow reason t key).Carries flowId := by
  cases hlookup : t.flows.lookup key with
  | none =>
    rw [removeFlow_none hlookup]
    exact h
  | some flow =>
    obtain ⟨hflows, -, hended⟩ := removeFlow_some hlookup reason
    rcases h with ⟨other, flow', hflow, hid⟩ | ⟨e, he, hid⟩
    · by_cases hother : other = key
      · -- the flow itself leaves
        rw [hother, hlookup] at hflow
        obtain rfl := Option.some.inj hflow
        refine Or.inr ⟨departure flow reason, ?_, (departure_flow flow reason).1.trans hid⟩
        rw [hended]
        exact List.mem_append_right _ (List.mem_singleton_self _)
      · refine Or.inl ⟨other, flow', ?_, hid⟩
        rw [hflows, AList.lookup_erase_ne hother]
        exact hflow
    · refine Or.inr ⟨e, ?_, hid⟩
      rw [hended]
      exact List.mem_append_left _ he

theorem flowAfter_id (t : FlowTable) (order : HashOrder FlowKey) (packet : PacketSummary)
    (policy : IpAddr → OverlapPolicy) :
    (t.flowAfter order packet policy).id = (t.observe order packet policy).2.1.flowId :=
  (updateFlow_identity (t.flowFor order packet) _ packet policy).1

theorem Carries.observe (h : t.Carries flowId) (order : HashOrder FlowKey) (packet : PacketSummary)
    (policy : IpAddr → OverlapPolicy) : (t.observe order packet policy).1.Carries flowId := by
  apply observe_invariant (P := fun t => t.Carries flowId) (fun reason _ key h =>
    h.removeFlow reason key)
  have hready : (t.prepare order packet (packetKey packet)).Carries flowId :=
    prepare_invariant (P := fun t => t.Carries flowId) (fun reason _ key h =>
      h.removeFlow reason key)
      (fun _ _ h => h) order packet _ h
  have hended : (t.stored order packet policy).ended =
      (t.prepare order packet (packetKey packet)).ended := entry_ended _ _ packet
  rcases hready with ⟨key, flow, hflow, hid⟩ | ⟨e, he, hid⟩
  · by_cases hkey : key = packetKey packet
    · rw [hkey] at hflow
      refine Or.inl ⟨packetKey packet, t.flowAfter order packet policy, ?_, ?_⟩
      · rw [stored_flows, AList.lookup_insert]
      · have hfor : t.flowFor order packet = flow := by
          have hentry := (t.prepare order packet (packetKey packet)).entry_flow
            (packetKey packet) packet
          rw [hflow, Option.getD_some] at hentry
          exact hentry
        rw [flowAfter, (updateFlow_identity _ _ packet policy).1, hfor]
        exact hid
    · refine Or.inl ⟨key, flow, ?_, hid⟩
      rw [stored_flows, AList.lookup_insert_ne hkey]
      exact hflow
  · refine Or.inr ⟨e, ?_, hid⟩
    rw [hended]
    exact he

theorem carries_observed (t : FlowTable) (order : HashOrder FlowKey) (packet : PacketSummary)
    (policy : IpAddr → OverlapPolicy) :
    (t.observe order packet policy).1.Carries (t.observe order packet policy).2.1.flowId := by
  apply observe_invariant (P := fun t' => t'.Carries (t.observe order packet policy).2.1.flowId)
    (fun reason _ key h => h.removeFlow reason key)
  refine Or.inl ⟨packetKey packet, t.flowAfter order packet policy, ?_,
    flowAfter_id t order packet policy⟩
  rw [stored_flows, AList.lookup_insert]

theorem Carries.flush (h : t.Carries flowId) (order : HashOrder FlowKey) :
    (t.flush order).Carries flowId := by
  refine Or.inr ?_
  rw [flush_ended]
  rcases h with ⟨key, flow, hflow, hid⟩ | ⟨e, he, hid⟩
  · refine ⟨departure flow .sensorStopped, List.mem_append_right _ ?_,
      (departure_flow flow .sensorStopped).1.trans hid⟩
    exact List.mem_map_of_mem (f := fun entry : FlowKey × Flow => departure entry.2 .sensorStopped)
      ((mem_iter order t.flows key flow).2 hflow)
  · exact ⟨e, List.mem_append_left _ he, hid⟩

/-- A packet of the conversation finds its flow in the table unless it opens it. -/
theorem isNew_of_lookup_eq_none (t : FlowTable) (order : HashOrder FlowKey) {packet : PacketSummary}
    (policy : IpAddr → OverlapPolicy)
    (h : (t.prepare order packet (packetKey packet)).flows.lookup (packetKey packet) = none) :
    (t.observe order packet policy).2.1.isNew = true := by
  have hprepare := t.prepare_lookup order packet (packetKey packet)
  rw [h] at hprepare
  exact hprepare.symm

section Ledger

variable {opened : List (FlowKey × UInt64)} {drained : List EndedFlow} {t : FlowTable}

theorem count_idsOpened (key : FlowKey) (flowId : UInt64) (opened : List (FlowKey × UInt64)) :
    (idsOpened key opened).count flowId = opened.count (key, flowId) := by
  rw [idsOpened, List.count_eq_countP, List.countP_map, List.countP_filter,
    List.count_eq_countP]
  refine List.countP_congr fun entry _ => ?_
  simp [Prod.ext_iff, and_comm]

theorem count_idsReported (key : FlowKey) (flowId : UInt64) (reported : List EndedFlow) :
    (idsReported key reported).count flowId =
      (reported.map (fun e => (e.flow.key, e.flow.id))).count (key, flowId) := by
  rw [idsReported, List.count_eq_countP, List.countP_map, List.countP_filter,
    List.count_eq_countP, List.countP_map]
  refine List.countP_congr fun e _ => ?_
  simp [and_comm]

/-- The flows that were opened are those that were reported and those that are in the table. -/
theorem Ledger.perm (h : Ledger opened drained t) (order : HashOrder FlowKey) :
    opened.Perm ((drained ++ t.ended).map (fun e => (e.flow.key, e.flow.id)) ++
      (iter order t.flows).map (fun entry => (entry.1, entry.2.id))) := by
  rw [List.perm_iff_count]
  rintro ⟨key, flowId⟩
  have hlive : ((t.flows.lookup key).map Flow.id).toList.count flowId =
      ((iter order t.flows).map (fun entry => (entry.1, entry.2.id))).count (key, flowId) := by
    have hown : ((iter order t.flows).map (fun entry => (entry.1, entry.2.id))).count
        (key, flowId) = ((iter order t.flows).filter (fun entry => entry.1 = key)).countP
          (fun entry => entry.2.id = flowId) := by
      rw [List.count_eq_countP, List.countP_map, List.countP_filter]
      refine List.countP_congr fun entry _ => ?_
      simp [and_comm]
    rw [hown, filter_iter]
    cases t.flows.lookup key with
    | none => rfl
    | some flow => simp [List.count_singleton, List.countP_cons]
  rw [List.count_append, ← count_idsReported, ← count_idsOpened, h.creations key,
    List.count_append, hlive]

theorem Ledger.drain (h : Ledger opened drained t) :
    Ledger opened (drained ++ t.ended) { t with ended := [] } := by
  have hmoved : drained ++ t.ended ++ [] = drained ++ t.ended := List.append_nil _
  refine ⟨h.keyed, ?_, ?_, ?_⟩
  · rw [hmoved]
    exact h.created
  · rw [hmoved]
    exact h.tallies
  · rw [hmoved]
    exact h.creations

variable {flowId : UInt64} (hone : opened.countP (fun o => o.2 = flowId) ≤ 1)

include hone

/-- A flow opened once is in the table or has been reported, and not both. -/
theorem Ledger.once (h : Ledger opened drained t) (order : HashOrder FlowKey) :
    drained.countP (fun e => e.flow.id = flowId) + t.ended.countP (fun e => e.flow.id = flowId) +
      (iter order t.flows).countP (fun entry => entry.2.id = flowId) ≤ 1 := by
  rw [(h.perm order).countP_eq, List.countP_append, List.countP_map, List.countP_map,
    List.countP_append] at hone
  exact hone

theorem Ledger.not_carries (h : Ledger opened drained t) {e : EndedFlow} (he : e ∈ drained)
    (hid : e.flow.id = flowId) : ¬ t.Carries flowId := by
  have honce := h.once hone (HashOrder.asStored _)
  have hdrained : 0 < drained.countP (fun e => e.flow.id = flowId) :=
    List.countP_pos_iff.2 ⟨e, he, decide_eq_true hid⟩
  rintro (⟨key, flow, hflow, hlive⟩ | ⟨e', he', hid'⟩)
  · have hcount : 0 < (iter (HashOrder.asStored _) t.flows).countP
        (fun entry => entry.2.id = flowId) :=
      List.countP_pos_iff.2 ⟨(key, flow), (mem_iter _ t.flows key flow).2 hflow,
        decide_eq_true hlive⟩
    omega
  · have hcount : 0 < t.ended.countP (fun e => e.flow.id = flowId) :=
      List.countP_pos_iff.2 ⟨e', he', decide_eq_true hid'⟩
    omega

theorem Ledger.ended_pairwise (h : Ledger opened drained t) :
    t.ended.Pairwise (fun e e' => e.flow.id = flowId → e'.flow.id ≠ flowId) := by
  have honce := h.once hone (HashOrder.asStored _)
  refine List.pairwise_iff_forall_sublist.2 fun {e e'} hsub hid hid' => ?_
  have htwo : [e, e'].countP (fun e => e.flow.id = flowId) ≤
      t.ended.countP (fun e => e.flow.id = flowId) := hsub.countP_le
  simp only [List.countP_cons, List.countP_nil, hid, hid', decide_true, if_true] at htwo
  omega

end Ledger

/-- Every flow of the table was opened by a packet of its key, from the side that opened it. -/
def Opened (all : List Attribution) (t : FlowTable) : Prop :=
  ∀ key flow, t.flows.lookup key = some flow →
    ∃ first ∈ openersOf flow.id all, packetKey first = key ∧ first.source = flow.initiator

section Opened

variable {all : List Attribution} {t : FlowTable}

/-- So was the flow that a packet is attributed to, if the packet itself does not open it. -/
theorem Opened.flowFor (h : Opened all t) (order : HashOrder FlowKey) (packet : PacketSummary)
    (policy : IpAddr → OverlapPolicy) :
    ∃ first ∈ openersOf (t.flowFor order packet).id
        (all ++ [⟨packet, (t.observe order packet policy).2.1⟩]),
      packetKey first = packetKey packet ∧
        first.source = (t.flowFor order packet).initiator := by
  have hflow : t.flowFor order packet =
      ((t.prepare order packet (packetKey packet)).flows.lookup (packetKey packet)).getD
        ((t.prepare order packet (packetKey packet)).newFlow (packetKey packet) packet) :=
    entry_flow _ _ packet
  rw [openersOf_append]
  cases hlookup : (t.prepare order packet (packetKey packet)).flows.lookup (packetKey packet) with
  | none =>
    have hnew := t.isNew_of_lookup_eq_none order policy hlookup
    have hid : (t.observe order packet policy).2.1.flowId = (t.flowFor order packet).id := rfl
    refine ⟨packet, List.mem_append_right _ ?_, rfl, ?_⟩
    · simp [openersOf, hnew, hid]
    · rw [hflow, hlookup]
      rfl
  | some flow =>
    rw [hlookup, Option.getD_some] at hflow
    have hbefore : t.flows.lookup (packetKey packet) = some flow := by
      rcases t.prepare_onlyLoses order packet (packetKey packet) (packetKey packet) with
        hnone | hsame
      · rw [hlookup] at hnone
        exact absurd hnone (by simp)
      · rw [← hsame, hlookup]
    obtain ⟨first, hfirst, hown⟩ := h _ flow hbefore
    rw [hflow]
    exact ⟨first, List.mem_append_left _ hfirst, hown⟩

theorem Opened.observe (h : Opened all t) (order : HashOrder FlowKey) (packet : PacketSummary)
    (policy : IpAddr → OverlapPolicy) :
    Opened (all ++ [⟨packet, (t.observe order packet policy).2.1⟩])
      (t.observe order packet policy).1 := by
  intro key flow hlookup
  by_cases hkey : key = packetKey packet
  · subst hkey
    rcases t.observe_own order packet policy with hgone | hafter
    · rw [hgone] at hlookup
      exact absurd hlookup (by simp)
    · rw [hafter] at hlookup
      obtain rfl := Option.some.inj hlookup
      obtain ⟨hinitiator, -⟩ := updateFlow_endpoints (t.flowFor order packet)
        (packet.source = (t.flowFor order packet).initiator) packet policy
      obtain ⟨hid, -⟩ := updateFlow_identity (t.flowFor order packet)
        (packet.source = (t.flowFor order packet).initiator) packet policy
      rw [flowAfter, hid, hinitiator]
      exact h.flowFor order packet policy
  · rcases t.observe_onlyLoses order policy (Ne.symm hkey) with hgone | hsame
    · rw [hgone] at hlookup
      exact absurd hlookup (by simp)
    · obtain ⟨first, hfirst, hown⟩ := h key flow (hsame ▸ hlookup)
      rw [openersOf_append]
      exact ⟨first, List.mem_append_left _ hfirst, hown⟩

end Opened
end FlowTable

namespace PacketPipeline

theorem inspectDatagram_quiet (p : PacketPipeline R A) (walks : Walks) (observed : Observed)
    (packet : PacketSummary) (flowId : UInt64) (toServer : Bool) :
    ∀ event ∈ (p.inspectDatagram walks observed packet).2,
      event.inspected flowId toServer = [] := by
  unfold inspectDatagram callEngine
  split_ifs
  · cases p.engine with
    | none => simp
    | some engine => simp [Event.inspected, Call.delivery]
  · simp

theorem consumeReady_events (p : PacketPipeline R A) (hengine : p.engine.isSome = true)
    (walks : Walks)
    (id : UInt64) (oriented : NetTuple) (timestamp : Instant) (ready : StreamReady) {event : Event}
    (hevent : event ∈ (p.consumeReady walks id oriented timestamp ready).2) {flowId : UInt64}
    {toServer : Bool} (hne : event.inspected flowId toServer ≠ []) :
    flowId = id ∧ ∃ bytes output, event = .call (.stream walks.states flowId
      (if toServer then oriented else oriented.reverse) toServer bytes timestamp) output := by
  unfold consumeReady at hevent
  split_ifs at hevent
  · exact absurd hevent List.not_mem_nil
  · obtain ⟨-, -, -, -, outputs, -, hcalls⟩ := callAll_spec
      { p with streamBytesDelivered := p.streamBytesDelivered + ready.len } hengine
      (streamCalls walks id oriented timestamp ready)
    rw [hcalls] at hevent
    obtain ⟨call, hcall, output, rfl⟩ := mem_zipWith_call hevent
    obtain ⟨side, hside, hstream⟩ := List.mem_filterMap.1 hcall
    split_ifs at hstream
    rw [← Option.some.inj hstream] at hne ⊢
    -- a call delivers to its own flow and direction only
    have hmine : flowId = id ∧ toServer = side.1 := by
      by_contra hother
      exact hne (if_neg hother)
    obtain ⟨rfl, rfl⟩ := hmine
    refine ⟨rfl, ready.side side.1, output, ?_⟩
    simp only [List.mem_cons, List.not_mem_nil, or_false] at hside
    rcases hside with rfl | rfl
    · rfl
    · rfl

/-- What hands over bytes while a packet is observed is a call for its flow, with its tuple. -/
theorem observe_events (p : PacketPipeline R A) (hengine : p.engine.isSome = true) (walks : Walks)
    (packet : PacketSummary) {event : Event} (hevent : event ∈ (p.observe walks packet).2)
    {flowId : UInt64} {toServer : Bool} (hne : event.inspected flowId toServer ≠ []) :
    let observed := (p.attribution walks packet).observed
    let oriented := if observed.toServer then summaryTuple packet else (summaryTuple packet).reverse
    flowId = observed.flowId ∧ ∃ bytes output, event = .call (.stream walks.states flowId
      (if toServer then oriented else oriented.reverse) toServer bytes packet.timestamp)
      output := by
  -- whatever the flow table answers
  have hany (flows : FlowTable) (observed : Observed) (ready : StreamReady) (oriented : NetTuple)
      (h : event ∈ Event.delivered observed.flowId ready ::
        (({ p with flows := flows }.inspectDatagram walks observed packet).2 ++
          (({ p with flows := flows }.inspectDatagram walks observed packet).1.consumeReady walks
            observed.flowId oriented packet.timestamp ready).2)) :
      flowId = observed.flowId ∧ ∃ bytes output, event = .call (.stream walks.states flowId
        (if toServer then oriented else oriented.reverse) toServer bytes packet.timestamp)
        output := by
    have hdatagram := inspectDatagram_handsOver
      { p with flows := flows } hengine walks observed packet
    rcases List.mem_cons.1 h with heq | hrest
    · rw [heq] at hne
      exact absurd rfl hne
    · rcases List.mem_append.1 hrest with hmem | hmem
      · exact absurd (inspectDatagram_quiet _ walks observed packet flowId toServer event hmem) hne
      · exact consumeReady_events _ hdatagram.engine walks observed.flowId oriented packet.timestamp
          ready hmem hne
  exact hany _ _ _ _ hevent

theorem streamCalls_about (walks : Walks) (id : UInt64) (oriented : NetTuple)
    (timestamp : Instant) (ready : StreamReady) :
    ∀ call ∈ streamCalls walks id oriented timestamp ready, call.about = id := by
  intro call hcall
  obtain ⟨side, -, hstream⟩ := List.mem_filterMap.1 hcall
  split_ifs at hstream
  rw [← Option.some.inj hstream]
  rfl

theorem callAll_about (p : PacketPipeline R A) (hengine : p.engine.isSome = true)
    (calls : List Call) {event : Event} (hevent : event ∈ (p.callAll calls).2) :
    ∃ call ∈ calls, event.about = some call.about := by
  obtain ⟨-, -, -, -, outputs, -, hcalls⟩ := p.callAll_spec hengine calls
  rw [hcalls] at hevent
  obtain ⟨call, hcall, output, rfl⟩ := mem_zipWith_call hevent
  exact ⟨call, hcall, rfl⟩

theorem inspectDatagram_about (p : PacketPipeline R A) (hengine : p.engine.isSome = true)
    (walks : Walks) (observed : Observed) (packet : PacketSummary) {event : Event}
    (hevent : event ∈ (p.inspectDatagram walks observed packet).2) :
    event.about = some observed.flowId := by
  unfold inspectDatagram at hevent
  split_ifs at hevent
  · rw [← List.append_nil (callEngine _ _).2] at hevent
    obtain ⟨call, hcall, hid⟩ := p.callAll_about hengine [.packet walks.states observed.flowId
      (summaryTuple packet) observed.toServer packet.payload packet.timestamp] hevent
    rw [hid, List.mem_singleton.1 hcall]
    rfl
  · exact absurd hevent List.not_mem_nil

theorem consumeReady_about (p : PacketPipeline R A) (hengine : p.engine.isSome = true)
    (walks : Walks) (id : UInt64) (oriented : NetTuple) (timestamp : Instant) (ready : StreamReady)
    {event : Event} (hevent : event ∈ (p.consumeReady walks id oriented timestamp ready).2) :
    event.about = some id := by
  unfold consumeReady at hevent
  split_ifs at hevent
  · exact absurd hevent List.not_mem_nil
  · obtain ⟨call, hcall, hid⟩ := callAll_about
      { p with streamBytesDelivered := p.streamBytesDelivered + ready.len } hengine _ hevent
    rw [hid, streamCalls_about walks id oriented timestamp ready call hcall]

/-- All calls made while a packet is observed are about the flow that it is attributed to. -/
theorem observe_about (p : PacketPipeline R A) (hengine : p.engine.isSome = true) (walks : Walks)
    (packet : PacketSummary) {event : Event} (hevent : event ∈ (p.observe walks packet).2)
    {flowId : UInt64} (habout : event.about = some flowId) :
    (p.attribution walks packet).observed.flowId = flowId := by
  -- whatever the flow table answers
  have hany (flows : FlowTable) (observed : Observed) (ready : StreamReady) (oriented : NetTuple)
      (h : event ∈ Event.delivered observed.flowId ready ::
        (({ p with flows := flows }.inspectDatagram walks observed packet).2 ++
          (({ p with flows := flows }.inspectDatagram walks observed packet).1.consumeReady walks
            observed.flowId oriented packet.timestamp ready).2)) :
      observed.flowId = flowId := by
    have hdatagram := inspectDatagram_handsOver
      { p with flows := flows } hengine walks observed packet
    rcases List.mem_cons.1 h with heq | hrest
    · rw [heq] at habout
      exact absurd habout (by simp [Event.about, Event.call?])
    · rcases List.mem_append.1 hrest with hmem | hmem
      · rw [inspectDatagram_about { p with flows := flows } hengine walks observed packet hmem]
          at habout
        exact Option.some.inj habout
      · rw [consumeReady_about _ hdatagram.engine walks _ _ _ _ hmem] at habout
        exact Option.some.inj habout
  exact hany _ _ _ _ hevent

theorem opened_kept : KeptByTable (fun reported all t =>
    FlowTable.Ledger (openings all) reported t ∧ FlowTable.Opened all t) := by
  refine ⟨?_, ?_, ?_⟩
  · rintro reported all t ⟨hledger, hopened⟩ order packet policy
    refine ⟨?_, hopened.observe order packet policy⟩
    have hnew : openings [⟨packet, (t.observe order packet policy).2.1⟩] =
        t.opens (.observe order packet policy) := by
      by_cases hisNew : (t.observe order packet policy).2.1.isNew = true
      · simp [openings, FlowTable.opens, hisNew, FlowTable.packetKey]
      · simp [openings, FlowTable.opens, hisNew]
    rw [openings_append, hnew]
    exact hledger.observe order packet policy
  · rintro reported all t ⟨hledger, -⟩ order
    refine ⟨hledger.flush order, fun key flow hflow => ?_⟩
    rw [(t.flush_fields order).1, AList.lookup_empty] at hflow
    exact absurd hflow (by simp)
  · rintro reported all t ⟨hledger, hopened⟩
    exact ⟨hledger.drain, hopened⟩

/-- Of flows that differ in the identifier no end is told twice. -/
theorem flowEnds_pairwise {flowId : UInt64} {ended : List EndedFlow}
    (h : ended.Pairwise (fun e e' => e.flow.id = flowId → e'.flow.id ≠ flowId))
    (outputs : List Output) :
    (List.zipWith Event.call (ended.map (fun e => .flowEnd e.flow.id)) outputs).Pairwise
      (fun earlier later => earlier.flowEndId = some flowId → later.about ≠ some flowId) := by
  induction ended generalizing outputs with
  | nil => exact List.Pairwise.nil
  | cons e rest ih =>
    obtain ⟨hlater, hrest⟩ := List.pairwise_cons.1 h
    cases outputs with
    | nil => exact List.Pairwise.nil
    | cons output others =>
      refine List.pairwise_cons.2 ⟨fun later hmem hid habout => ?_, ih hrest others⟩
      obtain ⟨call, hcall, output', rfl⟩ := mem_zipWith_call hmem
      obtain ⟨e', he', rfl⟩ := List.mem_map.1 hcall
      exact hlater e' he' (Option.some.inj hid) (Option.some.inj habout)

/-- What the engine has been told of a flow: all bytes came with the tuple of the packet that opened
it, and no call was about it after its end. -/
structure Told (flowId : UInt64) (all : List Attribution) (trace : List Event)
    (p : PacketPipeline R A) : Prop where
  engine : p.engine.isSome = true
  ledger : FlowTable.Ledger (openings all) (endedIn trace) p.flows
  opened : FlowTable.Opened all p.flows
  ends : ∀ event ∈ trace, event.flowEndId = some flowId → ∃ e ∈ endedIn trace, e.flow.id = flowId
  silent : trace.Pairwise (fun earlier later =>
    earlier.flowEndId = some flowId → later.about ≠ some flowId)
  tuple : ∀ event ∈ trace, ∀ toServer, event.inspected flowId toServer ≠ [] →
    ∃ first ∈ openersOf flowId all, ∃ order bytes timestamp output,
      event = .call (.stream order flowId (first.tupleToward toServer) toServer bytes timestamp)
      output

section Told

variable {flowId : UInt64} {all : List Attribution} {trace : List Event} {p : PacketPipeline R A}

/-- The tuple that a flow's packets show, turned towards the side that opened it. -/
theorem Told.oriented (h : Told flowId all trace p) (walks : Walks) (packet : PacketSummary) :
    let a := p.attribution walks packet
    ∃ first ∈ openersOf a.observed.flowId (all ++ [a]),
      (if a.observed.toServer then summaryTuple packet else (summaryTuple packet).reverse) =
        summaryTuple first := by
  intro a
  obtain ⟨first, hfirst, hkey, hsource⟩ :=
    h.opened.flowFor walks.flows packet p.policy.forDestination
  refine ⟨first, hfirst, ?_⟩
  have hdirection : a.observed.toServer =
      decide (packet.source = (p.flows.flowFor walks.flows packet).initiator) := rfl
  rw [hdirection, ← hsource, ← oriented_eq hkey.symm]
  simp only [decide_eq_true_iff]

theorem Told.observe (h : Told flowId all trace p) (walks : Walks) (packet : PacketSummary)
    (hone : (openersOf flowId (all ++ [p.attribution walks packet])).length ≤ 1) :
    Told flowId (all ++ [p.attribution walks packet]) (trace ++ (p.observe walks packet).2)
      (p.observe walks packet).1 := by
  obtain ⟨hengine, -, -⟩ := p.observe_inspected h.engine walks packet
  obtain ⟨hflows, hended⟩ := p.observe_flows walks packet
  have hreported : endedIn (trace ++ (p.observe walks packet).2) = endedIn trace := by
    rw [endedIn_append, hended, List.append_nil]
  obtain ⟨hledger, hopened⟩ := opened_kept.observe ⟨h.ledger, h.opened⟩ walks.flows packet
    p.policy.forDestination
  have hquiet := (observe_inspects p h.engine walks packet).noFlowEnd
  refine ⟨hengine, ?_, ?_, ?_, ?_, ?_⟩
  · rw [hreported, hflows]
    exact hledger
  · rw [hflows]
    exact hopened
  · intro event hevent hid
    rw [hreported]
    rcases List.mem_append.1 hevent with hold | hnew
    · exact h.ends event hold hid
    · rw [hquiet event hnew] at hid
      exact absurd hid (by simp)
  · rw [List.pairwise_append]
    refine ⟨h.silent, List.pairwise_of_forall_mem_list ?_, ?_⟩
    · intro x hx y _ hid
      rw [hquiet x hx] at hid
      exact absurd hid (by simp)
    · -- a flow that the packet is attributed to has not been reported
      intro x hx y hy hid habout
      obtain ⟨e, he, hsame⟩ := h.ends x hx hid
      rw [length_openersOf] at hone
      refine hledger.not_carries hone he hsame ?_
      rw [← observe_about p h.engine walks packet hy habout]
      exact FlowTable.carries_observed _ _ _ _
  · intro event hevent toServer hne
    rcases List.mem_append.1 hevent with hold | hnew
    · obtain ⟨first, hfirst, hcall⟩ := h.tuple event hold toServer hne
      rw [openersOf_append]
      exact ⟨first, List.mem_append_left _ hfirst, hcall⟩
    · obtain ⟨hid, bytes, output, hcall⟩ := observe_events p h.engine walks packet hnew hne
      obtain ⟨first, hfirst, horiented⟩ := h.oriented walks packet
      rw [horiented] at hcall
      exact ⟨first, hid ▸ hfirst, walks.states, bytes, packet.timestamp, output, hcall⟩

theorem Told.drain (h : Told flowId all trace p) (hone : (openersOf flowId all).length ≤ 1) :
    Told flowId all (trace ++ p.drainEndedFlows.2) p.drainEndedFlows.1 := by
  obtain ⟨hengine, -, outputs, hlength, hevents⟩ := p.drainEndedFlows_spec h.engine
  obtain ⟨hflows, hreports⟩ := p.drainEndedFlows_reports
  have hreported : endedIn (trace ++ p.drainEndedFlows.2) = endedIn trace ++ p.flows.ended := by
    rw [endedIn_append, hreports]
  rw [length_openersOf] at hone
  -- what a drain calls for is the end of a flow that has left
  have hdrained : ∀ event ∈ p.drainEndedFlows.2, ∀ id, event.flowEndId = some id ∨
      event.about = some id → ∃ e ∈ p.flows.ended, e.flow.id = id := by
    intro event hevent id hid
    rw [hevents] at hevent
    rcases List.mem_append.1 hevent with hmem | hmem
    · obtain ⟨e, -, rfl⟩ := List.mem_map.1 hmem
      exact absurd hid (by simp [Event.flowEndId, Event.about, Event.call?])
    · obtain ⟨call, hcall, output, rfl⟩ := mem_zipWith_call hmem
      obtain ⟨e, he, rfl⟩ := List.mem_map.1 hcall
      exact ⟨e, he, hid.elim Option.some.inj Option.some.inj⟩
  refine ⟨hengine, ?_, ?_, ?_, ?_, ?_⟩
  · rw [hreported, hflows]
    exact h.ledger.drain
  · rw [hflows]
    exact h.opened
  · intro event hevent hid
    rw [hreported]
    rcases List.mem_append.1 hevent with hold | hnew
    · obtain ⟨e, he, hsame⟩ := h.ends event hold hid
      exact ⟨e, List.mem_append_left _ he, hsame⟩
    · obtain ⟨e, he, hsame⟩ := hdrained event hnew flowId (Or.inl hid)
      exact ⟨e, List.mem_append_right _ he, hsame⟩
  · rw [List.pairwise_append]
    refine ⟨h.silent, ?_, ?_⟩
    · rw [hevents, List.pairwise_append]
      refine ⟨?_, ?_, ?_⟩
      · refine List.pairwise_of_forall_mem_list fun x hx y _ hid => ?_
        obtain ⟨e, -, rfl⟩ := List.mem_map.1 hx
        exact absurd hid (by simp [Event.flowEndId])
      · exact flowEnds_pairwise (h.ledger.ended_pairwise hone) outputs
      · intro x hx y _ hid
        obtain ⟨e, -, rfl⟩ := List.mem_map.1 hx
        exact absurd hid (by simp [Event.flowEndId])
    · intro x hx y hy hid habout
      obtain ⟨e, he, hsame⟩ := h.ends x hx hid
      obtain ⟨e', he', hsame'⟩ := hdrained y hy flowId (Or.inr habout)
      exact h.ledger.not_carries hone he hsame (Or.inr ⟨e', he', hsame'⟩)
  · intro event hevent toServer hne
    rcases List.mem_append.1 hevent with hold | hnew
    · exact h.tuple event hold toServer hne
    · rw [hevents] at hnew
      exact absurd (inspected_of_mem_drain p.flows.ended hnew flowId toServer) hne

theorem Told.observeAll (h : Told flowId all trace p) (packets : List (Walks × PacketSummary))
    (hone : (openersOf flowId (all ++ p.attributedAll packets)).length ≤ 1) :
    Told flowId (all ++ p.attributedAll packets) (trace ++ (p.observeAll packets).2)
      (p.observeAll packets).1 := by
  induction packets generalizing p all trace with
  | nil =>
    rw [attributedAll, PacketPipeline.observeAll, List.append_nil, List.append_nil]
    exact h
  | cons packet rest ih =>
    rw [attributedAll, List.append_cons] at hone ⊢
    have hrest := ih (h.observe packet.1 packet.2 ((length_openersOf_le _ _ _).trans hone)) hone
    rw [List.append_assoc trace] at hrest
    exact hrest

theorem Told.step (h : Told flowId all trace p) (D : Decoder) (op : PipelineOp)
    (hone : (openersOf flowId (all ++ p.attributedBy D op)).length ≤ 1) :
    Told flowId (all ++ p.attributedBy D op) (trace ++ (p.step D op).2) (p.step D op).1 := by
  cases op with
  | packet walks again sets raw =>
    have hobserved := h.observeAll _ hone
    have htracked : Told flowId (all ++ p.attributedBy D (.packet walks again sets raw)) _
        { (p.observeAll ([walks, again].zip (p.handed D sets (D.decode raw.data raw.originalLen)
          raw.timestamp))).1 with
            defrag := ((D.decode raw.data raw.originalLen).network.filter Network.isFragment).elim
              p.defrag (fun network => (p.defragment sets network
                (D.decode raw.data raw.originalLen) raw.timestamp).1.defrag) } :=
      ⟨hobserved.engine, hobserved.ledger, hobserved.opened, hobserved.ends, hobserved.silent,
        hobserved.tuple⟩
    have hdrained := htracked.drain hone
    rw [List.append_assoc] at hdrained
    simp only [PacketPipeline.step, onPacket, track_eq_observeAll]
    exact hdrained
  | flush order =>
    rw [attributedBy, List.append_nil] at hone ⊢
    obtain ⟨hledger, hopened⟩ := opened_kept.flush ⟨h.ledger, h.opened⟩ order
    have hflushed : Told flowId all trace { p with flows := p.flows.flush order } :=
      ⟨h.engine, hledger, hopened, h.ends, h.silent, h.tuple⟩
    exact hflushed.drain hone

theorem Told.run (h : Told flowId all trace p) (D : Decoder) (ops : List PipelineOp)
    (hone : (openersOf flowId (all ++ p.attributed D ops)).length ≤ 1) :
    Told flowId (all ++ p.attributed D ops)
      (trace ++ (Runs.run (PacketPipeline.step D) p ops).2.flatten)
      (Runs.run (PacketPipeline.step D) p ops).1 := by
  induction ops generalizing p all trace with
  | nil =>
    rw [attributed, Runs.run_nil, List.flatten_nil, List.append_nil, List.append_nil]
    exact h
  | cons op rest ih =>
    rw [attributed, ← List.append_assoc] at hone ⊢
    rw [Runs.run_cons, List.flatten_cons, ← List.append_assoc]
    exact ih (h.step D op ((length_openersOf_le _ _ _).trans hone)) hone

end Told

theorem told_new (R : Regex) (A : AhoCorasick) (config : Config) (engine : Engine R A)
    (flowId : UInt64) : Told flowId [] [] ((PacketPipeline.new R A config).arm engine) := by
  have hempty : ∀ key flow,
      ((PacketPipeline.new R A config).arm engine).flows.flows.lookup key ≠ some flow := by
    intro key flow
    simp [arm, PacketPipeline.new, FlowTable.withReassembly]
  refine ⟨rfl, ?_, fun key flow hflow => absurd hflow (hempty key flow), ?_, List.Pairwise.nil, ?_⟩
  · exact ⟨fun key flow hflow => absurd hflow (hempty key flow), rfl, ⟨rfl, rfl, rfl⟩, fun _ => rfl⟩
  · exact fun event hevent => absurd hevent List.not_mem_nil
  · exact fun event hevent => absurd hevent List.not_mem_nil

theorem told_run (R : Regex) (A : AhoCorasick) (D : Decoder) (config : Config)
    (engine : Engine R A) (ops : List PipelineOp) {flowId : UInt64}
    (hone : (openersOf flowId (((PacketPipeline.new R A config).arm engine).attributed D
      ops)).length ≤ 1) :
    let p := (PacketPipeline.new R A config).arm engine
    Told flowId (p.attributed D ops) (Runs.run (PacketPipeline.step D) p ops).2.flatten
      (Runs.run (PacketPipeline.step D) p ops).1 :=
  (told_new R A config engine flowId).run D ops hone

/-- In every run, for every flow whose identifier no other flow is opened with: what the engine is
handed of its stream comes with the tuple of the packet that opened it, seen from the side that
sends; and once the engine is told that the flow has ended, and drops its state, no call is about
it any more, whatever of the conversation comes later and opens a flow anew. -/
theorem nothing_after_flowEnd (R : Regex) (A : AhoCorasick) (D : Decoder) (config : Config)
    (engine : Engine R A) (ops : List PipelineOp) (flowId : UInt64)
    (hone : (openersOf flowId (((PacketPipeline.new R A config).arm engine).attributed D
      ops)).length ≤ 1) :
    let p := (PacketPipeline.new R A config).arm engine
    let trace := (Runs.run (PacketPipeline.step D) p ops).2.flatten
    (∀ before output after, trace = before ++ .call (.flowEnd flowId) output :: after →
        ∀ event ∈ after, event.about ≠ some flowId) ∧
      ∀ event ∈ trace, ∀ toServer, event.inspected flowId toServer ≠ [] →
        ∃ first ∈ openersOf flowId (p.attributed D ops), ∃ order bytes timestamp output,
          event = .call (.stream order flowId (first.tupleToward toServer) toServer bytes timestamp)
            output := by
  intro p trace
  have htold : Told flowId (p.attributed D ops) trace _ := told_run R A D config engine ops hone
  refine ⟨?_, htold.tuple⟩
  intro before output after heq
  have hsilent := htold.silent
  rw [heq, List.pairwise_append, List.pairwise_cons] at hsilent
  exact fun event hevent => hsilent.2.1.1 event hevent rfl

/-- The client's flow is reset once its message is acknowledged, and the client connects anew: what
it sends then is inspected as another flow. -/
theorem nothing_after_flowEnd_reopened :
    let ops := twoClients ++ [frameOp 5 (segmentFrame true 51000 9 0 Flags.rst []),
      frameOp 6 (segmentFrame true 51000 20 0 Flags.syn []),
      frameOp 7 (segmentFrame true 51000 21 0 0 [0x79]),
      frameOp 8 (segmentFrame false 51000 1 22 Flags.ack [])]
    let p := (PacketPipeline.new Regex.none AhoCorasick.exhaustive smallWindowConfig).arm
      (sampleEngine {} [abRule])
    let trace := (Runs.run (PacketPipeline.step plainDecoder) p ops).2.flatten
    let reopenedId := deriveFlowId (FlowKey.new 6 ⟨.v4 0xc0000201, 51000⟩ ⟨.v4 0xc6336401, 80⟩) 6
    trace.filterMap Event.flowEndId = [sampleFlowId] ∧
      (openersOf reopenedId (p.attributed plainDecoder ops)).length = 1 ∧
      inspectedBytes reopenedId true trace = [0x79] ∧
      ∀ before output after, trace = before ++ .call (.flowEnd sampleFlowId) output :: after →
        ∀ event ∈ after, event.about ≠ some sampleFlowId := by
  intro ops p trace reopenedId
  refine ⟨by decide +kernel, by decide +kernel, by decide +kernel, ?_⟩
  exact (nothing_after_flowEnd Regex.none AhoCorasick.exhaustive plainDecoder smallWindowConfig
    (sampleEngine {} [abRule]) ops sampleFlowId (by decide +kernel)).1

end PacketPipeline
end CyberSentinel
