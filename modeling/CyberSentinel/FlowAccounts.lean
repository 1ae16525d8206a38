import CyberSentinel.Attribution

/-!
# Every packet is in one flow event

A flow counts the packets and bytes of each of its two directions, and takes its counts with it when
it leaves the table, by whatever way. So the counts of the flows that have been reported, with those
of the flows that are still open, are the packets that were handed over: all of them, each once, and
each on the side of its sender.
-/

namespace CyberSentinel

open Tables Detect

/-- The flow is that of the key, and was opened by one of its endpoints. -/
structure Flow.Of (key : FlowKey) (flow : Flow) : Prop where
  key_eq : flow.key = key
  initiator : flow.initiator = key.first ∨ flow.initiator = key.second

/-- A measure that is nothing for a new flow, grows by the packets of the flow, and is not changed
by what happens to the streams of a flow as it ends. -/
structure Measures (measure : Flow → ℕ) (growth : PacketSummary → ℕ) : Prop where
  opened : ∀ (t : FlowTable) packet, measure (t.newFlow (FlowTable.packetKey packet) packet) = 0
  updated : ∀ flow packet policy, flow.Of (FlowTable.packetKey packet) →
    measure (FlowTable.updateFlow flow (packet.source = flow.initiator) packet policy).1 =
      measure flow + growth packet
  flushed : ∀ flow, measure (FlowTable.flushFlow flow).1 = measure flow

def Flow.sentBy (endpoint : Endpoint) (flow : Flow) : DirectionCounters :=
  if endpoint = flow.initiator then flow.toServer else flow.toClient

namespace FlowTable

theorem packetKey_endpoints (packet : PacketSummary) :
    (packetKey packet).first = packet.source ∧ (packetKey packet).second = packet.destination ∨
      (packetKey packet).first = packet.destination ∧
      (packetKey packet).second = packet.source := by
  simp only [packetKey, FlowKey.new]
  split_ifs
  · exact Or.inl ⟨rfl, rfl⟩
  · exact Or.inr ⟨rfl, rfl⟩

theorem newFlow_of (t : FlowTable) (packet : PacketSummary) :
    (t.newFlow (packetKey packet) packet).Of (packetKey packet) := by
  refine ⟨rfl, ?_⟩
  rcases packetKey_endpoints packet with ⟨hfirst, -⟩ | ⟨-, hsecond⟩
  · exact Or.inl hfirst.symm
  · exact Or.inr hsecond.symm

/-- The counts of a flow are those of its packets, whatever they do to its streams. -/
theorem updateFlow_counts (flow : Flow) (toServer : Bool) (packet : PacketSummary)
    (policy : IpAddr → OverlapPolicy) :
    let flow' := (updateFlow flow toServer packet policy).1
    flow'.toServer = (if toServer then flow.toServer.count packet.frameLen else flow.toServer) ∧
      flow'.toClient = (if toServer then flow.toClient
      else flow.toClient.count packet.frameLen) := by
  simp only [updateFlow]
  cases packet.tcp with
  | none => exact ⟨rfl, rfl⟩
  | some segment =>
    simp only [pushSegment, countPacket]
    cases flow.streams <;> exact ⟨rfl, rfl⟩

theorem updateFlow_of {key : FlowKey} {flow : Flow} (h : flow.Of key) (toServer : Bool)
    (packet : PacketSummary) (policy : IpAddr → OverlapPolicy) :
    (updateFlow flow toServer packet policy).1.Of key := by
  obtain ⟨hinitiator, -⟩ := updateFlow_endpoints flow toServer packet policy
  exact ⟨(updateFlow_identity flow toServer packet policy).2.trans h.key_eq,
    hinitiator ▸ h.initiator⟩

theorem flushFlow_counts (flow : Flow) :
    (flushFlow flow).1.toServer = flow.toServer ∧ (flushFlow flow).1.toClient = flow.toClient ∧
      (flushFlow flow).1.key = flow.key ∧ (flushFlow flow).1.initiator = flow.initiator := by
  unfold flushFlow
  cases flow.streams <;> exact ⟨rfl, rfl, rfl, rfl⟩

/-- What an endpoint sends on a flow grows by the packets it is the source of. -/
theorem sentBy_updateFlow {endpoint : Endpoint} {flow : Flow} {packet : PacketSummary}
    (hflow : flow.Of (packetKey packet))
    (hendpoint : endpoint = (packetKey packet).first ∨ endpoint = (packetKey packet).second)
    (policy : IpAddr → OverlapPolicy) :
    (updateFlow flow (packet.source = flow.initiator) packet policy).1.sentBy endpoint =
      if packet.source = endpoint then (flow.sentBy endpoint).count packet.frameLen
      else flow.sentBy endpoint := by
  obtain ⟨hserver, hclient⟩ :=
    updateFlow_counts flow (packet.source = flow.initiator) packet policy
  obtain ⟨hinitiator, -⟩ := updateFlow_endpoints flow (packet.source = flow.initiator) packet policy
  simp only [Flow.sentBy, hserver, hclient, hinitiator, decide_eq_true_eq]
  by_cases hsource : packet.source = flow.initiator
  · by_cases hown : endpoint = flow.initiator
    · rw [if_pos hown, if_pos hown, if_pos hsource, if_pos (hsource.trans hown.symm)]
    · have hother : ¬ packet.source = endpoint := fun heq => hown (heq ▸ hsource)
      rw [if_neg hown, if_neg hown, if_pos hsource, if_neg hother]
  · by_cases hown : endpoint = flow.initiator
    · have hother : ¬ packet.source = endpoint := fun heq => hsource (heq.trans hown)
      rw [if_pos hown, if_pos hown, if_neg hsource, if_neg hother]
    · -- neither is the one that opened the flow, so both are the other one
      have hsame : packet.source = endpoint := by
        have hinit := hflow.initiator
        rcases packetKey_endpoints packet with ⟨hfirst, hsecond⟩ | ⟨hfirst, hsecond⟩
        · rw [hfirst, hsecond] at hinit hendpoint
          rcases hinit with hinit | hinit
          · exact absurd hinit.symm hsource
          · rcases hendpoint with hendpoint | hendpoint
            · exact hendpoint.symm
            · exact absurd (hendpoint.trans hinit.symm) hown
        · rw [hfirst, hsecond] at hinit hendpoint
          rcases hinit with hinit | hinit
          · rcases hendpoint with hendpoint | hendpoint
            · exact absurd (hendpoint.trans hinit.symm) hown
            · exact hendpoint.symm
          · exact absurd hinit.symm hsource
      rw [if_neg hown, if_neg hown, if_neg hsource, if_pos hsame]

/-- What the flows of a conversation count for one of its endpoints. -/
theorem measures_sentBy (key : FlowKey) {endpoint : Endpoint}
    (hendpoint : endpoint = key.first ∨ endpoint = key.second) (count : DirectionCounters → ℕ)
    (step : ℕ → ℕ) (hempty : count {} = 0)
    (hcount : ∀ c frameLen, count (c.count frameLen) = count c + step frameLen) :
    Measures (fun flow => if flow.key = key then count (flow.sentBy endpoint) else 0)
      (fun packet => if packetKey packet = key ∧ packet.source = endpoint then step packet.frameLen
        else 0) := by
  refine ⟨?_, ?_, ?_⟩
  · intro t packet
    dsimp only [Flow.sentBy, newFlow]
    rw [ite_self, hempty, ite_self]
  · intro flow packet policy hflow
    have hkey : (updateFlow flow (packet.source = flow.initiator) packet policy).1.key =
        packetKey packet := (updateFlow_of hflow _ packet policy).key_eq
    simp only [hkey, hflow.key_eq]
    by_cases hown : packetKey packet = key
    · rw [if_pos hown, if_pos hown, sentBy_updateFlow hflow (hown ▸ hendpoint) policy]
      by_cases hsource : packet.source = endpoint
      · rw [if_pos hsource, if_pos ⟨hown, hsource⟩, hcount]
      · rw [if_neg hsource, if_neg fun h => hsource h.2, Nat.add_zero]
    · rw [if_neg hown, if_neg hown, if_neg fun h => hown h.1]
  · intro flow
    obtain ⟨hserver, hclient, hkey, hinitiator⟩ := flushFlow_counts flow
    simp only [Flow.sentBy, hserver, hclient, hkey, hinitiator]

theorem measures_both (count : DirectionCounters → ℕ) (step : ℕ → ℕ) (hempty : count {} = 0)
    (hcount : ∀ c frameLen, count (c.count frameLen) = count c + step frameLen) :
    Measures (fun flow => count flow.toServer + count flow.toClient)
      (fun packet => step packet.frameLen) := by
  refine ⟨?_, ?_, ?_⟩
  · intro t packet
    simp [newFlow, hempty]
  · intro flow packet policy hflow
    obtain ⟨hserver, hclient⟩ :=
      updateFlow_counts flow (packet.source = flow.initiator) packet policy
    simp only [hserver, hclient]
    split_ifs
    · rw [hcount]
      omega
    · rw [hcount]
      omega
  · intro flow
    obtain ⟨hserver, hclient, -⟩ := flushFlow_counts flow
    rw [hserver, hclient]

/-- What the flows in the table have counted, with those that have ended and are not drained. -/
def accounted (measure : Flow → ℕ) (t : FlowTable) : ℕ :=
  total measure t.flows + (t.ended.map (fun e : EndedFlow => measure e.flow)).sum

def Keyed (t : FlowTable) : Prop := ∀ key flow, t.flows.lookup key = some flow → flow.Of key

theorem Keyed.removeFlow {t : FlowTable} (h : t.Keyed) (reason : EndReason) (key : FlowKey) :
    (removeFlow reason t key).Keyed := by
  intro other flow hflow
  rw [lookup_removeFlow] at hflow
  split_ifs at hflow
  exact h other flow hflow

section Accounted

variable {measure : Flow → ℕ} {growth : PacketSummary → ℕ}

/-- A flow that leaves the table takes what it has counted with it. -/
theorem accounted_removeFlow (h : Measures measure growth) (reason : EndReason) (t : FlowTable)
    (key : FlowKey) : (removeFlow reason t key).accounted measure = t.accounted measure := by
  cases hlookup : t.flows.lookup key with
  | none => rw [removeFlow_none hlookup]
  | some flow =>
    obtain ⟨hflows, -, hended⟩ := removeFlow_some hlookup reason
    have htotal := total_erase measure t.flows key
    have hmeasure : measureAt measure t.flows key = measure flow := by
      rw [measureAt, hlookup, Option.elim_some]
    have hdeparture : measure (departure flow reason).flow = measure flow := h.flushed flow
    rw [accounted, accounted, hflows, hended, List.map_append, List.sum_append, List.map_singleton,
      List.sum_singleton, hdeparture]
    omega

theorem prepare_keyed {t : FlowTable} (h : t.Keyed) (order : HashOrder FlowKey)
    (packet : PacketSummary) (key : FlowKey) : (t.prepare order packet key).Keyed :=
  prepare_invariant (fun reason _ key h => h.removeFlow reason key) (fun _ _ h =>
    h) order packet key h

theorem flowFor_of {t : FlowTable} (h : t.Keyed) (order : HashOrder FlowKey)
    (packet : PacketSummary) : (t.flowFor order packet).Of (packetKey packet) := by
  have hflow : t.flowFor order packet =
      ((t.prepare order packet (packetKey packet)).flows.lookup (packetKey packet)).getD
        ((t.prepare order packet (packetKey packet)).newFlow (packetKey packet) packet) :=
    entry_flow _ _ packet
  rw [hflow]
  cases hlookup : (t.prepare order packet (packetKey packet)).flows.lookup (packetKey packet) with
  | none => exact newFlow_of _ packet
  | some flow => exact prepare_keyed h order packet _ _ flow hlookup

theorem Keyed.observe {t : FlowTable} (h : t.Keyed) (order : HashOrder FlowKey)
    (packet : PacketSummary) (policy : IpAddr → OverlapPolicy) :
    (t.observe order packet policy).1.Keyed := by
  apply observe_invariant (fun reason _ key h => h.removeFlow reason key)
  intro key flow hflow
  rw [stored_flows] at hflow
  by_cases hkey : key = packetKey packet
  · rw [hkey, AList.lookup_insert] at hflow
    obtain rfl := Option.some.inj hflow
    exact hkey ▸ updateFlow_of (flowFor_of h order packet) _ packet policy
  · rw [AList.lookup_insert_ne hkey] at hflow
    exact prepare_keyed h order packet _ key flow hflow

/-- A packet adds what it counts for, whatever it makes leave the table. -/
theorem accounted_observe (h : Measures measure growth) {t : FlowTable} (hkeyed : t.Keyed)
    (order : HashOrder FlowKey) (packet : PacketSummary) (policy : IpAddr → OverlapPolicy) :
    (t.observe order packet policy).1.accounted measure = t.accounted measure + growth packet := by
  apply observe_invariant (P := fun t' =>
    t'.accounted measure = t.accounted measure + growth packet)
    (fun reason t' key h' => (accounted_removeFlow h reason t' key).trans h')
  have hready : (t.prepare order packet (packetKey packet)).accounted measure =
      t.accounted measure :=
    prepare_invariant (P := fun t' => t'.accounted measure = t.accounted measure)
      (fun reason t' key h' =>
      (accounted_removeFlow h reason t' key).trans h') (fun _ _ h' => h') order
      packet _ rfl
  have hended : (t.stored order packet policy).ended =
      (t.prepare order packet (packetKey packet)).ended := entry_ended _ _ packet
  have hafter : measure (t.flowAfter order packet policy) =
      measure (t.flowFor order packet) + growth packet :=
    h.updated _ packet policy (flowFor_of hkeyed order packet)
  have hbefore : measureAt measure (t.prepare order packet (packetKey packet)).flows
      (packetKey packet) =
      measure (t.flowFor order packet) := by
    have hflow : t.flowFor order packet =
        ((t.prepare order packet (packetKey packet)).flows.lookup (packetKey packet)).getD
          ((t.prepare order packet (packetKey packet)).newFlow (packetKey packet) packet) :=
      entry_flow _ _ packet
    rw [measureAt, hflow]
    cases (t.prepare order packet (packetKey packet)).flows.lookup (packetKey packet) with
    | none => exact (h.opened _ packet).symm
    | some flow => rfl
  have htotal := total_insert measure (t.prepare order packet (packetKey packet)).flows
    (packetKey packet) (t.flowAfter order packet policy)
  unfold accounted at hready ⊢
  rw [stored_flows, hended]
  omega

/-- The flows that are still open when the sensor stops are reported with what they have counted. -/
theorem accounted_flush (h : Measures measure growth) (t : FlowTable) (order : HashOrder FlowKey) :
    (t.flush order).accounted measure = t.accounted measure := by
  obtain ⟨hflows, -⟩ := t.flush_fields order
  have hsum : ((iter order t.flows).map (fun entry => measure (flushFlow entry.2).1)).sum =
      total measure t.flows := by
    simp only [h.flushed]
    exact sum_iter order measure t.flows
  rw [accounted, accounted, hflows, flush_ended, List.map_append, List.map_map, List.sum_append]
  change total measure ∅ + (_ + ((iter order t.flows).map
    (fun entry => measure (flushFlow entry.2).1)).sum) = _
  rw [total_empty, hsum]
  omega

/-- What the flows in the table count for one conversation is what its own flow counts. -/
theorem total_own {t : FlowTable} (h : t.Keyed) (key : FlowKey) (count : Flow → ℕ) :
    total (fun flow => if flow.key = key then count flow else 0) t.flows =
      (t.flows.lookup key).elim 0 count := by
  have herase := total_erase (fun flow : Flow => if flow.key = key then count flow
    else 0) t.flows key
  have hothers : total (fun flow : Flow => if flow.key = key then count flow else 0)
      (t.flows.erase key) ≤ size (t.flows.erase key) * 0 := by
    apply total_le
    intro other flow hflow
    obtain ⟨hne, hbefore⟩ := lookup_of_lookup_erase hflow
    rw [if_neg ((h other flow hbefore).key_eq ▸ hne)]
  have hown : measureAt (fun flow : Flow => if flow.key = key then count flow else 0) t.flows key =
      (t.flows.lookup key).elim 0 count := by
    cases hlookup : t.flows.lookup key with
    | none => rw [measureAt, hlookup, Option.elim_none, Option.elim_none]
    | some flow =>
      rw [measureAt, hlookup, Option.elim_some, Option.elim_some,
        if_pos (h key flow hlookup).key_eq]
  omega

end Accounted

end FlowTable

def Event.ended? : Event → Option EndedFlow
  | .ended flow => some flow
  | .delivered _ _ => none
  | .call _ _ => none

def endedIn (trace : List Event) : List EndedFlow := trace.filterMap Event.ended?

theorem endedIn_append (xs ys : List Event) : endedIn (xs ++ ys) = endedIn xs ++ endedIn ys :=
  List.filterMap_append ..

variable {R : Regex} {A : AhoCorasick}

namespace PacketPipeline

theorem callAll_flows (p : PacketPipeline R A) (calls : List Call) :
    (p.callAll calls).1.flows = p.flows ∧ endedIn (p.callAll calls).2 = [] := by
  induction calls generalizing p with
  | nil => exact ⟨rfl, rfl⟩
  | cons call rest ih =>
    obtain ⟨hflows, hended⟩ := ih (p.callEngine call).1
    simp only [callAll]
    rw [endedIn_append, hflows, hended]
    cases hengine : p.engine with
    | none => simp [callEngine, hengine, endedIn]
    | some engine => simp [callEngine, hengine, endedIn, Event.ended?]

/-- Observing a packet changes the flows as the flow table does, and reports none. -/
theorem observe_flows (p : PacketPipeline R A) (walks : Walks) (packet : PacketSummary) :
    (p.observe walks packet).1.flows =
        (p.flows.observe walks.flows packet p.policy.forDestination).1 ∧
      endedIn (p.observe walks packet).2 = [] := by
  have hdatagram (q : PacketPipeline R A) (observed : Observed) :
      (q.inspectDatagram walks observed packet).1.flows = q.flows ∧
        endedIn (q.inspectDatagram walks observed packet).2 = [] := by
    have hone := q.callAll_flows [.packet walks.states observed.flowId (summaryTuple packet)
      observed.toServer packet.payload packet.timestamp]
    unfold inspectDatagram
    split_ifs
    · simpa [callAll] using hone
    · exact ⟨rfl, rfl⟩
  have hstreams (q : PacketPipeline R A) (flowId : UInt64) (oriented : NetTuple)
      (ready : StreamReady) :
      (q.consumeReady walks flowId oriented packet.timestamp ready).1.flows = q.flows ∧
        endedIn (q.consumeReady walks flowId oriented packet.timestamp ready).2 = [] := by
    unfold consumeReady
    split_ifs
    · exact ⟨rfl, rfl⟩
    · exact callAll_flows _ _
  simp only [observe]
  obtain ⟨hflows, hended⟩ := hdatagram
    { p with flows := (p.flows.observe walks.flows packet p.policy.forDestination).1 }
    (p.flows.observe walks.flows packet p.policy.forDestination).2.1
  obtain ⟨hflows', hended'⟩ := hstreams _ _ _ _
  refine ⟨hflows'.trans hflows, ?_⟩
  rw [← List.singleton_append, endedIn_append, endedIn_append, hended, hended']
  rfl

theorem drainEndedFlows_reports (p : PacketPipeline R A) :
    p.drainEndedFlows.1.flows = { p.flows with ended := [] } ∧
      endedIn p.drainEndedFlows.2 = p.flows.ended := by
  unfold drainEndedFlows
  split_ifs with hnone
  · refine ⟨?_, hnone.symm⟩
    rw [← hnone]
  · obtain ⟨hflows, hended⟩ := callAll_flows
      { p with streamBytesDelivered := p.streamBytesDelivered +
        (p.flows.ended.map (fun e : EndedFlow => e.finalReady.len)).sum }
      (p.flows.ended.map (fun e : EndedFlow => .flowEnd e.flow.id))
    have hreports (ended : List EndedFlow) : endedIn (ended.map .ended) = ended := by
      rw [endedIn, List.filterMap_map]
      exact List.filterMap_some
    refine ⟨?_, ?_⟩
    · simp only [takeFinalDeliveries, hflows]
    · simp only [takeFinalDeliveries, endedIn_append, hended, hreports, List.append_nil]

/-- A property of the flows reported, the packets attributed and the flow table that is kept
whenever the table is handed a packet, is flushed or gives up the flows that have ended. -/
structure KeptByTable (P : List EndedFlow → List Attribution → FlowTable → Prop) : Prop where
  observe : ∀ {reported all t}, P reported all t → ∀ order packet policy,
    P reported (all ++ [⟨packet, (t.observe order packet policy).2.1⟩])
    (t.observe order packet policy).1
  flush : ∀ {reported all t}, P reported all t → ∀ order, P reported all (t.flush order)
  drain : ∀ {reported all t}, P reported all t → P (reported ++ t.ended) all { t with ended := [] }

section KeptByTable

variable {P : List EndedFlow → List Attribution → FlowTable → Prop} {reported : List EndedFlow}
  {all : List Attribution} {p : PacketPipeline R A}

theorem KeptByTable.observeAll (h : KeptByTable P) (hp : P reported all p.flows)
    (packets : List (Walks × PacketSummary)) :
    endedIn (p.observeAll packets).2 = [] ∧
      P reported (all ++ p.attributedAll packets) (p.observeAll packets).1.flows := by
  induction packets generalizing p all with
  | nil =>
    rw [attributedAll, List.append_nil]
    exact ⟨rfl, hp⟩
  | cons packet rest ih =>
    obtain ⟨hflows, hended⟩ := p.observe_flows packet.1 packet.2
    have hfirst : P reported (all ++ [p.attribution packet.1 packet.2])
        (p.observe packet.1 packet.2).1.flows :=
      hflows ▸ h.observe hp packet.1.flows packet.2 p.policy.forDestination
    obtain ⟨hended', hrest⟩ := ih hfirst
    refine ⟨?_, ?_⟩
    · rw [PacketPipeline.observeAll, endedIn_append, hended, hended', List.append_nil]
    · rw [attributedAll, List.append_cons]
      exact hrest

theorem KeptByTable.step (h : KeptByTable P) (hp : P reported all p.flows) (D : Decoder)
    (op : PipelineOp) :
    P (reported ++ endedIn (p.step D op).2) (all ++ p.attributedBy D op) (p.step D op).1.flows := by
  cases op with
  | packet walks again sets raw =>
    obtain ⟨hended, hobserved⟩ := h.observeAll hp ([walks, again].zip
      (p.handed D sets (D.decode raw.data raw.originalLen) raw.timestamp))
    have htracked : endedIn (p.track D walks again sets (D.decode raw.data raw.originalLen)
          raw.timestamp).2 = [] ∧
        P reported (all ++ p.attributedBy D (.packet walks again sets raw))
          (p.track D walks again sets
          (D.decode raw.data raw.originalLen) raw.timestamp).1.flows := by
      rw [track_eq_observeAll]
      exact ⟨hended, hobserved⟩
    obtain ⟨hflows, hreports⟩ := (p.track D walks again sets (D.decode raw.data raw.originalLen)
      raw.timestamp).1.drainEndedFlows_reports
    rw [PacketPipeline.step, onPacket, endedIn_append, htracked.1, hreports, hflows,
      List.nil_append]
    exact h.drain htracked.2
  | flush order =>
    obtain ⟨hflows, hreports⟩ :=
      drainEndedFlows_reports { p with flows := p.flows.flush order }
    rw [PacketPipeline.step, PacketPipeline.flush, hreports, hflows, attributedBy, List.append_nil]
    exact h.drain (h.flush hp order)

theorem KeptByTable.run (h : KeptByTable P) (hp : P reported all p.flows) (D : Decoder)
    (ops : List PipelineOp) :
    P (reported ++ endedIn (Runs.run (PacketPipeline.step D) p ops).2.flatten)
      (all ++ p.attributed D ops) (Runs.run (PacketPipeline.step D) p ops).1.flows := by
  induction ops generalizing p reported all with
  | nil =>
    rw [attributed, List.append_nil, Runs.run_nil, List.flatten_nil, endedIn, List.filterMap_nil,
      List.append_nil]
    exact hp
  | cons op rest ih =>
    rw [attributed, ← List.append_assoc, Runs.run_cons, List.flatten_cons, endedIn_append,
      ← List.append_assoc]
    exact ih (h.step hp D op)

end KeptByTable

/-- What was reported, with what the flows in the table have counted, is what the packets handed
over count for. -/
structure Counts (measure : Flow → ℕ) (growth : PacketSummary → ℕ) (reported : List EndedFlow)
    (all : List Attribution) (t : FlowTable) : Prop where
  keyed : t.Keyed
  balance : (reported.map (fun e : EndedFlow => measure e.flow)).sum + t.accounted measure =
    (all.map (fun a => growth a.packet)).sum

theorem counts_kept {measure : Flow → ℕ} {growth : PacketSummary → ℕ}
    (hmeasure : Measures measure growth) : KeptByTable (Counts measure growth) := by
  refine ⟨?_, ?_, ?_⟩
  · intro reported all t h order packet policy
    refine ⟨h.keyed.observe order packet policy, ?_⟩
    rw [FlowTable.accounted_observe hmeasure h.keyed, ← Nat.add_assoc, h.balance, List.map_append,
      List.sum_append, List.map_singleton, List.sum_singleton]
  · intro reported all t h order
    obtain ⟨hflows, -⟩ := t.flush_fields order
    refine ⟨?_, ?_⟩
    · intro key flow hflow
      rw [hflows, AList.lookup_empty] at hflow
      exact absurd hflow (by simp)
    · rw [FlowTable.accounted_flush hmeasure]
      exact h.balance
  · intro reported all t h
    refine ⟨h.keyed, ?_⟩
    rw [← h.balance, List.map_append, List.sum_append]
    simp only [FlowTable.accounted, List.map_nil, List.sum_nil]
    omega

theorem counts_new (R : Regex) (A : AhoCorasick) (config : Config) (measure : Flow → ℕ)
    (growth : PacketSummary → ℕ) :
    Counts measure growth [] [] (PacketPipeline.new R A config).flows := by
  refine ⟨?_, rfl⟩
  intro key flow hflow
  exact absurd hflow (by simp [PacketPipeline.new, FlowTable.withReassembly])

theorem step_ended (D : Decoder) (p : PacketPipeline R A) (op : PipelineOp) :
    (p.step D op).1.flows.ended = [] := by
  cases op with
  | packet walks again sets raw =>
    exact congrArg FlowTable.ended (drainEndedFlows_reports (p.track D walks again sets
      (D.decode raw.data raw.originalLen) raw.timestamp).1).1
  | flush order =>
    exact congrArg FlowTable.ended
      (drainEndedFlows_reports { p with flows := p.flows.flush order }).1

theorem counts_run {measure : Flow → ℕ} {growth : PacketSummary → ℕ}
    (hmeasure : Measures measure growth) (D : Decoder) (config : Config)
    (engine : Option (Engine R A)) (ops : List PipelineOp) :
    let p := { PacketPipeline.new R A config with engine := engine }
    let run := Runs.run (PacketPipeline.step D) p ops
    run.1.flows.Keyed ∧
      ((endedIn run.2.flatten).map (fun e : EndedFlow => measure e.flow)).sum +
        total measure run.1.flows.flows =
        ((p.attributed D ops).map (fun a => growth a.packet)).sum := by
  intro p run
  obtain ⟨hkeyed, hbalance⟩ := (counts_kept hmeasure).run (p := p)
    (counts_new R A config measure growth) D ops
  have hended : run.1.flows.ended = [] :=
    Runs.invariant (PacketPipeline.step D) (fun q => q.flows.ended = [])
      (fun q op _ => q.step_ended D op) rfl ops
  refine ⟨hkeyed, ?_⟩
  rw [List.nil_append, List.nil_append, FlowTable.accounted, hended, List.map_nil, List.sum_nil,
    Nat.add_zero] at hbalance
  exact hbalance

theorem sum_map_ite {α : Type*} (keep : α → Prop) [DecidablePred keep] (f : α → ℕ) (l : List α) :
    (l.map (fun a => if keep a then f a else 0)).sum = ((l.filter keep).map f).sum := by
  induction l with
  | nil => rfl
  | cons a rest ih =>
    rw [List.map_cons, List.sum_cons, ih, List.filter_cons]
    by_cases ha : keep a
    · rw [if_pos ha, if_pos (decide_eq_true ha), List.map_cons, List.sum_cons]
    · rw [if_neg ha, if_neg (by rwa [decide_eq_true_iff]), Nat.zero_add]

/-- What is reported of a conversation, and what its open flow counts, for one of its endpoints. -/
theorem sentBy_balance {key : FlowKey} {endpoint : Endpoint}
    (hendpoint : endpoint = key.first ∨ endpoint = key.second) (count : DirectionCounters → ℕ)
    (step : ℕ → ℕ) (hempty : count {} = 0)
    (hcount : ∀ c frameLen, count (c.count frameLen) = count c + step frameLen)
    (D : Decoder) (config : Config) (engine : Option (Engine R A)) (ops : List PipelineOp) :
    let p := { PacketPipeline.new R A config with engine := engine }
    let run := Runs.run (PacketPipeline.step D) p ops
    let reported := (endedIn run.2.flatten).filter (fun e => e.flow.key = key)
    let sent := (packetsOf key (p.attributed D ops)).filter (fun packet => packet.source = endpoint)
    (reported.map (fun e => count (e.flow.sentBy endpoint))).sum +
        (run.1.flows.flows.lookup key).elim 0 (fun flow => count (flow.sentBy endpoint)) =
      (sent.map (fun packet => step packet.frameLen)).sum := by
  intro p run reported sent
  obtain ⟨hkeyed, hbalance⟩ := counts_run
    (FlowTable.measures_sentBy key hendpoint count step hempty hcount) D config engine ops
  have hsent : sent.map (fun packet => step packet.frameLen) =
      ((p.attributed D ops).filter (fun a => FlowTable.packetKey a.packet = key ∧
        a.packet.source = endpoint)).map (fun a => step a.packet.frameLen) := by
    simp only [sent, packetsOf, conversation, List.filter_map, List.map_map, List.filter_filter]
    congr 1
    apply List.filter_congr
    intro a _
    simp [and_comm]
  rw [sum_map_ite (fun e : EndedFlow => e.flow.key = key), FlowTable.total_own hkeyed,
    sum_map_ite (fun a : Attribution => FlowTable.packetKey a.packet = key ∧
      a.packet.source = endpoint)] at hbalance
  rw [hsent]
  exact hbalance

/-- Whatever else passes the sensor and however often the conversation's flow is swept, evicted,
reset or closed and opened anew: what the flow events of a conversation say that an endpoint has
sent, together with what its open flow counts, is what it has sent, in packets and in bytes. -/
theorem reported_eq_sent (R : Regex) (A : AhoCorasick) (D : Decoder) (config : Config)
    (engine : Option (Engine R A)) (ops : List PipelineOp) (key : FlowKey) (endpoint : Endpoint)
    (hendpoint : endpoint = key.first ∨ endpoint = key.second) :
    let p := { PacketPipeline.new R A config with engine := engine }
    let run := Runs.run (PacketPipeline.step D) p ops
    let reported := (endedIn run.2.flatten).filter (fun e => e.flow.key = key)
    let sent := (packetsOf key (p.attributed D ops)).filter (fun packet => packet.source = endpoint)
    (reported.map (fun e => (e.flow.sentBy endpoint).packets)).sum +
        (run.1.flows.flows.lookup key).elim 0 (fun flow => (flow.sentBy endpoint).packets) =
      sent.length ∧
    (reported.map (fun e => (e.flow.sentBy endpoint).bytes)).sum +
        (run.1.flows.flows.lookup key).elim 0 (fun flow => (flow.sentBy endpoint).bytes) =
      (sent.map PacketSummary.frameLen).sum := by
  intro p run reported sent
  refine ⟨?_, ?_⟩
  · have hone : (sent.map (fun _ => 1)).sum = sent.length := by
      rw [List.map_const', List.sum_replicate, smul_eq_mul, Nat.mul_one]
    rw [← hone]
    exact sentBy_balance hendpoint DirectionCounters.packets (fun _ => 1) rfl (fun _ _ =>
      rfl) D config
      engine ops
  · exact sentBy_balance hendpoint DirectionCounters.bytes id rfl (fun _ _ =>
      rfl) D config engine ops

/-- The client's three segments are in the flow event that the end of the capture makes. -/
theorem reported_eq_sent_two_clients :
    let p := { PacketPipeline.new Regex.none AhoCorasick.exhaustive smallWindowConfig with
      engine := some (sampleEngine {} [abRule]) }
    let run := Runs.run (PacketPipeline.step plainDecoder) p
      (twoClients ++ [.flush (HashOrder.asStored _)])
    let key := FlowKey.new 6 ⟨.v4 0xc0000201, 51000⟩ ⟨.v4 0xc6336401, 80⟩
    let reported := (endedIn run.2.flatten).filter (fun e => e.flow.key = key)
    (reported.map (fun e => (e.flow.sentBy ⟨.v4 0xc0000201, 51000⟩).packets)).sum +
      (run.1.flows.flows.lookup key).elim 0
        (fun flow => (flow.sentBy ⟨.v4 0xc0000201, 51000⟩).packets) = 3 := by
  have hboth := reported_eq_sent Regex.none AhoCorasick.exhaustive plainDecoder smallWindowConfig
    (some (sampleEngine {} [abRule])) (twoClients ++ [.flush (HashOrder.asStored _)])
    (FlowKey.new 6 ⟨.v4 0xc0000201, 51000⟩ ⟨.v4 0xc6336401, 80⟩) ⟨.v4 0xc0000201, 51000⟩ (by decide)
  exact hboth.1.trans (by decide +kernel)

end PacketPipeline

end CyberSentinel
