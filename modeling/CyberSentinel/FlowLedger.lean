import CyberSentinel.FlowBytes

/-!
# Every flow is accounted for

A flow enters the table when a packet opens it and leaves it once, by a close, a timeout, an
eviction or the final flush, each of which reports it. The ledger compares what was opened with what
was reported and what is still live: for each key, in the order of its creations. It is kept by
every single removal, so by every call however many flows it ends.
-/

namespace CyberSentinel

open Tables

namespace FlowTable

/-! ### What leaves the table -/

def departure (flow : Flow) (reason : EndReason) : EndedFlow :=
  ⟨(flushFlow flow).1, reason, (flushFlow flow).2⟩

theorem departure_flow (flow : Flow) (reason : EndReason) :
    (departure flow reason).flow.id = flow.id ∧ (departure flow reason).flow.key = flow.key ∧
      (departure flow reason).flow.lastSeen = flow.lastSeen := by
  unfold departure flushFlow
  cases flow.streams <;> exact ⟨rfl, rfl, rfl⟩

theorem removeFlow_none {t : FlowTable} {key : FlowKey} (h : t.flows.lookup key = none)
    (reason : EndReason) : removeFlow reason t key = t := by
  rw [removeFlow, h]

theorem removeFlow_some {t : FlowTable} {key : FlowKey} {flow : Flow}
    (h : t.flows.lookup key = some flow) (reason : EndReason) :
    (removeFlow reason t key).flows = t.flows.erase key ∧
      (removeFlow reason t key).counters = countEnd t.counters reason ∧
      (removeFlow reason t key).ended = t.ended ++ [departure flow reason] := by
  rw [removeFlow, h]
  exact ⟨rfl, rfl, rfl⟩

theorem removeFlow_limits (reason : EndReason) (t : FlowTable) (key : FlowKey) :
    (removeFlow reason t key).limits = t.limits ∧
      (removeFlow reason t key).reassembly = t.reassembly := by
  unfold removeFlow
  cases t.flows.lookup key <;> exact ⟨rfl, rfl⟩

theorem lookup_removeFlow (reason : EndReason) (t : FlowTable) (key other : FlowKey) :
    (removeFlow reason t key).flows.lookup other =
      if other = key then none else t.flows.lookup other := by
  by_cases hother : other = key
  · subst hother
    rw [if_pos rfl]
    cases hlookup : t.flows.lookup other with
    | none => rw [removeFlow_none hlookup, hlookup]
    | some flow => rw [(removeFlow_some hlookup reason).1, AList.lookup_erase]
  · rw [if_neg hother]
    cases hlookup : t.flows.lookup key with
    | none => rw [removeFlow_none hlookup]
    | some flow => rw [(removeFlow_some hlookup reason).1, AList.lookup_erase_ne hother]

/-- Removing some flows reports flows that were there at those keys, and leaves the others. -/
theorem removeFlows_spec (reason : EndReason) (keys : List FlowKey) (t : FlowTable) :
    (∀ other, (keys.foldl (removeFlow reason) t).flows.lookup other =
        if other ∈ keys then none else t.flows.lookup other) ∧
      ∃ gone, (keys.foldl (removeFlow reason) t).ended = t.ended ++ gone ∧
        ∀ e ∈ gone, ∃ key ∈ keys, ∃ flow, t.flows.lookup key = some flow ∧
          e = departure flow reason := by
  induction keys generalizing t with
  | nil => exact ⟨fun _ => rfl, [], (List.append_nil _).symm, fun _ he =>
    absurd he List.not_mem_nil⟩
  | cons key rest ih =>
    obtain ⟨hlookup, gone, hended, hgone⟩ := ih (removeFlow reason t key)
    constructor
    · intro other
      rw [List.foldl_cons, hlookup, lookup_removeFlow]
      by_cases hrest : other ∈ rest
      · rw [if_pos hrest, if_pos (List.mem_cons_of_mem _ hrest)]
      · simp [hrest]
    · have hrest : ∀ e ∈ gone, ∃ k ∈ key :: rest, ∃ flow, t.flows.lookup k = some flow ∧
          e = departure flow reason := by
        intro e he
        obtain ⟨k, hk, flow, hflow, heq⟩ := hgone e he
        rw [lookup_removeFlow] at hflow
        split_ifs at hflow
        exact ⟨k, List.mem_cons_of_mem _ hk, flow, hflow, heq⟩
      cases hat : t.flows.lookup key with
      | none =>
        rw [removeFlow_none hat] at hended
        refine ⟨gone, ?_, hrest⟩
        rw [List.foldl_cons, removeFlow_none hat, hended]
      | some flow =>
        refine ⟨departure flow reason :: gone, ?_, ?_⟩
        · rw [List.foldl_cons, hended, (removeFlow_some hat reason).2.2, List.append_assoc]
          rfl
        · rintro e (_ | ⟨_, he⟩)
          · exact ⟨key, List.mem_cons_self, flow, hat, rfl⟩
          · exact hrest e he

theorem entry_ended (t : FlowTable) (key : FlowKey) (packet : PacketSummary) :
    (t.entry key packet).1.ended = t.ended := by
  unfold entry
  cases t.flows.lookup key <;> rfl

theorem entry_counters (t : FlowTable) (key : FlowKey) (packet : PacketSummary) :
    (t.entry key packet).1.counters.created =
        t.counters.created + (if (t.flows.lookup key).isSome then 0 else 1) ∧
      (t.entry key packet).1.counters.closed = t.counters.closed ∧
      (t.entry key packet).1.counters.timedOut = t.counters.timedOut ∧
      (t.entry key packet).1.counters.evicted = t.counters.evicted := by
  unfold entry
  cases t.flows.lookup key <;> exact ⟨rfl, rfl, rfl, rfl⟩

theorem entry_limits (t : FlowTable) (key : FlowKey) (packet : PacketSummary) :
    (t.entry key packet).1.limits = t.limits ∧
      (t.entry key packet).1.reassembly = t.reassembly := by
  unfold entry
  cases t.flows.lookup key <;> exact ⟨rfl, rfl⟩

theorem entry_flow (t : FlowTable) (key : FlowKey) (packet : PacketSummary) :
    (t.entry key packet).2 = (t.flows.lookup key).getD (t.newFlow key packet) := by
  unfold entry
  cases t.flows.lookup key <;> rfl

/-- What is reported of a flow that a packet has updated: the flow itself, if it is closed now. -/
def reportClosed (flow : Flow) : List EndedFlow :=
  if flow.isClosed then [⟨(flushFlow flow).1, .closed, (flushFlow flow).2⟩] else []

theorem record_ended (t : FlowTable) (key : FlowKey) (flow flow' : Flow) (ignored : Bool) :
    (t.record key flow flow' ignored).ended = t.ended ++ reportClosed flow' := by
  unfold record reportClosed
  by_cases hclosed : flow'.isClosed = true
  · simp only [if_pos hclosed, removeFlow, AList.lookup_insert]
    rfl
  · simp only [if_neg hclosed, List.append_nil]
    rfl

theorem flush_ended (t : FlowTable) (order : HashOrder FlowKey) :
    (t.flush order).ended = t.ended ++ (iter order t.flows).map (fun entry =>
      ⟨(flushFlow entry.2).1, .sensorStopped, (flushFlow entry.2).2⟩) := by
  have hfold (flows : List Flow) (t : FlowTable) :
      (flows.foldl (fun t flow => t.endFlow flow .sensorStopped) t).ended = t.ended ++
        flows.map (fun flow => ⟨(flushFlow flow).1, .sensorStopped, (flushFlow flow).2⟩) := by
    induction flows generalizing t with
    | nil => simp
    | cons flow rest ih =>
      rw [List.foldl_cons, ih, List.map_cons]
      exact List.append_assoc t.ended [_] _
  rw [flush, hfold, List.map_map]
  rfl

theorem flush_fields (t : FlowTable) (order : HashOrder FlowKey) :
    (t.flush order).flows = ∅ ∧ (t.flush order).counters = t.counters ∧
      (t.flush order).limits = t.limits ∧ (t.flush order).reassembly = t.reassembly := by
  have hfold (flows : List Flow) (t : FlowTable) :
      let t' := flows.foldl (fun t flow => t.endFlow flow .sensorStopped) t
      t'.flows = t.flows ∧ t'.counters = t.counters ∧ t'.limits = t.limits ∧
        t'.reassembly = t.reassembly := by
    induction flows generalizing t with
    | nil => exact ⟨rfl, rfl, rfl, rfl⟩
    | cons flow rest ih => exact ih (t.endFlow flow .sensorStopped)
  exact hfold _ { t with flows := ∅ }

/-! ### The ledger -/

def idsOpened (key : FlowKey) (opened : List (FlowKey × UInt64)) : List UInt64 :=
  (opened.filter (fun entry => entry.1 = key)).map Prod.snd

def idsReported (key : FlowKey) (reported : List EndedFlow) : List UInt64 :=
  (reported.filter (fun e => e.flow.key = key)).map (fun e => e.flow.id)

def endedBy (reason : EndReason) (reported : List EndedFlow) : ℕ :=
  reported.countP (fun e => e.reason = reason)

theorem idsOpened_append (key : FlowKey) (xs ys : List (FlowKey × UInt64)) :
    idsOpened key (xs ++ ys) = idsOpened key xs ++ idsOpened key ys := by
  rw [idsOpened, List.filter_append, List.map_append]
  rfl

theorem idsReported_append (key : FlowKey) (xs ys : List EndedFlow) :
    idsReported key (xs ++ ys) = idsReported key xs ++ idsReported key ys := by
  rw [idsReported, List.filter_append, List.map_append]
  rfl

theorem endedBy_append (reason : EndReason) (xs ys : List EndedFlow) :
    endedBy reason (xs ++ ys) = endedBy reason xs + endedBy reason ys :=
  List.countP_append

structure Tallies (c : FlowCounters) (reported : List EndedFlow) : Prop where
  closed : c.closed = endedBy .closed reported
  timedOut : c.timedOut = endedBy .timedOut reported
  evicted : c.evicted = endedBy .evicted reported

theorem Tallies.countEnd {c : FlowCounters} {reported : List EndedFlow} (h : Tallies c reported)
    (flow : Flow) (reason : EndReason) :
    Tallies (countEnd c reason) (reported ++ [departure flow reason]) := by
  constructor
  · rw [endedBy_append, ← h.closed]
    cases reason <;> rfl
  · rw [endedBy_append, ← h.timedOut]
    cases reason <;> rfl
  · rw [endedBy_append, ← h.evicted]
    cases reason <;> rfl

/-- What was opened, what was reported and what is live, against each other. -/
structure Ledger (opened : List (FlowKey × UInt64)) (drained : List EndedFlow) (t : FlowTable) :
    Prop where
  keyed : ∀ key flow, t.flows.lookup key = some flow → flow.key = key
  created : t.counters.created = size t.flows + (drained ++ t.ended).length
  tallies : Tallies t.counters (drained ++ t.ended)
  creations : ∀ key, idsOpened key opened =
    idsReported key (drained ++ t.ended) ++ ((t.flows.lookup key).map Flow.id).toList

section Ledger

variable {opened : List (FlowKey × UInt64)} {drained : List EndedFlow} {t : FlowTable}

theorem Ledger.removeFlow (h : Ledger opened drained t) (reason : EndReason) (key : FlowKey) :
    Ledger opened drained (removeFlow reason t key) := by
  cases hlookup : t.flows.lookup key with
  | none =>
    rw [removeFlow_none hlookup]
    exact h
  | some flow =>
    obtain ⟨hflows, hcounters, hended⟩ := removeFlow_some hlookup reason
    obtain ⟨hid, hkey, _⟩ := departure_flow flow reason
    have hkeyed := h.keyed key flow hlookup
    have hsize := size_erase_of_lookup hlookup
    have hcreated : (countEnd t.counters reason).created = t.counters.created := by
      cases reason <;> rfl
    constructor
    · intro other flow' hflow'
      rw [lookup_removeFlow] at hflow'
      split_ifs at hflow'
      exact h.keyed other flow' hflow'
    · have := h.created
      rw [hflows, hcounters, hended, hcreated, ← List.append_assoc, List.length_append,
        List.length_singleton]
      omega
    · rw [hcounters, hended, ← List.append_assoc]
      exact h.tallies.countEnd flow reason
    · intro other
      rw [h.creations other, hended, ← List.append_assoc, idsReported_append, lookup_removeFlow]
      by_cases hother : other = key
      · subst hother
        simp [hlookup, idsReported, hkey, hkeyed, hid]
      · have hne : flow.key ≠ other := fun heq => hother (heq ▸ hkeyed)
        simp [hother, idsReported, hkey, hne]

theorem Ledger.sweep (h : Ledger opened drained t) (order : HashOrder FlowKey) (now : Instant) :
    Ledger opened drained (t.sweep order now) :=
  sweep_invariant (fun reason _ key h => h.removeFlow reason key)
    (fun _ _ h => ⟨h.keyed, h.created, h.tallies, h.creations⟩) order now h

theorem Ledger.prepare (h : Ledger opened drained t) (order : HashOrder FlowKey)
    (packet : PacketSummary) (key : FlowKey) : Ledger opened drained (t.prepare order packet key) :=
  prepare_invariant (fun reason _ key h => h.removeFlow reason key)
    (fun _ _ h => ⟨h.keyed, h.created, h.tallies, h.creations⟩) order packet
    key h

/-- A flow is stored at its key, where there was none or the same one before. -/
theorem Ledger.insert (h : Ledger opened drained t) {key : FlowKey} {flow : Flow} {t' : FlowTable}
    (hkey : flow.key = key)
    (hsame : ∀ before, t.flows.lookup key = some before → flow.id = before.id)
    (hflows : t'.flows = t.flows.insert key flow) (hended : t'.ended = t.ended)
    (hcreated : t'.counters.created = t.counters.created +
      if (t.flows.lookup key).isSome then 0 else 1)
    (hcounters : t'.counters.closed = t.counters.closed ∧
      t'.counters.timedOut = t.counters.timedOut ∧ t'.counters.evicted = t.counters.evicted) :
    Ledger (opened ++ if (t.flows.lookup key).isSome then [] else [(key, flow.id)]) drained t' := by
  obtain ⟨hclosed, htimedOut, hevicted⟩ := hcounters
  constructor
  · intro other flow' hflow'
    rw [hflows] at hflow'
    by_cases hother : other = key
    · rw [hother, AList.lookup_insert] at hflow'
      rw [← Option.some.inj hflow', hkey, hother]
    · rw [AList.lookup_insert_ne hother] at hflow'
      exact h.keyed other flow' hflow'
  · have := h.created
    rw [hflows, hended, hcreated, size_insert]
    omega
  · rw [hended]
    exact ⟨hclosed.trans h.tallies.closed, htimedOut.trans h.tallies.timedOut,
      hevicted.trans h.tallies.evicted⟩
  · intro other
    rw [idsOpened_append, h.creations other, hended, hflows]
    by_cases hother : other = key
    · subst hother
      rw [AList.lookup_insert]
      cases hlookup : t.flows.lookup other with
      | none => simp [idsOpened]
      | some before => simp [idsOpened, hsame before hlookup]
    · have hnew : idsOpened other (if (t.flows.lookup key).isSome then [] else [(key, flow.id)]) =
          [] := by
        split_ifs
        · rfl
        · simp [idsOpened, Ne.symm hother]
      rw [AList.lookup_insert_ne hother, hnew, List.append_nil]

theorem Ledger.flush (h : Ledger opened drained t) (order : HashOrder FlowKey) :
    Ledger opened drained (t.flush order) := by
  obtain ⟨hflows, hcounters, _⟩ := t.flush_fields order
  have hended := t.flush_ended order
  have hother (reason : EndReason) (hne : reason ≠ .sensorStopped) :
      endedBy reason ((iter order t.flows).map (fun entry =>
        ⟨(flushFlow entry.2).1, .sensorStopped, (flushFlow entry.2).2⟩)) = 0 := by
    rw [endedBy, List.countP_eq_zero]
    intro e he
    obtain ⟨entry, _, rfl⟩ := List.mem_map.1 he
    simp [hne.symm]
  constructor
  · intro key flow hflow
    rw [hflows, AList.lookup_empty] at hflow
    exact absurd hflow (by simp)
  · have := h.created
    have hnone : size (∅ : Table FlowKey Flow) = 0 := rfl
    rw [hflows, hcounters, hended, ← List.append_assoc, List.length_append, List.length_map,
      length_iter, hnone]
    omega
  · rw [hcounters, hended, ← List.append_assoc]
    constructor
    · rw [endedBy_append, hother _ (by decide), Nat.add_zero, h.tallies.closed]
    · rw [endedBy_append, hother _ (by decide), Nat.add_zero, h.tallies.timedOut]
    · rw [endedBy_append, hother _ (by decide), Nat.add_zero, h.tallies.evicted]
  · intro key
    have hkeys : (iter order t.flows).filter (fun entry => entry.2.key = key) =
        (iter order t.flows).filter (fun entry => entry.1 = key) := by
      apply List.filter_congr
      intro entry hentry
      rw [h.keyed entry.1 entry.2 ((mem_iter order t.flows entry.1 entry.2).1 hentry)]
    have hids : idsReported key ((iter order t.flows).map (fun entry =>
        ⟨(flushFlow entry.2).1, .sensorStopped, (flushFlow entry.2).2⟩)) =
        ((t.flows.lookup key).map Flow.id).toList := by
      have hkey (flow : Flow) : (flushFlow flow).1.key = flow.key :=
        (departure_flow flow .sensorStopped).2.1
      have hid (flow : Flow) : (flushFlow flow).1.id = flow.id :=
        (departure_flow flow .sensorStopped).1
      rw [idsReported, List.filter_map, List.map_map]
      simp only [Function.comp_def, hkey, hid]
      rw [hkeys, filter_iter]
      cases t.flows.lookup key <;> rfl
    rw [hflows, hended, AList.lookup_empty, ← List.append_assoc, idsReported_append, hids,
      h.creations key]
    simp

end Ledger

/-! ### One packet -/

theorem updateFlow_identity (flow : Flow) (toServer : Bool) (packet : PacketSummary)
    (policy : IpAddr → OverlapPolicy) :
    (updateFlow flow toServer packet policy).1.id = flow.id ∧
      (updateFlow flow toServer packet policy).1.key = flow.key := by
  simp only [updateFlow]
  cases packet.tcp with
  | none => exact ⟨rfl, rfl⟩
  | some segment =>
    simp only [pushSegment, countPacket]
    cases flow.streams <;> exact ⟨rfl, rfl⟩

/-- Making room opens nothing, so a packet's flow is new exactly if the table it finds has none. -/
theorem prepare_lookup (t : FlowTable) (order : HashOrder FlowKey) (packet : PacketSummary)
    (key : FlowKey) :
    ((t.prepare order packet key).flows.lookup key).isNone =
      ((t.maybeSweep order packet.timestamp).flows.lookup key).isNone := by
  by_cases hnew : ((t.maybeSweep order packet.timestamp).flows.lookup key).isNone = true
  · have hnone := makeRoom_invariant (P := fun t => t.flows.lookup key = none)
      (fun reason t other h => by rw [lookup_removeFlow, h, ite_self]) (fun _ _ h => h) order
      packet.timestamp (Option.isNone_iff_eq_none.1 hnew)
    rw [prepare, if_pos hnew, hnew, hnone]
    rfl
  · rw [prepare, if_neg hnew]

def packetKey (packet : PacketSummary) : FlowKey :=
  FlowKey.new packet.protocol packet.source packet.destination

/-- The flow a packet is attributed to, in the table that is ready for it. -/
def flowFor (t : FlowTable) (order : HashOrder FlowKey) (packet : PacketSummary) : Flow :=
  let key := FlowKey.new packet.protocol packet.source packet.destination
  ((t.prepare order packet key).entry key packet).2

def flowAfter (t : FlowTable) (order : HashOrder FlowKey) (packet : PacketSummary)
    (policy : IpAddr → OverlapPolicy) : Flow :=
  (updateFlow (t.flowFor order packet) (packet.source = (t.flowFor order packet).initiator) packet
    policy).1

/-- The table with what a packet made of its flow, before a closed flow is ended. -/
def stored (t : FlowTable) (order : HashOrder FlowKey) (packet : PacketSummary)
    (policy : IpAddr → OverlapPolicy) : FlowTable :=
  let opened := ((t.prepare order packet (packetKey packet)).entry (packetKey packet) packet).1
  let ignored := (updateFlow (t.flowFor order packet)
    (packet.source = (t.flowFor order packet).initiator) packet policy).2.2
  let flow := t.flowAfter order packet policy
  let counted := { opened with
    counters := { opened.counters with
      resetsIgnored := opened.counters.resetsIgnored + if ignored then 1 else 0 } }
  { counted.adjustBytes flow.bufferedBytes (t.flowFor order packet).bufferedBytes with
    flows := opened.flows.insert (packetKey packet) flow }

theorem observe_eq (t : FlowTable) (order : HashOrder FlowKey) (packet : PacketSummary)
    (policy : IpAddr → OverlapPolicy) :
    (t.observe order packet policy).1 = if (t.flowAfter order packet policy).isClosed then
      removeFlow .closed (t.stored order packet policy) (packetKey packet)
      else t.stored order packet policy := rfl

/-- What every single removal keeps holds after a packet if it holds of the table with its flow. -/
theorem observe_invariant {P : FlowTable → Prop}
    (hremove : ∀ reason t key, P t → P (removeFlow reason t key)) {t : FlowTable}
    {order : HashOrder FlowKey} {packet : PacketSummary} {policy : IpAddr → OverlapPolicy}
    (h : P (t.stored order packet policy)) : P (t.observe order packet policy).1 := by
  rw [observe_eq]
  split_ifs
  · exact hremove .closed _ _ h
  · exact h

theorem stored_flows (t : FlowTable) (order : HashOrder FlowKey) (packet : PacketSummary)
    (policy : IpAddr → OverlapPolicy) :
    (t.stored order packet policy).flows =
      (t.prepare order packet (packetKey packet)).flows.insert (packetKey packet)
        (t.flowAfter order packet policy) := by
  have hflows := (t.prepare order packet (packetKey packet)).entry_flows (packetKey packet) packet
  exact congrArg (fun flows => AList.insert (packetKey packet) _ flows) hflows

theorem stored_limits (t : FlowTable) (order : HashOrder FlowKey) (packet : PacketSummary)
    (policy : IpAddr → OverlapPolicy) :
    (t.stored order packet policy).limits = (t.prepare order packet (packetKey packet)).limits ∧
      (t.stored order packet policy).reassembly =
        (t.prepare order packet (packetKey packet)).reassembly :=
  (t.prepare order packet (packetKey packet)).entry_limits (packetKey packet) packet

def opens (t : FlowTable) : Op → List (FlowKey × UInt64)
  | .observe order packet policy =>
    let observed := (t.observe order packet policy).2.1
    if observed.isNew then
      [(FlowKey.new packet.protocol packet.source packet.destination, observed.flowId)]
    else []
  | .sweep _ _ => []
  | .flush _ => []
  | .takeEnded => []

theorem Ledger.observe {opened : List (FlowKey × UInt64)} {drained : List EndedFlow} {t : FlowTable}
    (h : Ledger opened drained t) (order : HashOrder FlowKey) (packet : PacketSummary)
    (policy : IpAddr → OverlapPolicy) :
    Ledger (opened ++ t.opens (.observe order packet policy)) drained
      (t.observe order packet policy).1 := by
  have hready := h.prepare order packet (packetKey packet)
  have hnew : (t.observe order packet policy).2.1.isNew =
      ((t.prepare order packet (packetKey packet)).flows.lookup (packetKey packet)).isNone :=
    (t.prepare_lookup order packet (packetKey packet)).symm
  obtain ⟨hid, hkey⟩ : (t.flowAfter order packet policy).id = (t.flowFor order packet).id ∧
      (t.flowAfter order packet policy).key = (t.flowFor order packet).key :=
    updateFlow_identity _ _ packet policy
  have hflow : t.flowFor order packet =
      ((t.prepare order packet (packetKey packet)).flows.lookup (packetKey packet)).getD
        ((t.prepare order packet (packetKey packet)).newFlow (packetKey packet) packet) :=
    entry_flow _ _ packet
  obtain ⟨hcreated, hcounters⟩ :=
    (t.prepare order packet (packetKey packet)).entry_counters (packetKey packet) packet
  have hopened : t.opens (.observe order packet policy) =
      if ((t.prepare order packet (packetKey packet)).flows.lookup (packetKey packet)).isSome then
      []
      else [(packetKey packet, (t.flowAfter order packet policy).id)] := by
    simp only [opens, hnew, hid]
    cases (t.prepare order packet (packetKey packet)).flows.lookup (packetKey packet) <;> rfl
  rw [hopened]
  apply observe_invariant (fun reason _ key h => h.removeFlow reason key)
  -- what the packet made of the flow is stored at its key
  apply hready.insert
  · rw [hkey, hflow]
    cases hlookup : (t.prepare order packet (packetKey packet)).flows.lookup (packetKey packet) with
    | none => rfl
    | some before => exact hready.keyed _ before hlookup
  · intro before hbefore
    rw [hid, hflow, hbefore]
    rfl
  · exact t.stored_flows order packet policy
  · exact entry_ended _ _ packet
  · exact hcreated
  · exact hcounters

/-! ### The size of the table -/

theorem size_removeFlow_le (reason : EndReason) (t : FlowTable) (key : FlowKey) :
    size (removeFlow reason t key).flows ≤ size t.flows := by
  cases hlookup : t.flows.lookup key with
  | none => rw [removeFlow_none hlookup]
  | some flow =>
    rw [(removeFlow_some hlookup reason).1]
    exact size_erase_le t.flows key

/-- The table keeps its limits and holds no more flows than before. -/
structure NoLarger (limits : Limits) (bound : ℕ) (t : FlowTable) : Prop where
  limits_eq : t.limits = limits
  size_le : size t.flows ≤ bound

theorem NoLarger.removeFlow {limits : Limits} {bound : ℕ} {t : FlowTable}
    (h : NoLarger limits bound t) (reason : EndReason) (key : FlowKey) :
    NoLarger limits bound (removeFlow reason t key) :=
  ⟨(removeFlow_limits reason t key).1.trans h.limits_eq,
    (size_removeFlow_le reason t key).trans h.size_le⟩

theorem NoLarger.sweep {limits : Limits} {bound : ℕ} {t : FlowTable} (h : NoLarger limits bound t)
    (order : HashOrder FlowKey) (now : Instant) : NoLarger limits bound (t.sweep order now) :=
  sweep_invariant (fun reason _ key h => h.removeFlow reason key)
    (fun _ _ h => ⟨h.limits_eq, h.size_le⟩) order now h

theorem size_evict_lt {limits : Limits} {t : FlowTable} (order : HashOrder FlowKey)
    (h : NoLarger limits (size t.flows) t) (hpos : 0 < size t.flows) :
    NoLarger limits (size t.flows - 1) (t.evict order) := by
  obtain ⟨oldest, rest, hbatch, hlookup⟩ := take_insertionSort_eq_cons
    (fun entry : FlowKey × Flow => (entry.2.lastSeen, entry.1)) (fun a b => a.1 ≤ b.1) order hpos
    (t.limits.maxFlows / evictionBatchFraction)
  simp only [evict]
  rw [hbatch, List.map_cons, List.foldl_cons]
  apply removeFlows_invariant (fun reason _ key h => h.removeFlow reason key)
  refine ⟨(removeFlow_limits .evicted t oldest.1).1.trans h.limits_eq, ?_⟩
  have hsize := size_erase_of_lookup hlookup
  rw [(removeFlow_some hlookup .evicted).1]
  omega

theorem size_makeRoom_lt {limits : Limits} (hpos : 1 ≤ limits.maxFlows) {t : FlowTable}
    (h : NoLarger limits limits.maxFlows t) (order : HashOrder FlowKey) (now : Instant) :
    NoLarger limits (limits.maxFlows - 1) (t.makeRoom order now) := by
  have hwithin {t : FlowTable} (hlimits : t.limits = limits) (hin : t.withinLimits = true) :
      size t.flows ≤ limits.maxFlows - 1 := by
    rw [withinLimits, Bool.and_eq_true, decide_eq_true_iff, hlimits] at hin
    omega
  have hsweep := h.sweep order now
  unfold makeRoom
  dsimp only
  split_ifs with hin hin'
  · exact ⟨h.limits_eq, hwithin h.limits_eq hin⟩
  · exact ⟨hsweep.limits_eq, hwithin hsweep.limits_eq hin'⟩
  · by_cases hempty : 0 < size (t.sweep order now).flows
    · obtain ⟨hlimits, hsize⟩ := size_evict_lt order ⟨hsweep.limits_eq, le_rfl⟩ hempty
      have := hsweep.size_le
      exact ⟨hlimits, by omega⟩
    · have hnone : NoLarger limits 0 (t.sweep order now) := ⟨hsweep.limits_eq, by omega⟩
      obtain ⟨hlimits, hsize⟩ := removeFlows_invariant (P := NoLarger limits 0)
        (fun reason _ key h => h.removeFlow reason key) .evicted _ hnone
      exact ⟨hlimits, hsize.trans (Nat.zero_le _)⟩

theorem NoLarger.prepare_insert {limits : Limits} (hpos : 1 ≤ limits.maxFlows) {t : FlowTable}
    (h : NoLarger limits limits.maxFlows t) (order : HashOrder FlowKey) (packet : PacketSummary)
    (key : FlowKey) (flow : Flow) :
    (t.prepare order packet key).limits = limits ∧
      size ((t.prepare order packet key).flows.insert key flow) ≤ limits.maxFlows := by
  have hswept : NoLarger limits limits.maxFlows (t.maybeSweep order packet.timestamp) :=
    maybeSweep_invariant (fun reason _ key h => h.removeFlow reason key)
      (fun _ _ h => ⟨h.limits_eq, h.size_le⟩) order packet.timestamp h
  unfold prepare
  by_cases hnew : ((t.maybeSweep order packet.timestamp).flows.lookup key).isNone = true
  · rw [if_pos hnew]
    obtain ⟨hlimits, hsize⟩ := size_makeRoom_lt hpos hswept order packet.timestamp
    refine ⟨hlimits, ?_⟩
    have := size_insert_le ((t.maybeSweep order packet.timestamp).makeRoom order
      packet.timestamp).flows key flow
    omega
  · rw [if_neg hnew]
    refine ⟨hswept.limits_eq, ?_⟩
    rw [Option.isNone_iff_eq_none] at hnew
    rw [size_insert, if_pos (Option.isSome_iff_ne_none.2 hnew)]
    exact hswept.size_le

theorem NoLarger.observe {limits : Limits} (hpos : 1 ≤ limits.maxFlows) {t : FlowTable}
    (h : NoLarger limits limits.maxFlows t) (order : HashOrder FlowKey) (packet : PacketSummary)
    (policy : IpAddr → OverlapPolicy) :
    NoLarger limits limits.maxFlows (t.observe order packet policy).1 := by
  obtain ⟨hlimits, hsize⟩ := h.prepare_insert hpos order packet (packetKey packet)
    (t.flowAfter order packet policy)
  apply observe_invariant (fun reason _ key h => h.removeFlow reason key)
  refine ⟨(t.stored_limits order packet policy).1.trans hlimits, ?_⟩
  rw [stored_flows]
  exact hsize

theorem NoLarger.step {limits : Limits} (hpos : 1 ≤ limits.maxFlows) {t : FlowTable}
    (h : NoLarger limits limits.maxFlows t) (op : Op) :
    NoLarger limits limits.maxFlows (t.step op).1 := by
  cases op with
  | observe order packet policy => exact h.observe hpos order packet policy
  | sweep order now => exact h.sweep order now
  | flush order =>
    obtain ⟨hflows, _, hlimits, _⟩ := t.flush_fields order
    refine ⟨hlimits.trans h.limits_eq, ?_⟩
    change size (t.flush order).flows ≤ limits.maxFlows
    rw [hflows]
    exact Nat.zero_le _
  | takeEnded => exact ⟨h.limits_eq, h.size_le⟩

/-! ### Who is evicted -/

/-- The flows evicted were last seen no later than any of those left. -/
theorem evict_oldest (t : FlowTable) (order : HashOrder FlowKey) :
    ∃ gone, (t.evict order).ended = t.ended ++ gone ∧
      ∀ e ∈ gone, ∀ key flow, (t.evict order).flows.lookup key = some flow →
        e.flow.lastSeen ≤ flow.lastSeen := by
  simp only [evict]
  generalize hbyAge : ((iter order t.flows).map (fun entry =>
    (entry.2.lastSeen, entry.1))).insertionSort
    (fun a b => a.1 ≤ b.1) = byAge
  have hmem : ∀ key flow, t.flows.lookup key = some flow → (flow.lastSeen, key) ∈ byAge := by
    intro key flow hflow
    rw [← hbyAge, List.mem_insertionSort]
    exact List.mem_map.2 ⟨(key, flow), (mem_iter order t.flows key flow).2 hflow, rfl⟩
  have hseen : ∀ key flow seen, t.flows.lookup key = some flow → (seen, key) ∈ byAge →
      seen = flow.lastSeen := by
    intro key flow seen hflow hentry
    rw [← hbyAge, List.mem_insertionSort] at hentry
    obtain ⟨entry, hiter, heq⟩ := List.mem_map.1 hentry
    have hlookup := (mem_iter order t.flows entry.1 entry.2).1 hiter
    rw [(Prod.mk.inj heq).2, hflow] at hlookup
    rw [← (Prod.mk.inj heq).1, Option.some.inj hlookup]
  have hsorted : byAge.Pairwise (fun a b => a.1 ≤ b.1) := by
    rw [← hbyAge]
    exact List.pairwise_insertionSort (fun a b : Instant × FlowKey => a.1 ≤ b.1) _
  obtain ⟨batch, hbatch⟩ : ∃ batch, batch = max (t.limits.maxFlows / evictionBatchFraction) 1 :=
    ⟨_, rfl⟩
  rw [← hbatch]
  rw [← List.take_append_drop batch byAge, List.pairwise_append] at hsorted
  obtain ⟨hlookup, gone, hended, hgone⟩ :=
    removeFlows_spec .evicted ((byAge.take batch).map Prod.snd) t
  refine ⟨gone, hended, ?_⟩
  intro e he key flow hflow
  obtain ⟨oldKey, hold, old, holdFlow, heq⟩ := hgone e he
  rw [hlookup] at hflow
  split_ifs at hflow with hkept
  obtain ⟨entry, hentry, hkey⟩ := List.mem_map.1 hold
  subst hkey
  have hage : entry.1 = old.lastSeen :=
    hseen entry.2 old entry.1 holdFlow (List.mem_of_mem_take hentry)
  -- a flow that is left is further down the list
  have hdropped : (flow.lastSeen, key) ∈ byAge.drop batch := by
    have hin := hmem key flow hflow
    rw [← List.take_append_drop batch byAge, List.mem_append] at hin
    rcases hin with hin | hin
    · exact absurd (List.mem_map.2 ⟨_, hin, rfl⟩) hkept
    · exact hin
  have hle := hsorted.2.2 entry hentry _ hdropped
  rw [heq, (departure_flow old .evicted).2.2, ← hage]
  exact hle

/-- What a packet's arrival evicts was last seen no later than any flow the eviction left. -/
def EvictsOldest (t : FlowTable) (order : HashOrder FlowKey) (packet : PacketSummary)
    (policy : IpAddr → OverlapPolicy) : Prop :=
  ∃ gone, (t.observe order packet policy).1.ended = t.ended ++ gone ∧
    ∀ e ∈ gone, e.reason = .evicted → ∀ key flow,
      (t.prepare order packet
        (FlowKey.new packet.protocol packet.source packet.destination)).flows.lookup key =
        some flow →
      e.flow.lastSeen ≤ flow.lastSeen

theorem sweep_ended (t : FlowTable) (order : HashOrder FlowKey) (now : Instant) :
    ∃ gone, (t.sweep order now).ended = t.ended ++ gone ∧ ∀ e ∈ gone, e.reason = .timedOut := by
  obtain ⟨_, gone, hended, hgone⟩ := removeFlows_spec .timedOut (((iter order t.flows).filter
    (fun entry => t.limits.flowTimeout ≤ elapsed now entry.2.lastSeen)).map Prod.fst)
    { t with lastSweep := some now }
  refine ⟨gone, hended, ?_⟩
  intro e he
  obtain ⟨_, _, flow, _, heq⟩ := hgone e he
  rw [heq]
  rfl

theorem observe_evictsOldest (t : FlowTable) (order : HashOrder FlowKey) (packet : PacketSummary)
    (policy : IpAddr → OverlapPolicy) : t.EvictsOldest order packet policy := by
  unfold EvictsOldest
  simp only [observe]
  generalize FlowKey.new packet.protocol packet.source packet.destination = key
  have hready : ∃ gone, (t.prepare order packet key).ended = t.ended ++ gone ∧
      ∀ e ∈ gone, e.reason = .evicted → ∀ other flow,
        (t.prepare order packet key).flows.lookup other = some flow →
        e.flow.lastSeen ≤ flow.lastSeen := by
    have hmaybe : ∃ gone, (t.maybeSweep order packet.timestamp).ended = t.ended ++ gone ∧
        ∀ e ∈ gone, e.reason = .timedOut := by
      simp only [maybeSweep]
      split_ifs
      · exact t.sweep_ended order packet.timestamp
      · exact ⟨[], (List.append_nil _).symm, fun _ he => absurd he List.not_mem_nil⟩
    obtain ⟨first, hfirst, hfirstReason⟩ := hmaybe
    obtain ⟨second, hsecond, hsecondReason⟩ :=
      (t.maybeSweep order packet.timestamp).sweep_ended order packet.timestamp
    obtain ⟨third, hthird, holdest⟩ :=
      ((t.maybeSweep order packet.timestamp).sweep order packet.timestamp).evict_oldest order
    have hno {gone : List EndedFlow} (h : ∀ e ∈ gone, e.reason = .timedOut) {e : EndedFlow}
        (he : e ∈ gone) : e.reason ≠ .evicted := by
      rw [h e he]
      decide
    simp only [prepare, makeRoom]
    split_ifs
    · exact ⟨first, hfirst, fun e he hevicted => absurd hevicted (hno hfirstReason he)⟩
    · refine ⟨first ++ second, by rw [hsecond, hfirst, List.append_assoc], ?_⟩
      intro e he hevicted
      rcases List.mem_append.1 he with he | he
      · exact absurd hevicted (hno hfirstReason he)
      · exact absurd hevicted (hno hsecondReason he)
    · refine ⟨first ++ second ++ third, by rw [hthird, hsecond, hfirst]; simp, ?_⟩
      intro e he hevicted
      rcases List.mem_append.1 he with he | he
      · rcases List.mem_append.1 he with he | he
        · exact absurd hevicted (hno hfirstReason he)
        · exact absurd hevicted (hno hsecondReason he)
      · exact holdest e he
    · exact ⟨first, hfirst, fun e he hevicted => absurd hevicted (hno hfirstReason he)⟩
  obtain ⟨gone, hended, hgone⟩ := hready
  refine ⟨_, by rw [record_ended, entry_ended, hended, List.append_assoc], ?_⟩
  intro e he hevicted
  rcases List.mem_append.1 he with he | he
  · exact hgone e he hevicted
  · unfold reportClosed at he
    split_ifs at he
    · rw [List.mem_singleton.1 he] at hevicted
      cases hevicted
    · exact absurd he List.not_mem_nil

/-! ### Runs -/

def ledgerStep (t : FlowTable) (op : Op) : FlowTable × List (FlowKey × UInt64) × List EndedFlow :=
  ((t.step op).1, t.opens op, (t.step op).2.2)

theorem Ledger.step {opened : List (FlowKey × UInt64)} {drained : List EndedFlow} {t : FlowTable}
    (h : Ledger opened drained t) (op : Op) :
    Ledger (opened ++ (t.ledgerStep op).2.1) (drained ++ (t.ledgerStep op).2.2)
      (t.ledgerStep op).1 := by
  cases op with
  | observe order packet policy =>
    simp only [ledgerStep, FlowTable.step, List.append_nil]
    exact h.observe order packet policy
  | sweep order now =>
    simp only [ledgerStep, FlowTable.step, opens, List.append_nil]
    exact h.sweep order now
  | flush order =>
    simp only [ledgerStep, FlowTable.step, opens, List.append_nil]
    exact h.flush order
  | takeEnded =>
    -- the reports change hands
    simp only [ledgerStep, FlowTable.step, opens, List.append_nil]
    have hmoved : drained ++ t.ended ++ [] = drained ++ t.ended := List.append_nil _
    constructor
    · exact h.keyed
    · rw [hmoved]
      exact h.created
    · rw [hmoved]
      exact h.tallies
    · rw [hmoved]
      exact h.creations

theorem run_ledger {opened : List (FlowKey × UInt64)} {drained : List EndedFlow} {t : FlowTable}
    (h : Ledger opened drained t) (ops : List Op) :
    Ledger (opened ++ (Runs.run ledgerStep t ops).2.flatMap Prod.fst)
      (drained ++ (Runs.run ledgerStep t ops).2.flatMap Prod.snd)
      (Runs.run ledgerStep t ops).1 := by
  induction ops generalizing opened drained t with
  | nil => simpa using h
  | cons op rest ih =>
    have hrest := ih (h.step op)
    simpa only [Runs.run_cons, List.flatMap_cons, List.append_assoc] using hrest

theorem length_eq_endedBy (reported : List EndedFlow) :
    reported.length = endedBy .closed reported + endedBy .timedOut reported +
      endedBy .evicted reported + endedBy .sensorStopped reported := by
  induction reported with
  | nil => rfl
  | cons e rest ih =>
    simp only [endedBy, List.countP_cons, List.length_cons] at ih ⊢
    cases e.reason <;> simp <;> omega

/-- In every run of a table with room for a flow: the table is never over its limit; every flow
created is live or was reported, once, for one of four reasons that the counters count; a key is in
the table at most once, and its creations in order are those reported and then the live one; and
whatever is evicted was last seen no later than any flow the eviction left. -/
theorem flows_conserved (limits : Limits) (reassembly : ReassemblyConfig) (ops : List Op)
    (hpos : 1 ≤ limits.maxFlows) :
    let run := Runs.run ledgerStep (withReassembly limits reassembly) ops
    let t := run.1
    let opened := run.2.flatMap Prod.fst
    let reported := run.2.flatMap Prod.snd ++ t.ended
    size t.flows ≤ limits.maxFlows ∧
      t.counters.created = size t.flows + reported.length ∧
      (t.counters.closed = endedBy .closed reported ∧
        t.counters.timedOut = endedBy .timedOut reported ∧
        t.counters.evicted = endedBy .evicted reported ∧
        reported.length = t.counters.closed + t.counters.timedOut + t.counters.evicted +
          endedBy .sensorStopped reported) ∧
      (t.flows.keys.Nodup ∧ ∀ key flow, t.flows.lookup key = some flow → flow.key = key) ∧
      (∀ key, idsOpened key opened =
        idsReported key reported ++ ((t.flows.lookup key).map Flow.id).toList) ∧
      ∀ before order packet policy after, ops = before ++ .observe order packet policy :: after →
        EvictsOldest (Runs.run ledgerStep (withReassembly limits reassembly) before).1 order packet
          policy := by
  intro run t opened reported
  have hfits : NoLarger limits limits.maxFlows t :=
    Runs.invariant ledgerStep (NoLarger limits limits.maxFlows) (fun t op h => h.step hpos op)
      ⟨rfl, Nat.zero_le _⟩ ops
  have hnew : Ledger [] [] (withReassembly limits reassembly) :=
    ⟨fun _ _ h => absurd h (by simp [withReassembly]), rfl, ⟨rfl, rfl, rfl⟩, fun _ => rfl⟩
  have hledger : Ledger opened (run.2.flatMap Prod.snd) t := run_ledger hnew ops
  refine ⟨hfits.size_le, hledger.created,
    ⟨hledger.tallies.closed, hledger.tallies.timedOut, hledger.tallies.evicted, ?_⟩,
    ⟨t.flows.keys_nodup, hledger.keyed⟩,
    hledger.creations, ?_⟩
  · rw [hledger.tallies.closed, hledger.tallies.timedOut, hledger.tallies.evicted]
    exact length_eq_endedBy reported
  · intro before order packet policy after _
    exact observe_evictsOldest _ order packet policy

/-- A table of one flow meets two: the first one is evicted and reported, the second one is live. -/
theorem flows_conserved_two_flows :
    let packet (port : UInt16) (now : Instant) : Op := .observe (HashOrder.asStored _)
      ⟨17, ⟨.v4 1, port⟩, ⟨.v4 2, 53⟩, now, 60, [], none⟩ (fun _ => .first)
    let run := Runs.run ledgerStep (withReassembly { maxFlows := 1 } {})
      [packet 1000 0, packet 1001 1]
    size run.1.flows ≤ 1 ∧ run.1.counters.created = 2 ∧ run.1.counters.evicted = 1 := by
  intro packet run
  have hconserved := flows_conserved { maxFlows := 1 } {} [packet 1000 0, packet 1001 1] (by decide)
  refine ⟨hconserved.1, ?_, ?_⟩
  · decide +kernel
  · decide +kernel

end FlowTable
end CyberSentinel
