import CyberSentinel.FlowLedger
import CyberSentinel.StreamInvariant

/-!
# The ceiling on reassembly memory

The byte budget of the flow table is looked at when a flow is opened, and then at most one batch of
flows is evicted. A flow that is already open takes its bytes whatever the others hold, so the total
plus one flow is no bound. It is one for as long as data arrives only while the flows beside its
own, those that the sweep and the eviction have left, are within the budget.
-/

namespace CyberSentinel

open Spans Tables

namespace Stream

/-- A direction with nothing to deliver has a hole below its limit, so it is not full. -/
theorem Settled.bufferedBytes_lt {s : Stream} (hsettled : s.Settled) (h : s.Sound) :
    s.bufferedBytes < s.byteLimit := by
  have hhole : s.buffer.contiguousEnd ∉ points s.buffer.covered :=
    firstHole_not_mem h.wf.separated h.wf.start_ge
  have hbase := h.wf.base_le_contiguousEnd
  have hwait := hsettled.waiting
  have hflush := h.flush_le
  have hpos := h.flush_pos
  have hwindow : s.buffer.windowEnd ≤ s.buffer.base + s.byteLimit :=
    h.byteLimit_eq ▸ min_le_left _ _
  have hin : s.buffer.contiguousEnd ∈ Set.Ico s.buffer.base (s.buffer.base + s.byteLimit) :=
    ⟨hbase, by omega⟩
  have hsub : points s.buffer.covered ⊆
      Set.Ico s.buffer.base (s.buffer.base + s.byteLimit) \ {s.buffer.contiguousEnd} := by
    intro x hx
    refine ⟨?_, fun heq => hhole (Set.mem_singleton_iff.1 heq ▸ hx)⟩
    obtain ⟨r, hr, hlo, hhi⟩ := hx
    have hstart := h.wf.start_ge r hr
    have hstop := h.wf.stop_le r hr
    exact ⟨by omega, by omega⟩
  have hcard := Set.ncard_le_ncard hsub ((Set.finite_Ico _ _).subset Set.sdiff_subset)
  rw [Set.ncard_sdiff_singleton_of_mem hin, Set.ncard_Ico_nat, ← measure_eq_ncard h.wf.separated]
    at hcard
  have hbytes : s.bufferedBytes = measure s.buffer.covered := rfl
  omega

theorem deliver_bufferedBytes_le {s : Stream} (h : s.Sound) (force : Bool) :
    (s.deliver force).1.bufferedBytes ≤ s.bufferedBytes := by
  have hcounts := (RangeBuffer.drain_counts h.wf (s.deliverLimit force)).1
  change (s.buffer.drainContiguousUpto (s.deliverLimit force)).1.bufferedBytes ≤
    s.buffer.bufferedBytes
  omega

theorem receive_buffer_of_empty (s : Stream) (toServer : Bool) {q : Push}
    (hempty : q.segment.payload = []) : (s.receive toServer q).buffer = s.buffer := by
  unfold receive
  split_ifs
  · rw [push_eq]
    split_ifs
    · rw [noteFin_buffer, take, if_pos (by rw [hempty]; rfl), establish_buffer]
    · rfl
  · exact acknowledge_buffer s _
  · rfl

end Stream

def Flow.Follows (config : ReassemblyConfig) (f : Flow) : Prop :=
  ∀ pair ∈ f.streams, ∃ ops, pair = StreamPair.after config ops

theorem Flow.Follows.bufferedBytes_le {config : ReassemblyConfig} {f : Flow}
    (h : f.Follows config) :
    f.bufferedBytes ≤ 2 * config.maxStreamBytesPerFlow := by
  unfold Flow.bufferedBytes
  cases hstreams : f.streams with
  | none => exact Nat.zero_le _
  | some pair =>
    obtain ⟨ops, hpair⟩ := h pair hstreams
    have hside (toServer : Bool) :
        (pair.side toServer).bufferedBytes ≤ config.maxStreamBytesPerFlow := by
      obtain ⟨hsound, hsettled⟩ := after_sound config ops toServer
      have hlt := hsettled.bufferedBytes_lt hsound
      rw [(after_limits config ops toServer).1, StreamPair.limitOf] at hlt
      rw [hpair]
      omega
    have hserver : pair.toServer.bufferedBytes ≤ config.maxStreamBytesPerFlow := hside true
    have hclient : pair.toClient.bufferedBytes ≤ config.maxStreamBytesPerFlow := hside false
    change pair.toServer.bufferedBytes + pair.toClient.bufferedBytes ≤ _
    omega

namespace FlowTable

/-- A packet leaves the streams of its flow alone, or pushes its segment to them. -/
theorem updateFlow_streams (flow : Flow) (toServer : Bool) (packet : PacketSummary)
    (policy : IpAddr → OverlapPolicy) :
    (updateFlow flow toServer packet policy).1.streams = flow.streams ∧ packet.tcp = none ∨
      ∃ segment policyToServer policyToClient, packet.tcp = some segment ∧
        (updateFlow flow toServer packet policy).1.streams = flow.streams.map (fun pair =>
          (pair.step ⟨toServer, segment, policyToServer, policyToClient⟩).1) := by
  cases htcp : packet.tcp with
  | none =>
    left
    simp only [updateFlow, htcp]
    exact ⟨rfl, trivial⟩
  | some segment =>
    right
    refine ⟨segment, policy flow.responder.ip, policy flow.initiator.ip, rfl, ?_⟩
    simp only [updateFlow, htcp, pushSegment, countPacket]
    cases flow.streams <;> rfl

theorem updateFlow_follows {config : ReassemblyConfig} {flow : Flow} (h : flow.Follows config)
    (toServer : Bool) (packet : PacketSummary) (policy : IpAddr → OverlapPolicy) :
    (updateFlow flow toServer packet policy).1.Follows config := by
  intro pair hpair
  obtain ⟨hsame, _⟩ | ⟨segment, policyToServer, policyToClient, _, hpush⟩ :=
    updateFlow_streams flow toServer packet policy
  · rw [hsame] at hpair
    exact h pair hpair
  · rw [hpush] at hpair
    obtain ⟨before, hbefore, hstep⟩ := Option.mem_map.1 hpair
    obtain ⟨ops, hops⟩ := h before hbefore
    refine ⟨ops ++ [.push ⟨toServer, segment, policyToServer, policyToClient⟩], ?_⟩
    rw [StreamPair.after_append, ← hops, ← hstep]
    rfl

theorem updateFlow_bufferedBytes_le {config : ReassemblyConfig} {flow : Flow}
    (h : flow.Follows config) (toServer : Bool) (packet : PacketSummary)
    (hempty : ∀ segment ∈ packet.tcp, segment.payload = []) (policy : IpAddr → OverlapPolicy) :
    (updateFlow flow toServer packet policy).1.bufferedBytes ≤ flow.bufferedBytes := by
  unfold Flow.bufferedBytes
  obtain ⟨hsame, _⟩ | ⟨segment, policyToServer, policyToClient, htcp, hpush⟩ :=
    updateFlow_streams flow toServer packet policy
  · rw [hsame]
  · rw [hpush]
    cases hstreams : flow.streams with
    | none => exact le_rfl
    | some pair =>
      obtain ⟨ops, hpair⟩ := h pair hstreams
      have hside (side : Bool) :
          ((pair.step ⟨toServer, segment, policyToServer, policyToClient⟩).1.side
          side).bufferedBytes ≤
            (pair.side side).bufferedBytes := by
        have hsound : (pair.side side).Sound := hpair ▸ (after_sound config ops side).1
        have hkept := (pair.side side).receive_buffer_of_empty side
          (q := ⟨toServer, segment, policyToServer, policyToClient⟩) (hempty segment htcp)
        rw [(step_side pair _ side).1]
        apply (Stream.deliver_bufferedBytes_le (hsound.receive side _).1 false).trans
        rw [Stream.bufferedBytes, hkept]
        rfl
      exact Nat.add_le_add (hside true) (hside false)

structure Follows (config : ReassemblyConfig) (t : FlowTable) : Prop where
  reassembly_eq : t.reassembly = config
  flows : ∀ key flow, t.flows.lookup key = some flow → flow.Follows config

theorem Follows.removeFlow {config : ReassemblyConfig} {t : FlowTable} (h : t.Follows config)
    (reason : EndReason) (key : FlowKey) : (removeFlow reason t key).Follows config := by
  refine ⟨(removeFlow_limits reason t key).2.trans h.reassembly_eq, ?_⟩
  intro other flow hflow
  rw [lookup_removeFlow] at hflow
  split_ifs at hflow
  exact h.flows other flow hflow

theorem total_removeFlow_le (reason : EndReason) (t : FlowTable) (key : FlowKey) :
    total Flow.bufferedBytes (removeFlow reason t key).flows ≤
      total Flow.bufferedBytes t.flows := by
  cases hlookup : t.flows.lookup key with
  | none => rw [removeFlow_none hlookup]
  | some flow =>
    have := total_erase Flow.bufferedBytes t.flows key
    rw [(removeFlow_some hlookup reason).1]
    omega

theorem Follows.entry {config : ReassemblyConfig} {t : FlowTable} (h : t.Follows config)
    (key : FlowKey) (packet : PacketSummary) : (t.entry key packet).2.Follows config := by
  rw [entry_flow]
  cases hlookup : t.flows.lookup key with
  | some flow => exact h.flows key flow hlookup
  | none =>
    intro pair hpair
    change pair ∈ (if packet.protocol = tcpProtocol then some (StreamPair.new t.reassembly)
      else none) at hpair
    split_ifs at hpair
    · refine ⟨[], ?_⟩
      rw [← Option.some.inj hpair, h.reassembly_eq]
      rfl
    · exact absurd hpair (by simp)

/-- Data of a packet comes while the flows beside its own, after the sweep and the eviction that the
packet sets off, are within the byte budget. -/
def RoomBeside (t : FlowTable) : Op → Prop
  | .observe order packet _ => ∀ segment ∈ packet.tcp, segment.payload ≠ [] →
      let key := FlowKey.new packet.protocol packet.source packet.destination
      total Flow.bufferedBytes ((t.prepare order packet key).flows.erase key) ≤
        t.reassembly.maxStreamBytesTotal
  | .sweep _ _ => True
  | .flush _ => True
  | .takeEnded => True

/-- Every flow follows the configuration, and together they hold no more than the bound. -/
structure Below (config : ReassemblyConfig) (bound : ℕ) (t : FlowTable) : Prop where
  follows : t.Follows config
  total_le : total Flow.bufferedBytes t.flows ≤ bound

section Below

variable {config : ReassemblyConfig} {bound : ℕ} {t : FlowTable}

theorem Below.removeFlow (h : Below config bound t) (reason : EndReason) (key : FlowKey) :
    Below config bound (removeFlow reason t key) :=
  ⟨h.follows.removeFlow reason key, (total_removeFlow_le reason t key).trans h.total_le⟩

theorem Below.swept (h : Below config bound t) (now : Instant) :
    Below config bound { t with lastSweep := some now } :=
  ⟨⟨h.follows.reassembly_eq, h.follows.flows⟩, h.total_le⟩

theorem Below.observe (h : Below config bound t)
    (hbound : config.maxStreamBytesTotal + 2 * config.maxStreamBytesPerFlow ≤ bound)
    (order : HashOrder FlowKey) (packet : PacketSummary) (policy : IpAddr → OverlapPolicy)
    (hroom : t.RoomBeside (.observe order packet policy)) :
    Below config bound (t.observe order packet policy).1 := by
  have hready : Below config bound (t.prepare order packet (packetKey packet)) :=
    prepare_invariant (fun reason _ key h => h.removeFlow reason key) (fun _ now h => h.swept now)
      order packet (packetKey packet) h
  have hflow : (t.flowFor order packet).Follows config :=
    hready.follows.entry (packetKey packet) packet
  have hafter : (t.flowAfter order packet policy).Follows config :=
    updateFlow_follows hflow _ packet policy
  apply observe_invariant (fun reason _ key h => h.removeFlow reason key)
  refine ⟨⟨(t.stored_limits order packet policy).2.trans hready.follows.reassembly_eq, ?_⟩, ?_⟩
  · intro other flow hother
    rw [stored_flows] at hother
    by_cases hkey : other = packetKey packet
    · rw [hkey, AList.lookup_insert] at hother
      rw [← Option.some.inj hother]
      exact hafter
    · rw [AList.lookup_insert_ne hkey] at hother
      exact hready.follows.flows other flow hother
  · have hbeside := total_erase Flow.bufferedBytes
      (t.prepare order packet (packetKey packet)).flows (packetKey packet)
    have hall := hready.total_le
    have hown : (t.flowFor order packet).bufferedBytes = measureAt Flow.bufferedBytes
        (t.prepare order packet (packetKey packet)).flows (packetKey packet) :=
      entry_bufferedBytes _ (packetKey packet) packet
    rw [stored_flows, total_insert_eq]
    by_cases hempty : ∀ segment ∈ packet.tcp, segment.payload = []
    · have hquiet : (t.flowAfter order packet policy).bufferedBytes ≤
          (t.flowFor order packet).bufferedBytes :=
        updateFlow_bufferedBytes_le hflow _ packet hempty policy
      omega
    · -- one flow grows beside the others
      obtain ⟨segment, hsegment⟩ := not_forall.1 hempty
      obtain ⟨hmem, hne⟩ := Classical.not_imp.1 hsegment
      have hothers : total Flow.bufferedBytes
          ((t.prepare order packet (packetKey packet)).flows.erase
          (packetKey packet)) ≤ config.maxStreamBytesTotal :=
        h.follows.reassembly_eq ▸ hroom segment hmem hne
      have := hafter.bufferedBytes_le
      omega

theorem Below.step (h : Below config bound t)
    (hbound : config.maxStreamBytesTotal + 2 * config.maxStreamBytesPerFlow ≤ bound) (op : Op)
    (hroom : t.RoomBeside op) : Below config bound (t.step op).1 := by
  cases op with
  | observe order packet policy => exact h.observe hbound order packet policy hroom
  | sweep order now =>
    exact sweep_invariant (fun reason _ key h => h.removeFlow reason key)
      (fun _ now h => h.swept now) order now h
  | flush order =>
    obtain ⟨hflows, _, _, hreassembly⟩ := t.flush_fields order
    refine ⟨⟨hreassembly.trans h.follows.reassembly_eq, ?_⟩, ?_⟩
    · intro key flow hflow
      change (t.flush order).flows.lookup key = some flow at hflow
      rw [hflows, AList.lookup_empty] at hflow
      exact absurd hflow (by simp)
    · change total Flow.bufferedBytes (t.flush order).flows ≤ bound
      rw [hflows, total_empty]
      exact Nat.zero_le _
  | takeEnded => exact ⟨⟨h.follows.reassembly_eq, h.follows.flows⟩, h.total_le⟩

end Below

/-- In every run whose data packets all find the other flows within the budget, the bytes held never
exceed the configured total and one flow. -/
theorem stream_bytes_below_ceiling (limits : Limits) (config : ReassemblyConfig) (ops : List Op)
    (hroom : Runs.Along FlowTable.step RoomBeside (withReassembly limits config) ops) :
    ∀ before after, ops = before ++ after →
      (Runs.run FlowTable.step (withReassembly limits config) before).1.streamBytes ≤
        config.maxStreamBytesTotal + 2 * config.maxStreamBytesPerFlow := by
  intro before after hops
  rw [hops, Runs.along_append] at hroom
  have hexact : (Runs.run FlowTable.step (withReassembly limits config) before).1.Exact :=
    Runs.invariant FlowTable.step Exact (fun t op h => h.step op) ⟨rfl, rfl⟩ before
  have hnew : Below config (config.maxStreamBytesTotal + 2 * config.maxStreamBytesPerFlow)
      (withReassembly limits config) :=
    ⟨⟨rfl, fun _ _ h => absurd h (by simp [withReassembly])⟩, Nat.zero_le _⟩
  have hbelow := Runs.invariant_along FlowTable.step _ RoomBeside
    (fun t op h hroom => Below.step h le_rfl op hroom) hnew hroom.1
  rw [hexact.streamBytes_eq]
  exact hbelow.total_le

/-- A packet of the flow from the given port, with the flags, the sequence number and the data. -/
def samplePacket (port : UInt16) (sequence : UInt32) (flags : UInt8) (payload : List UInt8) : Op :=
  .observe (HashOrder.asStored _) ⟨tcpProtocol, ⟨.v4 1, port⟩, ⟨.v4 2, 80⟩, 0, 60, payload,
    some ⟨sequence, 0, flags, payload⟩⟩ (fun _ => .first)

/-- Four bytes for each direction of a flow, and four for all of them. -/
def tightConfig : ReassemblyConfig :=
  { maxStreamBytesPerFlow := 4, maxStreamBytesTotal := 4, deliveryFlushBytes := 4 }

/-- Two flows, of which only the first one holds data. -/
theorem stream_bytes_below_ceiling_two_flows :
    (Runs.run FlowTable.step (withReassembly {} tightConfig)
      [samplePacket 1000 0 Flags.syn [], samplePacket 1001 0 Flags.syn [],
        samplePacket 1000 2 0 [1, 2, 3]]).1.streamBytes ≤ 12 := by
  apply stream_bytes_below_ceiling {} tightConfig _ _ _ [] (List.append_nil _).symm
  refine ⟨?_, ?_, ?_, trivial⟩
  · intro segment hsegment hne
    decide +kernel
  · intro segment hsegment hne
    decide +kernel
  · intro segment hsegment hne
    decide +kernel

/-- Five flows are opened while nothing is held; then each takes three bytes, and no one looks at
the budget. -/
theorem stream_bytes_above_ceiling :
    ¬ ∀ (limits : Limits) (config : ReassemblyConfig) (ops : List Op),
      (Runs.run FlowTable.step (withReassembly limits config) ops).1.streamBytes ≤
        config.maxStreamBytesTotal + 2 * config.maxStreamBytesPerFlow := by
  intro h
  have hbytes := h {} tightConfig
    [samplePacket 1000 0 Flags.syn [], samplePacket 1001 0 Flags.syn [],
      samplePacket 1002 0 Flags.syn [], samplePacket 1003 0 Flags.syn [],
      samplePacket 1004 0 Flags.syn [], samplePacket 1000 2 0 [1, 2, 3],
      samplePacket 1001 2 0 [1, 2, 3], samplePacket 1002 2 0 [1, 2, 3],
      samplePacket 1003 2 0 [1, 2, 3], samplePacket 1004 2 0 [1, 2, 3]]
  exact absurd hbytes (by decide +kernel)

end FlowTable
end CyberSentinel
