import CyberSentinel.FlowTable
import CyberSentinel.Runs

/-!
# The running byte total is exact

The flow table never adds up its buffers: it moves a running total by what each packet changed and
takes off what a leaving flow held. Each way a flow can leave, by a close, a sweep, an eviction or
the final flush, keeps the total equal to the bytes held by the live flows, and no subtraction is
ever cut short at zero.
-/

namespace CyberSentinel

open Tables

namespace FlowTable

section Removals

variable {P : FlowTable → Prop} (hremove : ∀ reason t key, P t → P (removeFlow reason t key))
include hremove

theorem removeFlows_invariant (reason : EndReason) (keys : List FlowKey) {t : FlowTable} (h : P t) :
    P (keys.foldl (removeFlow reason) t) := by
  induction keys generalizing t with
  | nil => exact h
  | cons key rest ih => exact ih (hremove reason t key h)

variable (hswept : ∀ t now, P t → P { t with lastSweep := some now })
include hswept

theorem sweep_invariant (order : HashOrder FlowKey) (now : Instant) {t : FlowTable} (h : P t) :
    P (t.sweep order now) :=
  removeFlows_invariant hremove .timedOut _ (hswept t now h)

theorem maybeSweep_invariant (order : HashOrder FlowKey) (now : Instant) {t : FlowTable} (h : P t) :
    P (t.maybeSweep order now) := by
  simp only [maybeSweep]
  split_ifs
  · exact sweep_invariant hremove hswept order now h
  · exact h

theorem makeRoom_invariant (order : HashOrder FlowKey) (now : Instant) {t : FlowTable} (h : P t) :
    P (t.makeRoom order now) := by
  have hsweep := sweep_invariant hremove hswept order now h
  simp only [makeRoom]
  split_ifs
  · exact h
  · exact hsweep
  · exact removeFlows_invariant hremove .evicted _ hsweep

/-- What a sweep and every single removal keep holds of the table a packet finds. -/
theorem prepare_invariant (order : HashOrder FlowKey) (packet : PacketSummary) (key : FlowKey)
    {t : FlowTable} (h : P t) : P (t.prepare order packet key) := by
  have hmaybe := maybeSweep_invariant hremove hswept order packet.timestamp h
  simp only [prepare]
  split_ifs
  · exact makeRoom_invariant hremove hswept order packet.timestamp hmaybe
  · exact hmaybe

end Removals

/-- The running total is the bytes held by the live flows, and no subtraction fell short. -/
structure Exact (t : FlowTable) : Prop where
  streamBytes_eq : t.streamBytes = total Flow.bufferedBytes t.flows
  lostBytes_eq : t.lostBytes = false

@[simp] theorem endFlow_flows (t : FlowTable) (flow : Flow) (reason : EndReason) :
    (t.endFlow flow reason).flows = t.flows := rfl

theorem endFlow_streamBytes (t : FlowTable) (flow : Flow) (reason : EndReason) :
    (t.endFlow flow reason).streamBytes = t.streamBytes - flow.bufferedBytes := rfl

theorem endFlow_lostBytes (t : FlowTable) (flow : Flow) (reason : EndReason) :
    (t.endFlow flow reason).lostBytes =
      (t.lostBytes || decide (t.streamBytes < flow.bufferedBytes)) := rfl

theorem Exact.removeFlow {t : FlowTable} (h : t.Exact) (reason : EndReason) (key : FlowKey) :
    (removeFlow reason t key).Exact := by
  unfold FlowTable.removeFlow
  cases hlookup : t.flows.lookup key with
  | none => exact h
  | some flow =>
    have herase := total_erase Flow.bufferedBytes t.flows key
    have hat : measureAt Flow.bufferedBytes t.flows key = flow.bufferedBytes := by
      simp [measureAt, hlookup]
    have htotal := h.streamBytes_eq
    constructor
    · rw [endFlow_streamBytes, endFlow_flows]
      change t.streamBytes - flow.bufferedBytes = total Flow.bufferedBytes (t.flows.erase key)
      omega
    · rw [endFlow_lostBytes]
      change (t.lostBytes || decide (t.streamBytes < flow.bufferedBytes)) = false
      simp only [h.lostBytes_eq, Bool.false_or, decide_eq_false_iff_not]
      omega

theorem Exact.sweep {t : FlowTable} (h : t.Exact) (order : HashOrder FlowKey) (now : Instant) :
    (t.sweep order now).Exact :=
  sweep_invariant (fun reason _ key h => h.removeFlow reason key)
    (fun _ _ h => ⟨h.streamBytes_eq, h.lostBytes_eq⟩) order now h

theorem Exact.prepare {t : FlowTable} (h : t.Exact) (order : HashOrder FlowKey)
    (packet : PacketSummary) (key : FlowKey) : (t.prepare order packet key).Exact :=
  prepare_invariant (fun reason _ key h => h.removeFlow reason key)
    (fun _ _ h => ⟨h.streamBytes_eq, h.lostBytes_eq⟩) order packet key h

theorem bufferedBytes_new (config : ReassemblyConfig) :
    (StreamPair.new config).bufferedBytes = 0 := rfl

theorem entry_flows (t : FlowTable) (key : FlowKey) (packet : PacketSummary) :
    (t.entry key packet).1.flows = t.flows := by
  unfold entry
  cases t.flows.lookup key <;> rfl

theorem Exact.entry {t : FlowTable} (h : t.Exact) (key : FlowKey) (packet : PacketSummary) :
    (t.entry key packet).1.Exact := by
  unfold FlowTable.entry
  cases t.flows.lookup key with
  | none => exact ⟨h.streamBytes_eq, h.lostBytes_eq⟩
  | some flow => exact h

/-- A new flow holds nothing, so an entry always holds what the table has at its key. -/
theorem entry_bufferedBytes (t : FlowTable) (key : FlowKey) (packet : PacketSummary) :
    (t.entry key packet).2.bufferedBytes = measureAt Flow.bufferedBytes t.flows key := by
  unfold entry measureAt
  cases t.flows.lookup key with
  | none =>
    simp only [newFlow, Flow.bufferedBytes, Option.elim_none]
    split_ifs
    · exact bufferedBytes_new t.reassembly
    · rfl
  | some flow => rfl

theorem Exact.record {t : FlowTable} (h : t.Exact) {key : FlowKey} {flow : Flow} (flow' : Flow)
    (ignored : Bool) (hflow : flow.bufferedBytes = measureAt Flow.bufferedBytes t.flows key) :
    (t.record key flow flow' ignored).Exact := by
  have hinsert := total_insert Flow.bufferedBytes t.flows key flow'
  have hle := measureAt_le_total Flow.bufferedBytes t.flows key
  have htotal := h.streamBytes_eq
  simp only [FlowTable.record, adjustBytes]
  have hstored : ∀ counters : FlowCounters, ({ t with
      counters := counters
      streamBytes := t.streamBytes + flow'.bufferedBytes - flow.bufferedBytes
      lostBytes := t.lostBytes || decide (t.streamBytes + flow'.bufferedBytes < flow.bufferedBytes)
      flows := t.flows.insert key flow' } : FlowTable).Exact := by
    intro counters
    constructor
    · change t.streamBytes + flow'.bufferedBytes - flow.bufferedBytes =
        total Flow.bufferedBytes (t.flows.insert key flow')
      omega
    · simp only [h.lostBytes_eq, Bool.false_or, decide_eq_false_iff_not]
      omega
  by_cases hclosed : flow'.isClosed = true
  · rw [if_pos hclosed]
    exact (hstored _).removeFlow .closed key
  · rw [if_neg hclosed]
    exact hstored _

theorem Exact.observe {t : FlowTable} (h : t.Exact) (order : HashOrder FlowKey)
    (packet : PacketSummary) (policy : IpAddr → OverlapPolicy) :
    (t.observe order packet policy).1.Exact := by
  simp only [FlowTable.observe]
  apply ((h.prepare order packet _).entry _ packet).record
  rw [entry_flows]
  exact entry_bufferedBytes _ _ packet

/-- Ending flows one after the other takes off what they hold together. -/
theorem foldl_endFlow_streamBytes (flows : List Flow) (reason : EndReason) (t : FlowTable)
    (h : t.streamBytes = (flows.map Flow.bufferedBytes).sum) (hlost : t.lostBytes = false) :
    (flows.foldl (fun t flow => t.endFlow flow reason) t).streamBytes = 0 ∧
      (flows.foldl (fun t flow => t.endFlow flow reason) t).lostBytes = false ∧
      (flows.foldl (fun t flow => t.endFlow flow reason) t).flows = t.flows := by
  induction flows generalizing t with
  | nil => exact ⟨h, hlost, rfl⟩
  | cons flow rest ih =>
    rw [List.map_cons, List.sum_cons] at h
    have hrest := ih (t.endFlow flow reason)
      (by rw [endFlow_streamBytes]; omega)
      (by
        rw [endFlow_lostBytes, hlost, Bool.false_or, decide_eq_false_iff_not]
        omega)
    rw [endFlow_flows] at hrest
    exact hrest

theorem Exact.flush {t : FlowTable} (h : t.Exact) (order : HashOrder FlowKey) :
    (t.flush order).Exact := by
  have hsum : t.streamBytes = (((iter order t.flows).map Prod.snd).map Flow.bufferedBytes).sum := by
    rw [List.map_map, h.streamBytes_eq]
    exact (sum_iter order Flow.bufferedBytes t.flows).symm
  obtain ⟨hbytes, hlost, hflows⟩ := foldl_endFlow_streamBytes ((iter order t.flows).map Prod.snd)
    .sensorStopped { t with flows := ∅ } hsum h.lostBytes_eq
  constructor
  · rw [show (t.flush order).flows = ∅ from hflows, total_empty]
    exact hbytes
  · exact hlost

inductive Op
  | observe (order : HashOrder FlowKey) (packet : PacketSummary) (policy : IpAddr → OverlapPolicy)
  | sweep (order : HashOrder FlowKey) (now : Instant)
  | flush (order : HashOrder FlowKey)
  | takeEnded

/-- A call and what it hands back: the bytes made deliverable by a packet, or the flows that ended.
-/
def step (t : FlowTable) : Op → FlowTable × StreamReady × List EndedFlow
  | .observe order packet policy =>
    let (t, _, ready) := t.observe order packet policy
    (t, ready, [])
  | .sweep order now => (t.sweep order now, {}, [])
  | .flush order => (t.flush order, {}, [])
  | .takeEnded => ({ t with ended := [] }, {}, t.ended)

theorem Exact.step {t : FlowTable} (h : t.Exact) (op : Op) : (t.step op).1.Exact := by
  cases op with
  | observe order packet policy => exact h.observe order packet policy
  | sweep order now => exact h.sweep order now
  | flush order => exact h.flush order
  | takeEnded => exact ⟨h.streamBytes_eq, h.lostBytes_eq⟩

/-- After any calls, the running total is the number of bytes buffered in both directions of all
live flows, no subtraction from it has ever fallen short, and it is zero when the table is empty. -/
theorem streamBytes_exact (limits : Limits) (reassembly : ReassemblyConfig) (ops : List Op) :
    let t := (Runs.run FlowTable.step (withReassembly limits reassembly) ops).1
    t.streamBytes = (t.flows.entries.map (fun e => e.2.streams.elim 0 (fun pair =>
        pair.toServer.bufferedBytes + pair.toClient.bufferedBytes))).sum ∧
      t.lostBytes = false ∧ (t.flows = ∅ → t.streamBytes = 0) := by
  have hexact : (Runs.run FlowTable.step (withReassembly limits reassembly) ops).1.Exact :=
    Runs.invariant FlowTable.step Exact (fun t op h => h.step op) ⟨rfl, rfl⟩ ops
  refine ⟨hexact.streamBytes_eq, hexact.lostBytes_eq, ?_⟩
  intro hempty
  rw [hexact.streamBytes_eq, hempty, total_empty]

end FlowTable
end CyberSentinel
