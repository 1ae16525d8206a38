import CyberSentinel.AlertCounts
import CyberSentinel.DefragCounts
import CyberSentinel.FlowAccounts
import CyberSentinel.FlowEnds
import CyberSentinel.SensorTrace

/-!
# What detection has counted

The decoder, the flow table, the defragmenter and the engine each keep counters of their own. Over
any run of detection, packets and findings of the host in any order, they are tied to one another
and to what the run puts out: alerts to calls, flows to their ends, packets to the flows that
counted them.
-/

namespace CyberSentinel

open Tables Detect

variable {R : Regex} {A : AhoCorasick} {T : TextRegex}

namespace PacketPipeline

/-- Every flow that was created is in the table or was reported, and the reasons are counted. -/
theorem ledger_kept :
    KeptByTable (fun reported _ t => ∃ opened, FlowTable.Ledger opened reported t) := by
  refine ⟨?_, ?_, ?_⟩
  · rintro reported all t ⟨opened, h⟩ order packet policy
    exact ⟨_, h.observe order packet policy⟩
  · rintro reported all t ⟨opened, h⟩ order
    exact ⟨opened, h.flush order⟩
  · rintro reported all t ⟨opened, h⟩
    exact ⟨opened, h.drain⟩

def alertTotal (trace : List Event) : ℕ :=
  ((callsOf trace).map (fun c => (Engine.alertsOf c.1 c.2).length)).sum

theorem alertTotal_append (xs ys : List Event) :
    alertTotal (xs ++ ys) = alertTotal xs + alertTotal ys := by
  rw [alertTotal, callsOf_append, List.map_append, List.sum_append]
  rfl

/-- The engine has counted the alerts that its calls are reported with. -/
theorem step_alerts (D : Decoder) (p : PacketPipeline R A) {e : Engine R A} (he : p.engine = some e)
    (op : PipelineOp) :
    ∃ e', (p.step D op).1.engine = some e' ∧
      e'.counters.alerts = e.counters.alerts + alertTotal (p.step D op).2 := by
  obtain ⟨hengine, houtputs⟩ := p.step_drives D op e he
  have hzip (calls : List (Call × Output)) : (calls.map Prod.fst).zip
      (calls.map Prod.snd) = calls := by
    rw [List.zip_map']
    exact List.map_id _
  refine ⟨_, hengine, ?_⟩
  rw [Engine.run_countsAlerts, ← houtputs, hzip]
  rfl

def countDecoded (E : Decode.Etherparse) (c : Decode.DecodeCounters) :
    PipelineOp → Decode.DecodeCounters
  | .packet _ _ _ raw => c.record (Decode.decode E raw.data raw.originalLen)
  | .flush _ => c

theorem length_attributedAll (p : PacketPipeline R A) (packets : List (Walks × PacketSummary)) :
    (p.attributedAll packets).length = packets.length := by
  induction packets generalizing p with
  | nil => rfl
  | cons packet rest ih => rw [attributedAll, List.length_cons, List.length_cons, ih]

/-- A call hands over a packet for each IP packet decoded, and one for each datagram completed. -/
theorem step_handed (E : Decode.Etherparse) (p : PacketPipeline R A) (c : Decode.DecodeCounters)
    (op : PipelineOp) :
    (countDecoded E c op).ipv4 + (countDecoded E c op).ipv6 +
        (p.step (Decode.decoder E) op).1.defrag.counters.completed =
      c.ipv4 + c.ipv6 + p.defrag.counters.completed +
        (p.attributedBy (Decode.decoder E) op).length := by
  rw [step_defrag]
  cases op with
  | flush order => rfl
  | packet walks again sets raw =>
    have hcounted : (countDecoded E c (.packet walks again sets raw)).ipv4 +
        (countDecoded E c (.packet walks again sets raw)).ipv6 = c.ipv4 + c.ipv6 +
          if (Decode.decode E raw.data raw.originalLen).network.isSome then 1 else 0 := by
      simp only [countDecoded, Decode.DecodeCounters.record]
      cases (Decode.decode E raw.data raw.originalLen).network with
      | none => rfl
      | some network =>
        cases network with
        | ipv4 info => exact Nat.add_right_comm _ _ _
        | ipv6 info => rfl
    have hlength : (p.attributedBy (Decode.decoder E) (.packet walks again sets raw)).length =
        min 2 (p.handed (Decode.decoder E) sets (Decode.decode E raw.data raw.originalLen).toDecoded
          raw.timestamp).length := by
      rw [attributedBy, length_attributedAll, List.length_zip]
      rfl
    rw [hcounted, hlength]
    simp only [PipelineOp.defragOp?, handed, Decode.decoder]
    cases hnetwork : (Decode.decode E raw.data raw.originalLen).network with
    | none => rfl
    | some network =>
      cases hfragment : network.isFragment with
      | false =>
        simp only [Option.filter_some, hfragment, Bool.false_eq_true, if_false, Option.map_none,
          Option.elim_none, Option.isSome_some, if_true]
        simp only [List.length_singleton]
        omega
      | true =>
        let answer := p.defrag.push sets
          ((Decode.decode E raw.data raw.originalLen).toDecoded.fragmentView network) raw.timestamp
          (p.policy.forDestination network.destination)
        have hcompleted : answer.1.counters.completed =
            p.defrag.counters.completed + if answer.2.isSome then 1 else 0 :=
          p.defrag.act_completed (.push sets
            ((Decode.decode E raw.data raw.originalLen).toDecoded.fragmentView network)
            raw.timestamp
            (p.policy.forDestination network.destination))
        have hdatagram : (answer.2.map (fun reassembled =>
            reassembled.summary (Decode.decoder E) raw.timestamp)).toList.length =
              if answer.2.isSome then 1 else 0 := by
          cases answer.2 with
          | none => rfl
          | some reassembled => rfl
        simp only [Option.filter_some, hfragment, if_true, Option.map_some, Option.elim_some,
          Option.isSome_some, defragment]
        change c.ipv4 + c.ipv6 + 1 + answer.1.counters.completed =
          c.ipv4 + c.ipv6 + p.defrag.counters.completed + min 2 ((answer.2.map (fun reassembled =>
            reassembled.summary (Decode.decoder E) raw.timestamp)).toList.length + 1)
        rw [hcompleted, hdatagram]
        split_ifs
        · omega
        · omega

end PacketPipeline

namespace Detection

def countDecoded (E : Decode.Etherparse) (c : Decode.DecodeCounters) :
    DetectionOp → Decode.DecodeCounters
  | .traffic op => PacketPipeline.countDecoded E c op
  | .finding _ _ => c

theorem inspectHost_tables (d : Detection R A T) (observation : HostObservation)
    (timestamp : Instant) :
    (d.inspectHost observation timestamp).1.pipeline.flows = d.pipeline.flows ∧
      (d.inspectHost observation timestamp).1.pipeline.defrag = d.pipeline.defrag := by
  unfold inspectHost
  cases d.pipeline.engine with
  | none => exact ⟨rfl, rfl⟩
  | some engine => exact ⟨rfl, rfl⟩

structure Alerted (base : ℕ) (found : List Detected) (d : Detection R A T) : Prop where
  engine : ∃ e, d.pipeline.engine = some e ∧ e.counters.alerts = base +
    PacketPipeline.alertTotal (found.flatMap Detected.trace) +
    (found.flatMap Detected.hostAlerts).length

theorem Alerted.step {base : ℕ} {found : List Detected} {d : Detection R A T}
    (h : Alerted base found d) (D : Decoder) (op : DetectionOp) :
    Alerted base (found ++ [(d.step D op).2]) (d.step D op).1 := by
  obtain ⟨e, he, hcounted⟩ := h.engine
  cases op with
  | traffic op =>
    obtain ⟨e', he', hcounted'⟩ := d.pipeline.step_alerts D he op
    refine ⟨e', he', ?_⟩
    rw [hcounted', hcounted, List.flatMap_append, List.flatMap_append, List.flatMap_singleton,
      List.flatMap_singleton, PacketPipeline.alertTotal_append, List.length_append]
    simp only [Detection.step, List.length_nil]
    omega
  | finding observation timestamp =>
    let inspected := (e.hostPart d.host).inspectHost observation timestamp
    have hinspected : inspected.1.counters.alerts = e.counters.alerts + inspected.2.length :=
      (e.hostPart d.host).inspectHost_countsAlerts observation timestamp
    have hstep : d.inspectHost observation timestamp =
        (⟨{ d.pipeline with engine := some (e.inspectHost d.host observation timestamp).1 },
          (e.inspectHost d.host observation timestamp).2.1⟩, inspected.2) := by
      simp only [inspectHost, he]
      rfl
    simp only [Detection.step, hstep]
    refine ⟨(e.inspectHost d.host observation timestamp).1, rfl, ?_⟩
    refine hinspected.trans ?_
    rw [hcounted, List.flatMap_append, List.flatMap_append, List.flatMap_singleton,
      List.flatMap_singleton, PacketPipeline.alertTotal_append, List.length_append, List.length_map]
    exact Nat.add_assoc _ _ _

/-- What the flows have counted is tied to what was decoded, and their ends to what was put out. -/
structure Accounted (c : Decode.DecodeCounters) (found : List Detected) (d : Detection R A T) :
    Prop where
  ended : d.pipeline.flows.ended = []
  ledger : ∃ opened,
    FlowTable.Ledger opened (endedIn (found.flatMap Detected.trace)) d.pipeline.flows
  counts : ∃ all, PacketPipeline.Counts
      (fun flow => flow.toServer.packets + flow.toClient.packets) (fun _ => 1)
      (endedIn (found.flatMap Detected.trace)) all d.pipeline.flows ∧
    all.length = c.ipv4 + c.ipv6 + d.pipeline.defrag.counters.completed

theorem Accounted.step {E : Decode.Etherparse} {c : Decode.DecodeCounters} {found : List Detected}
    {d : Detection R A T} (h : Accounted c found d) (op : DetectionOp) :
    Accounted (countDecoded E c op) (found ++ [(d.step (Decode.decoder E) op).2])
      (d.step (Decode.decoder E) op).1 := by
  obtain ⟨opened, hledger⟩ := h.ledger
  obtain ⟨all, hcounts, hlength⟩ := h.counts
  have htrace : endedIn ((found ++ [(d.step (Decode.decoder E) op).2]).flatMap Detected.trace) =
      endedIn (found.flatMap Detected.trace) ++ endedIn (d.step (Decode.decoder E) op).2.trace := by
    rw [List.flatMap_append, List.flatMap_singleton, endedIn_append]
  cases op with
  | traffic op =>
    refine ⟨d.pipeline.step_ended (Decode.decoder E) op, ?_, ?_⟩
    · rw [htrace]
      exact @PacketPipeline.KeptByTable.step _ _ _ _ all _ PacketPipeline.ledger_kept
        ⟨opened, hledger⟩ (Decode.decoder E) op
    · rw [htrace]
      refine ⟨all ++ d.pipeline.attributedBy (Decode.decoder E) op,
        (PacketPipeline.counts_kept
        (FlowTable.measures_both DirectionCounters.packets (fun _ => 1) rfl
          fun _ _ => rfl)).step hcounts (Decode.decoder E) op, ?_⟩
      rw [List.length_append, hlength]
      exact (d.pipeline.step_handed E c op).symm
  | finding observation timestamp =>
    obtain ⟨hflows, hdefrag⟩ := d.inspectHost_tables observation timestamp
    have hnone : endedIn (d.step (Decode.decoder E) (.finding observation timestamp)).2.trace =
        [] := rfl
    rw [hnone, List.append_nil] at htrace
    refine ⟨?_, ⟨opened, ?_⟩, all, ?_, ?_⟩
    · exact (congrArg FlowTable.ended hflows).trans h.ended
    · rw [htrace]
      exact hflows.symm ▸ hledger
    · rw [htrace]
      exact hflows.symm ▸ hcounts
    · refine hlength.trans ?_
      simp only [Detection.step, countDecoded, hdefrag]

namespace Accounted

variable {c : Decode.DecodeCounters} {found : List Detected} {d : Detection R A T}

/-- Every flow that was created is in the table or was reported, each with its reason. -/
theorem created (h : Accounted c found d) :
    let reported := endedIn (found.flatMap Detected.trace)
    d.pipeline.flows.counters.created = size d.pipeline.flows.flows + reported.length ∧
      FlowTable.Tallies d.pipeline.flows.counters reported := by
  intro reported
  obtain ⟨opened, hledger⟩ := h.ledger
  have hcreated := hledger.created
  have htallies := hledger.tallies
  rw [h.ended, List.append_nil] at hcreated htallies
  exact ⟨hcreated, htallies⟩

/-- With no flow left open, what the flows have counted is what was decoded and completed. -/
theorem packets (h : Accounted c found d) (hnone : size d.pipeline.flows.flows = 0) :
    ((endedIn (found.flatMap Detected.trace)).map
        (fun e => e.flow.toServer.packets + e.flow.toClient.packets)).sum =
      c.ipv4 + c.ipv6 + d.pipeline.defrag.counters.completed := by
  obtain ⟨all, hcounts, hlength⟩ := h.counts
  have hbalance := hcounts.balance
  have hentries : d.pipeline.flows.flows.entries = [] := by
    rw [size, AList.keys, List.keys, List.length_map] at hnone
    exact List.length_eq_zero_iff.1 hnone
  have hempty : total (fun flow : Flow => flow.toServer.packets + flow.toClient.packets)
      d.pipeline.flows.flows = 0 := by
    rw [total, hentries]
    rfl
  rw [FlowTable.accounted, h.ended, List.map_nil, List.sum_nil, hempty, List.map_const',
    List.sum_replicate, smul_eq_mul, Nat.mul_one, hlength] at hbalance
  exact hbalance

end Accounted

end Detection
end CyberSentinel
