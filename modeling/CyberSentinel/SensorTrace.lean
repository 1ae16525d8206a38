import CyberSentinel.ReportedBlocks

/-!
# What is offered is detection's trace

The sensor takes up packets when it has no work left, reports what they gave piece by piece, and
reports other things in between, while the other threads step. What it offers to the log of the
traffic is nevertheless what detection alone would have put out for the packets and findings taken
up: each alert and each ended flow once, in that order. The findings count, since the host rules
share the engine's thresholds with the network's. Only the action of an alert is decided later.
-/

namespace CyberSentinel

open Tables Detect
open Prevent (AlertAction PreventionSettings Received)

def SensorEvent.ofTraffic (e : SensorEvent) : Option SensorEvent :=
  match e.payload with
  | .alert alert =>
    if alert.source = .network then some
      { e with payload := .alert { alert with action := .alerted } }
    else none
  | .flow _ => some e
  | _ => none

def SensorEvent.isAlertOf (source : AlertSource) (e : SensorEvent) : Bool :=
  match e.payload with
  | .alert alert => alert.source = source
  | _ => false

def Report.ofTraffic : Report → Option SensorEvent
  | .alert flowId tuple timestamp record | .resolved flowId tuple timestamp record _ =>
    some (Sensor.alertEvent flowId tuple timestamp record .alerted)
  | .event said => said.ofTraffic
  | .offer _ _ | .overflow | .finding _ => none

def Event.ofTraffic (options : PipelineOptions) : Event → List SensorEvent
  | .delivered _ _ => []
  | .ended flow => if options.emitFlowEvents then [flow.event] else []
  | .call c output =>
    c.addressed?.elim [] fun addressed => output.alerts.map fun record =>
      Sensor.alertEvent addressed.1 addressed.2.1 addressed.2.2 record .alerted

/-- The work that an event makes says of the traffic what the event is to be reported as. -/
theorem reports_ofTraffic (options : PipelineOptions) (event : Event) :
    (event.reports options).filterMap Report.ofTraffic = event.ofTraffic options := by
  cases event with
  | delivered flowId ready => rfl
  | ended flow =>
    simp only [Event.reports, Event.ofTraffic]
    split_ifs
    · rfl
    · rfl
  | call c output =>
    simp only [Event.reports, alertReports, Event.ofTraffic]
    cases c.addressed? with
    | none => rfl
    | some addressed =>
      have halerts : (output.alerts.map
          (Report.alert addressed.1 addressed.2.1 addressed.2.2)).filterMap Report.ofTraffic =
            output.alerts.map fun record =>
              Sensor.alertEvent addressed.1 addressed.2.1 addressed.2.2 record .alerted := by
        rw [List.filterMap_map, ← List.filterMap_eq_map]
        rfl
      have hoffers : (output.alerts.map (Report.offer addressed.2.2)).filterMap Report.ofTraffic =
          [] := by
        rw [List.filterMap_map, List.filterMap_eq_nil_iff]
        exact fun record _ => rfl
      rw [List.filterMap_append, halerts, hoffers, List.append_nil]
      rfl

theorem flatMap_reports_ofTraffic (options : PipelineOptions) (trace : List Event) :
    (trace.flatMap (Event.reports options)).filterMap Report.ofTraffic =
      trace.flatMap (Event.ofTraffic options) := by
  rw [List.filterMap_flatMap]
  exact List.flatMap_congr fun event _ => reports_ofTraffic options event

/-- What detection is called for: traffic, or a finding of the host. -/
inductive DetectionOp
  | traffic (op : PipelineOp)
  | finding (observation : HostObservation) (timestamp : Instant)

structure Detected where
  trace : List Event := []
  hostAlerts : List (Instant × AlertRecord) := []

def Detected.ofTraffic (options : PipelineOptions) (found : Detected) : List SensorEvent :=
  found.trace.flatMap (Event.ofTraffic options)

def Detected.ofHost (found : Detected) : List SensorEvent :=
  found.hostAlerts.map fun alert => Sensor.hostAlertEvent alert.1 alert.2

variable {R : Regex} {A : AhoCorasick} {T : TextRegex}

def Detection.step (D : Decoder) (d : Detection R A T) : DetectionOp → Detection R A T × Detected
  | .traffic op =>
    let stepped := d.pipeline.step D op
    ({ d with pipeline := stepped.1 }, { trace := stepped.2 })
  | .finding observation timestamp =>
    let inspected := d.inspectHost observation timestamp
    (inspected.1, { hostAlerts := inspected.2.map (timestamp, ·) })

namespace Sensor

/-- The call that a move makes: on the pipeline only when there is no work left. -/
def takes (s : Sensor R A T) : SensorMove → List DetectionOp
  | .packet walks again sets _ raw =>
    if s.pending = [] then [.traffic (.packet walks again sets raw)] else []
  | .flush order => if s.pending = [] then [.traffic (.flush order)] else []
  | .report clocks =>
    match s.pending with
    | .finding finding :: _ => [.finding finding.observation clocks.wall]
    | _ => []
  | .serviceHost _ | .beside _ _ => []

def taken (E : Decode.Etherparse) (s : Sensor R A T) : List SensorMove → List DetectionOp
  | [] => []
  | move :: rest => s.takes move ++ (s.step E move).1.taken E rest

/-- What correlation adds says nothing of the traffic, and raises no alert of the host. -/
theorem correlate_says (s : Sensor R A T) (domain : Correlation.Domain)
    (eventType : Correlation.EventKind) (sid : Option UInt32) (severity : UInt8) (summary : String)
    (timestamp : Instant) :
    let next := s.correlate domain eventType sid severity summary timestamp
    next.1.toDetection = s.toDetection ∧ next.1.options = s.options ∧
      next.2.filterMap SensorEvent.ofTraffic = [] ∧
      next.2.filter (SensorEvent.isAlertOf .host) = [] := by
  simp only [correlate]
  cases s.correlator with
  | none => exact ⟨rfl, rfl, rfl, rfl⟩
  | some correlator =>
    refine ⟨rfl, rfl, ?_, ?_⟩
    · rw [List.filterMap_map, List.filterMap_eq_nil_iff]
      exact fun incident _ => rfl
    · rw [List.filter_map, List.map_eq_nil_iff, List.filter_eq_nil_iff]
      exact fun incident _ => Bool.false_ne_true

theorem reportFinding_says (s : Sensor R A T) (finding : HostFinding) (timestamp : Instant) :
    let next := s.reportFinding finding timestamp
    let inspected := s.toDetection.inspectHost finding.observation timestamp
    next.1.toDetection = inspected.1 ∧ next.1.options = s.options ∧
      next.2.filterMap SensorEvent.ofTraffic = [] ∧
      next.2.filter (SensorEvent.isAlertOf .host) = inspected.2.map (hostAlertEvent timestamp) := by
  intro next inspected
  have halerts : (inspected.2.map (hostAlertEvent timestamp)).filterMap SensorEvent.ofTraffic =
      [] := by
    rw [List.filterMap_map, List.filterMap_eq_nil_iff]
    exact fun record _ => rfl
  have hraised : (inspected.2.map (hostAlertEvent timestamp)).filter (SensorEvent.isAlertOf .host) =
      inspected.2.map (hostAlertEvent timestamp) := by
    rw [List.filter_map]
    exact congrArg _ (List.filter_eq_self.2 fun record _ => rfl)
  have hfinding : ({ timestamp := toTimestamp timestamp, payload := finding.payload } :
      SensorEvent).ofTraffic = none ∧
      ({ timestamp := toTimestamp timestamp, payload := finding.payload } :
        SensorEvent).isAlertOf .host = false := by
    cases finding with
    | fim event => exact ⟨rfl, rfl⟩
    | auth event => exact ⟨rfl, rfl⟩
    | process event => exact ⟨rfl, rfl⟩
  let counted : Sensor R A T := { s with
    toDetection := inspected.1
    hostAlerts := s.hostAlerts + inspected.2.length }
  let evidence := hostEvidence finding inspected.2
  obtain ⟨hdetection, hoptions, hincidents, hsilent⟩ := counted.correlate_says .host
    finding.payload.kind evidence.1 evidence.2.1 evidence.2.2 timestamp
  refine ⟨hdetection, hoptions, ?_, ?_⟩
  · simp only [next, reportFinding]
    rw [List.filterMap_append, List.filterMap_append, halerts, hincidents,
      List.filterMap_cons_none hfinding.1]
    rfl
  · simp only [next, reportFinding]
    rw [List.filter_append, List.filter_append, hraised, hsilent,
      List.filter_cons_of_neg (by simp [hfinding.2]), List.filter_nil, List.append_nil,
      List.append_nil]

/-- What a step offers, with the work that it leaves, is the work there was before with what
detection was called for. -/
def Tells (D : Decoder) (s : Sensor R A T) (ops : List DetectionOp)
    (next : Sensor R A T × List SensorEvent) : Prop :=
  let called := Runs.run (Detection.step D) s.toDetection ops
  next.1.toDetection = called.1 ∧ next.1.options = s.options ∧
    next.2.filterMap SensorEvent.ofTraffic ++ next.1.pending.filterMap Report.ofTraffic =
      s.pending.filterMap Report.ofTraffic ++ called.2.flatMap (Detected.ofTraffic s.options) ∧
    next.2.filter (SensorEvent.isAlertOf .host) = called.2.flatMap Detected.ofHost

/-- The sensor takes traffic up when it has no work left, and offers nothing yet. -/
theorem tells_call {D : Decoder} {s s' : Sensor R A T} {op : PipelineOp} (hpending : s.pending = [])
    (hdetection : s'.toDetection = { s.toDetection with pipeline := (s.pipeline.step D op).1 })
    (hoptions : s'.options = s.options)
    (hwork : s'.pending.filterMap Report.ofTraffic =
      (s.pipeline.step D op).2.flatMap (Event.ofTraffic s.options)) :
    Tells D s [.traffic op] (s', []) := by
  refine ⟨hdetection, hoptions, ?_, rfl⟩
  rw [hpending, Runs.run_cons, Runs.run_nil, List.flatMap_singleton]
  exact hwork

/-- Without a call, what is offered is what there was to say before. -/
theorem tells_nothing {D : Decoder} {s s' : Sensor R A T} {events : List SensorEvent}
    (hdetection : s'.toDetection = s.toDetection) (hoptions : s'.options = s.options)
    (hwork : events.filterMap SensorEvent.ofTraffic ++ s'.pending.filterMap Report.ofTraffic =
      s.pending.filterMap Report.ofTraffic)
    (hhost : events.filter (SensorEvent.isAlertOf .host) = []) : Tells D s [] (s', events) :=
  ⟨hdetection, hoptions, hwork.trans (List.append_nil _).symm, hhost⟩

/-- Taking up a packet is the pipeline's call, and what it puts out becomes work. -/
theorem onPacket_ofTraffic (E : Decode.Etherparse) (s : Sensor R A T) (walks again : Walks)
    (sets : HashOrder FragmentKey) (interface : String) (packet : RawPacket) :
    (s.onPacket E walks again sets interface packet).pending.filterMap Report.ofTraffic =
      (s.pipeline.step (Decode.decoder E) (.packet walks again sets packet)).2.flatMap
        (Event.ofTraffic s.options) := by
  have hanomaly (emits : Bool) (event : AnomalyEvent) (timestamp : Instant)
      (flowId : Option UInt64) (net : Option NetTuple) :
      (if emits then [Report.event ⟨timestamp, flowId, net, .anomaly event⟩] else
        ([] : List Report)).filterMap Report.ofTraffic = [] := by
    split_ifs
    · rfl
    · rfl
  simp only [onPacket, List.filterMap_append, flatMap_reports_ofTraffic]
  rw [PacketPipeline.step, PacketPipeline.onPacket, List.flatMap_append]
  refine congrArg (· ++ _) ((congrArg (_ ++ ·) ?_).trans (List.append_nil _))
  exact hanomaly _ _ _ _ _

/-- One piece of work says of the traffic what it was going to say. -/
theorem work_tells {D : Decoder} {s : Sensor R A T} (hplain : PlainEvents s.pending)
    {report : Report}
    {rest : List Report} (hpending : s.pending = report :: rest) (clocks : Clocks) :
    Tells D s (s.takes (.report clocks)) (work { s with pending := rest } clocks report) := by
  have hleft := congrArg (List.filterMap Report.ofTraffic)
    (work_pending { s with pending := rest } clocks report)
  cases report with
  | alert flowId tuple timestamp record =>
    rw [takes, hpending]
    obtain ⟨hdetection, hoptions, -⟩ :=
      enforce_aside { s with pending := rest } record.blocks tuple clocks.now
    refine tells_nothing hdetection hoptions (hleft.trans ?_) rfl
    rw [hpending]
    rfl
  | resolved flowId tuple timestamp record action =>
    rw [takes, hpending]
    refine tells_nothing rfl rfl ?_ rfl
    rw [hpending]
    rfl
  | offer timestamp record =>
    rw [takes, hpending]
    obtain ⟨hdetection, hoptions, hsaid, hhost⟩ :=
      correlate_says { s with pending := rest } .network
      .alert (some record.sid) record.severity record.signature timestamp
    refine tells_nothing hdetection hoptions ?_ hhost
    rw [hpending]
    exact congrArg₂ (· ++ ·) hsaid hleft
  | event event =>
    rw [takes, hpending]
    refine tells_nothing rfl rfl ?_ ?_
    · rw [hpending]
      have hreport : (Report.event event).ofTraffic = event.ofTraffic := rfl
      cases hevent : event.ofTraffic with
      | none =>
        rw [List.filterMap_cons_none hevent, List.filterMap_cons_none (hreport.trans hevent)]
        rfl
      | some said =>
        rw [List.filterMap_cons_some hevent, List.filterMap_cons_some (hreport.trans hevent)]
        rfl
    · have hkind := hplain event (hpending ▸ List.mem_cons_self)
      obtain ⟨timestamp, flowId, net, payload⟩ := event
      cases payload with
      | flow _ | anomaly _ => rfl
      | alert _ | fim _ | auth _ | process _ | incident _ => simp [Payload.kind] at hkind
  | overflow =>
    rw [takes, hpending]
    refine tells_nothing rfl rfl ?_ rfl
    rw [hpending]
    rfl
  | finding finding =>
    obtain ⟨hdetection, hoptions, hsaid, hhost⟩ :=
      reportFinding_says { s with pending := rest } finding clocks.wall
    rw [takes, hpending]
    refine ⟨hdetection, hoptions, ?_, ?_⟩
    · rw [hpending]
      exact (congrArg₂ (· ++ ·) hsaid hleft).trans (List.append_nil _).symm
    · rw [Runs.run_cons, Runs.run_nil, List.flatMap_singleton]
      refine hhost.trans ?_
      simp only [Detected.ofHost, Detection.step, List.map_map]
      rfl

theorem step_tells (E : Decode.Etherparse) {s : Sensor R A T} (hplain : PlainEvents s.pending)
    (move : SensorMove) : Tells (Decode.decoder E) s (s.takes move) (s.step E move) := by
  cases move with
  | packet walks again sets interface raw =>
    rw [takes, step]
    split_ifs with hpending
    · exact tells_call hpending rfl rfl (s.onPacket_ofTraffic E walks again sets interface raw)
    · exact tells_nothing rfl rfl rfl rfl
  | flush order =>
    rw [takes, step]
    split_ifs with hpending
    · exact tells_call hpending rfl rfl (flatMap_reports_ofTraffic s.options _)
    · exact tells_nothing rfl rfl rfl rfl
  | serviceHost batch =>
    rw [takes, step]
    split_ifs with hpending
    · refine tells_nothing rfl rfl ?_ rfl
      have hhost : (s.serviceHost batch).pending.filterMap Report.ofTraffic = [] := by
        rw [List.filterMap_eq_nil_iff]
        intro report hreport
        rcases List.mem_append.1 hreport with hreport | hreport
        · obtain ⟨-, rfl⟩ := List.mem_replicate.1 hreport
          rfl
        · obtain ⟨finding, -, rfl⟩ := List.mem_map.1 hreport
          rfl
      rw [hpending, hhost]
      rfl
    · exact tells_nothing rfl rfl rfl rfl
  | report clocks =>
    cases hpending : s.pending with
    | nil =>
      have hstep : s.step E (.report clocks) = (s, []) := by simp only [step, hpending]
      have htakes : s.takes (.report clocks) = [] := by simp only [takes, hpending]
      rw [hstep, htakes]
      exact tells_nothing rfl rfl rfl rfl
    | cons report rest =>
      have hstep : s.step E (.report clocks) = work { s with pending := rest } clocks report := by
        simp only [step, hpending]
      rw [hstep]
      exact work_tells hplain hpending clocks
  | beside move hmove => exact tells_nothing rfl rfl rfl rfl

theorem run_tells (E : Decode.Etherparse) {s : Sensor R A T} (hplain : PlainEvents s.pending)
    (moves : List SensorMove) :
    Tells (Decode.decoder E) s (s.taken E moves)
      ((Runs.run (step E) s moves).1, (Runs.run (step E) s moves).2.flatten) := by
  induction moves generalizing s with
  | nil => exact tells_nothing rfl rfl rfl rfl
  | cons move rest ih =>
    obtain ⟨hdetection, hoptions, hsaid, hhost⟩ := step_tells E hplain move
    obtain ⟨hdetection', hoptions', hsaid', hhost'⟩ := ih (step_plain E hplain move)
    rw [hdetection] at hdetection' hsaid' hhost'
    rw [hoptions] at hsaid'
    rw [taken, Tells, Runs.run_append, Runs.run_cons, List.flatten_cons, List.filterMap_append,
      List.filter_append, List.flatMap_append, List.flatMap_append]
    refine ⟨hdetection', hoptions'.trans hoptions, ?_, congrArg₂ (· ++ ·) hhost hhost'⟩
    rw [List.append_assoc, hsaid', ← List.append_assoc, hsaid, List.append_assoc]

/-- However captures, host findings, correlation, verdicts and reports interleave: what is offered
to the log of the traffic, with what is still to be reported, is what detection alone puts out for
the packets and findings that were taken up, each alert and each ended flow once and in order, with
its flow, addresses and time; and so are the alerts of the host. -/
theorem offered_eq_trace (E : Decode.Etherparse) (name : String) (options : PipelineOptions)
    (detection : Detection R A T) (correlation : Option Correlation.CorrelationSettings)
    (prevention : Option (PreventionSettings × List Received)) (moves : List SensorMove) :
    let s := start name options detection correlation prevention
    let run := Runs.run (step E) s moves
    let called := Runs.run (Detection.step (Decode.decoder E)) detection (s.taken E moves)
    run.1.toDetection = called.1 ∧
      run.2.flatten.filterMap SensorEvent.ofTraffic ++ run.1.pending.filterMap Report.ofTraffic =
        called.2.flatMap (Detected.ofTraffic options) ∧
      run.2.flatten.filter (SensorEvent.isAlertOf .host) = called.2.flatMap Detected.ofHost := by
  intro s run called
  obtain ⟨hdetection, -, hsaid, hhost⟩ :=
    run_tells E (s := s) (fun event hevent => absurd hevent List.not_mem_nil) moves
  exact ⟨hdetection, hsaid, hhost⟩

end Sensor
end CyberSentinel
