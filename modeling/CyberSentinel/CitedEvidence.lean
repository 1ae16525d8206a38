import CyberSentinel.Incidents
import CyberSentinel.ReportedBlocks

/-!
# What an incident cites was reported

An incident names the events that were joined in it. Correlation is only ever given what the sensor
reports in its own right: a network alert after its event, a finding of the host in the step that
reports it. So every piece of evidence that an incident cites is among the events that the sensor
has offered to the log, from both halves of it.
-/

namespace CyberSentinel

open Tables Detect
open Correlation (Correlator IncidentContributor IncidentEvent Observation)
open Prevent (AlertAction PreventionSettings Received)

/-- The event is what an incident's contributor refers to: an alert with its identifier and message,
of the half it is from, or a finding that nothing matched. -/
def SensorEvent.Cited (e : SensorEvent) (c : IncidentContributor) : Prop :=
  e.timestamp = c.timestamp ∧
    ((∃ alert, e.payload = .alert alert ∧ c.sid = some alert.sid ∧ c.summary = alert.signature ∧
        (c.eventType = .alert ↔ alert.source = .network)) ∨
      ∃ finding : HostFinding, e.payload = finding.payload ∧ c.sid = none ∧
        c.summary = finding.summary ∧ c.eventType = finding.payload.kind)

/-- An observation of the half that its kind belongs to, of something that was reported. -/
structure Attested (log : List SensorEvent) (o : Observation) : Prop where
  domain : o.domain = .network ↔ o.eventType = .alert
  cited : ∃ e ∈ log, e.Cited o.contributor

theorem Attested.mono {log log' : List SensorEvent} (h : ∀ e ∈ log, e ∈ log') {o : Observation}
    (ho : Attested log o) : Attested log' o :=
  ⟨ho.domain, ho.cited.imp fun e he => ⟨h e he.1, he.2⟩⟩

/-- All that an incident cites was reported, and it joins a network alert with a finding of the
host. -/
structure Grounded (log : List SensorEvent) (incident : IncidentEvent) : Prop where
  cited : ∀ c ∈ incident.contributors, ∃ e ∈ log, e.Cited c
  network : ∃ c ∈ incident.contributors, c.eventType = .alert
  host : ∃ c ∈ incident.contributors, c.eventType ≠ .alert

theorem Grounded.mono {log log' : List SensorEvent} (h : ∀ e ∈ log, e ∈ log')
    {incident : IncidentEvent} (hi : Grounded log incident) : Grounded log' incident :=
  ⟨fun c hc => (hi.cited c hc).imp fun e he => ⟨h e he.1, he.2⟩, hi.network, hi.host⟩

namespace Correlation.Correlator

variable {c : Correlator} {o : Observation}

/-- An observation of any host that is retained after another one was retained before, or is that.
-/
theorem mem_window_observe {host : String} {x : Observation}
    (h : x ∈ ((c.observe o).1.windows.lookup host).getD []) :
    x = o ∨ x ∈ (c.windows.lookup host).getD [] := by
  cases hlookup : (c.observe o).1.windows.lookup host with
  | none => simp [hlookup] at h
  | some window =>
    rw [hlookup, Option.getD_some] at h
    rcases lookup_observe hlookup with ⟨rfl, rfl⟩ | rfl
    · exact (mem_retained h).imp_right And.left
    · exact Or.inr (List.mem_of_mem_filter h)

/-- An incident is made of what its host's window retains, the newest observation included, and of
the other half as well. -/
theorem contributors_observe {incident : IncidentEvent} (h : (c.observe o).2 = some incident) :
    incident.contributors = (inOrder (c.retained o)).map Observation.contributor ∧
      ∃ other ∈ c.retained o, other.domain = o.domain.opposite := by
  obtain ⟨spanned, hincident, hcontributors, -⟩ :=
    incidentOf_spec (List.ne_nil_of_mem (mem_retained_self (c := c) o))
  obtain ⟨-, ⟨-, hnone, -⟩ | ⟨-, -, ⟨-, hnone, -⟩ | ⟨⟨-, hpaired⟩, hsome, -⟩⟩⟩ := c.observe_cases o
  · exact absurd (h.symm.trans hnone) (by simp)
  · exact absurd (h.symm.trans hnone) (by simp)
  · obtain rfl : incident = spanned := Option.some.inj (h.symm.trans (hsome.trans hincident))
    rw [paired, List.any_eq_true] at hpaired
    obtain ⟨other, hother, hopposite⟩ := hpaired
    exact ⟨hcontributors, other, hother, of_decide_eq_true hopposite⟩

/-- An incident raised over observations that were all reported is grounded in the reports. -/
theorem grounded_observe {log : List SensorEvent}
    (hretained : ∀ host, ∀ x ∈ (c.windows.lookup host).getD [], Attested log x)
    (ho : Attested log o)
    {incident : IncidentEvent} (h : (c.observe o).2 = some incident) : Grounded log incident := by
  obtain ⟨hcontributors, other, hother, hopposite⟩ := contributors_observe h
  have hattested : ∀ x ∈ c.retained o, Attested log x := by
    intro x hx
    rcases mem_retained hx with rfl | ⟨hold, -⟩
    · exact ho
    · exact hretained o.host x hold
  have hmem {x : Observation} (hx : x ∈ c.retained o) : x.contributor ∈ incident.contributors :=
    hcontributors ▸ List.mem_map_of_mem (mem_inOrder.2 hx)
  have hself := mem_retained_self (c := c) o
  refine ⟨?_, ?_, ?_⟩
  · intro cited hcited
    rw [hcontributors] at hcited
    obtain ⟨x, hx, rfl⟩ := List.mem_map.1 hcited
    exact (hattested x (mem_inOrder.1 hx)).cited
  · obtain ⟨x, hx, hdomain⟩ := exists_domain hself hother hopposite .network
    exact ⟨x.contributor, hmem hx, (hattested x hx).domain.1 hdomain⟩
  · obtain ⟨x, hx, hdomain⟩ := exists_domain hself hother hopposite .host
    refine ⟨x.contributor, hmem hx, fun halert => ?_⟩
    rw [(hattested x hx).domain.2 halert] at hdomain
    exact absurd hdomain (by simp)

end Correlation.Correlator

/-- Every network alert that is still to be offered to correlation has been reported before. -/
def OffersBacked (told : Instant → AlertRecord → Prop) : List Report → Prop
  | [] => True
  | .offer timestamp record :: rest => told timestamp record ∧ OffersBacked told rest
  | .alert _ _ timestamp record :: rest | .resolved _ _ timestamp record _ :: rest =>
    OffersBacked (fun t r => told t r ∨ (t = timestamp ∧ r = record)) rest
  | .event _ :: rest => OffersBacked told rest
  | .overflow :: rest => OffersBacked told rest
  | .finding _ :: rest => OffersBacked told rest

theorem OffersBacked.mono {told told' : Instant → AlertRecord → Prop} {reports : List Report}
    (h : OffersBacked told reports) (hle : ∀ t r, told t r → told' t r) :
    OffersBacked told' reports := by
  induction reports generalizing told told' with
  | nil => trivial
  | cons report rest ih =>
    cases report with
    | offer timestamp record => exact ⟨hle _ _ h.1, ih h.2 hle⟩
    | alert _ _ timestamp record | resolved _ _ timestamp record _ =>
      exact ih h fun t r => Or.imp_left (hle t r)
    | event event => exact ih h hle
    | overflow => exact ih h hle
    | finding finding => exact ih h hle

theorem OffersBacked.append {told : Instant → AlertRecord → Prop} {xs ys : List Report}
    (hxs : OffersBacked told xs) (hys : OffersBacked told ys) : OffersBacked told (xs ++ ys) := by
  induction xs generalizing told with
  | nil => exact hys
  | cons report rest ih =>
    cases report with
    | offer timestamp record => exact ⟨hxs.1, ih hxs.2 hys⟩
    | alert _ _ _ _ | resolved _ _ _ _ _ => exact ih hxs (hys.mono fun _ _ => Or.inl)
    | event event => exact ih hxs hys
    | overflow => exact ih hxs hys
    | finding finding => exact ih hxs hys

theorem offersBacked_alerts {told : Instant → AlertRecord → Prop} (flowId : UInt64)
    (tuple : NetTuple)
    (timestamp : Instant) {alerts offers : List AlertRecord}
    (h : ∀ record ∈ offers, told timestamp record ∨ record ∈ alerts) :
    OffersBacked told (alerts.map (.alert flowId tuple timestamp) ++
      offers.map (.offer timestamp)) := by
  induction alerts generalizing told with
  | nil =>
    induction offers with
    | nil => trivial
    | cons record rest ih =>
      refine ⟨(h record List.mem_cons_self).resolve_right List.not_mem_nil, ih ?_⟩
      exact fun other hother => h other (List.mem_cons_of_mem _ hother)
  | cons alert rest ih =>
    refine ih fun record hrecord => ?_
    rcases h record hrecord with htold | hmem
    · exact Or.inl (Or.inl htold)
    · rcases List.mem_cons.1 hmem with rfl | hrest
      · exact Or.inl (Or.inr ⟨rfl, rfl⟩)
      · exact Or.inr hrest

theorem offersBacked_reports (told : Instant → AlertRecord → Prop) (options : PipelineOptions)
    (trace : List Event) : OffersBacked told (trace.flatMap (Event.reports options)) := by
  induction trace with
  | nil => trivial
  | cons traced rest ih =>
    rw [List.flatMap_cons]
    refine OffersBacked.append ?_ ih
    cases traced with
    | delivered flowId ready => trivial
    | ended flow =>
      simp only [Event.reports]
      split_ifs <;> trivial
    | call c output =>
      simp only [Event.reports, alertReports]
      cases c.addressed? with
      | none => trivial
      | some addressed => exact offersBacked_alerts _ _ _ fun record hrecord => Or.inr hrecord

theorem offersBacked_of_no_offers {told : Instant → AlertRecord → Prop} {reports : List Report}
    (h : ∀ timestamp record, Report.offer timestamp record ∉ reports) :
    OffersBacked told reports := by
  induction reports generalizing told with
  | nil => trivial
  | cons report rest ih =>
    have hrest : ∀ timestamp record, Report.offer timestamp record ∉ rest :=
      fun timestamp record hmem =>
      h timestamp record (List.mem_cons_of_mem _ hmem)
    cases report with
    | offer timestamp record => exact absurd List.mem_cons_self (h timestamp record)
    | alert _ _ _ _ | resolved _ _ _ _ _ => exact ih hrest
    | event event => exact ih hrest
    | overflow => exact ih hrest
    | finding finding => exact ih hrest

namespace Sensor

variable {R : Regex} {A : AhoCorasick} {T : TextRegex}

def Told (log : List SensorEvent) (timestamp : Instant) (record : AlertRecord) : Prop :=
  ∃ e ∈ log, e.timestamp = toTimestamp timestamp ∧
    ∃ action, e.payload = .alert (record.event action .network)

def Retained (log : List SensorEvent) (s : Sensor R A T) : Prop :=
  ∀ c ∈ s.correlator, ∀ host, ∀ o ∈ (c.windows.lookup host).getD [], Attested log o

/-- Everything that correlation has been offered, or is going to be, was reported or is going to be
before that, and the incidents are grounded in the reports. -/
structure Backed (log : List SensorEvent) (s : Sensor R A T) : Prop where
  retained : Retained log s
  pending : OffersBacked (Told log) s.pending
  plain : PlainEvents s.pending
  grounded : ∀ e ∈ log, ∀ incident, e.payload = .incident incident → Grounded log incident

theorem Retained.mono {log log' : List SensorEvent} (h : ∀ e ∈ log, e ∈ log') {s : Sensor R A T}
    (hs : Retained log s) : Retained log' s :=
  fun c hc host o ho => (hs c hc host o ho).mono h

theorem Told.mono {log log' : List SensorEvent} (h : ∀ e ∈ log, e ∈ log') {timestamp : Instant}
    {record : AlertRecord} (ht : Told log timestamp record) : Told log' timestamp record :=
  ht.imp fun e he => ⟨h e he.1, he.2⟩

theorem Backed.join {log events : List SensorEvent} {s s' : Sensor R A T} (h : Backed log s)
    (hretained : Retained (log ++ events) s')
    (hpending : OffersBacked (Told (log ++ events)) s'.pending)
    (hplain : PlainEvents s'.pending)
    (hevents : ∀ e ∈ events, ∀ incident, e.payload = .incident incident →
      Grounded (log ++ events) incident) : Backed (log ++ events) s' := by
  refine ⟨hretained, hpending, hplain, fun e he incident hincident => ?_⟩
  rcases List.mem_append.1 he with hold | hnew
  · exact (h.grounded e hold incident hincident).mono fun _ => List.mem_append_left _
  · exact hevents e hnew incident hincident

/-- Giving correlation something that was reported keeps what is retained reported, and an incident
it completes is grounded. -/
theorem correlate_grounded {log : List SensorEvent} {s : Sensor R A T} (h : Retained log s)
    (domain : Correlation.Domain) (eventType : Correlation.EventKind) (sid : Option UInt32)
    (severity : UInt8) (summary : String) (timestamp : Instant)
    (ho : Attested log ⟨s.name, toTimestamp timestamp, domain, eventType, sid, severity, summary⟩) :
    let next := s.correlate domain eventType sid severity summary timestamp
    Retained log next.1 ∧
      ∀ e ∈ next.2, ∃ incident, e.payload = .incident incident ∧ Grounded log incident := by
  simp only [correlate]
  cases hcorrelator : s.correlator with
  | none => exact ⟨h, fun e he => absurd he List.not_mem_nil⟩
  | some c =>
    refine ⟨?_, ?_⟩
    · rintro c' ⟨⟩ host x hx
      rcases Correlator.mem_window_observe hx with rfl | hold
      · exact ho
      · exact h c hcorrelator host x hold
    · intro e he
      obtain ⟨incident, hincident, rfl⟩ := List.mem_map.1 he
      exact ⟨incident, rfl, Correlator.grounded_observe (h c hcorrelator) ho
        (Option.mem_toList.1 hincident)⟩

theorem Told.attested {log : List SensorEvent} {timestamp : Instant} {record : AlertRecord}
    (h : Told log timestamp record) (name : String) :
    Attested log ⟨name, toTimestamp timestamp, .network, .alert, some record.sid, record.severity,
      record.signature⟩ := by
  obtain ⟨e, he, htimestamp, action, hpayload⟩ := h
  exact ⟨iff_of_true rfl rfl, e, he, htimestamp,
    Or.inl ⟨_, hpayload, rfl, rfl, iff_of_true rfl rfl⟩⟩

theorem payload_kind_ne_alert (finding : HostFinding) : finding.payload.kind ≠ .alert := by
  cases finding <;> simp [HostFinding.payload, Payload.kind]

/-- What a finding gives correlation is its first alert, or the finding: both are reported with it.
-/
theorem attested_finding (finding : HostFinding) (alerts : List AlertRecord) (name : String)
    (timestamp : Instant) {log : List SensorEvent}
    (halerts : ∀ record ∈ alerts, hostAlertEvent timestamp record ∈ log)
    (hfinding : ({ timestamp := toTimestamp timestamp, payload := finding.payload } : SensorEvent) ∈
    log) :
    let evidence := hostEvidence finding alerts
    Attested log ⟨name, toTimestamp timestamp, .host, finding.payload.kind, evidence.1,
      evidence.2.1,
      evidence.2.2⟩ := by
  intro evidence
  refine ⟨iff_of_false (by simp) (payload_kind_ne_alert finding), ?_⟩
  cases hhead : alerts.head? with
  | none =>
    have hevidence : evidence = (none, 3, finding.summary) := by
      simp only [evidence, hostEvidence, hhead]
    rw [hevidence]
    exact ⟨_, hfinding, rfl, Or.inr ⟨finding, rfl, rfl, rfl, rfl⟩⟩
  | some record =>
    have hevidence : evidence = (some record.sid, record.severity, record.signature) := by
      simp only [evidence, hostEvidence, hhead]
    rw [hevidence]
    exact ⟨_, halerts record (List.mem_of_mem_head? hhead), rfl, Or.inl ⟨_, rfl, rfl, rfl,
      iff_of_false (payload_kind_ne_alert finding) (by simp [AlertRecord.event])⟩⟩

/-- A finding is reported with its alerts, and an incident it completes is grounded in all of these.
-/
theorem reportFinding_grounded {log : List SensorEvent} {s : Sensor R A T} (h : Retained log s)
    (finding : HostFinding) (timestamp : Instant) :
    let next := s.reportFinding finding timestamp
    Retained (log ++ next.2) next.1 ∧ ∀ e ∈ next.2, ∀ incident, e.payload = .incident incident →
      Grounded (log ++ next.2) incident := by
  intro next
  let inspected := s.toDetection.inspectHost finding.observation timestamp
  let alerts := inspected.2
  let counted : Sensor R A T := { s with
    toDetection := inspected.1
    hostAlerts := s.hostAlerts + alerts.length }
  let evidence := hostEvidence finding alerts
  let correlated := counted.correlate .host finding.payload.kind evidence.1 evidence.2.1
    evidence.2.2
    timestamp
  let last : SensorEvent := { timestamp := toTimestamp timestamp, payload := finding.payload }
  have hnext : next = (correlated.1,
      alerts.map (hostAlertEvent timestamp) ++ correlated.2 ++ [last]) := rfl
  have hretained : Retained (log ++ next.2) counted := by
    intro c hc
    exact h.mono (fun _ => List.mem_append_left _) c hc
  have halerts : ∀ record ∈ alerts, hostAlertEvent timestamp record ∈ log ++ next.2 := by
    intro record hrecord
    rw [hnext]
    simp [List.mem_map_of_mem hrecord]
  have hlast : last ∈ log ++ next.2 := by
    rw [hnext]
    simp
  obtain ⟨hafter, hincidents⟩ := correlate_grounded hretained .host finding.payload.kind evidence.1
    evidence.2.1 evidence.2.2 timestamp
    (attested_finding finding alerts counted.name timestamp halerts hlast)
  refine ⟨hafter, fun e he incident hincident => ?_⟩
  rw [hnext] at he
  rcases List.mem_append.1 he with he | he
  · rcases List.mem_append.1 he with he | he
    · obtain ⟨record, -, rfl⟩ := List.mem_map.1 he
      exact absurd hincident (by simp [hostAlertEvent])
    · obtain ⟨raised, hraised, hgrounded⟩ := hincidents e he
      obtain rfl := Payload.incident.inj (hraised.symm.trans hincident)
      exact hgrounded
  · rw [List.mem_singleton.1 he] at hincident
    cases finding <;> exact absurd hincident (by simp [last, HostFinding.payload])

theorem Backed.work {log : List SensorEvent} {s : Sensor R A T} {report : Report}
    {rest : List Report}
    (h : Backed log s) (hpending : s.pending = report :: rest) (clocks : Clocks) :
    let next := Sensor.work { s with pending := rest } clocks report
    Backed (log ++ next.2) next.1 := by
  intro next
  have hold : ∀ e ∈ log, e ∈ log ++ next.2 := fun _ => List.mem_append_left _
  have hrest : next.1.pending = leaves { s with pending := rest } clocks report ++ rest :=
    work_pending { s with pending := rest } clocks report
  have hplain : PlainEvents next.1.pending := by
    rw [hrest]
    intro event hevent
    rcases List.mem_append.1 hevent with hevent | hevent
    · exact absurd hevent (leaves_readyMade _ clocks report event)
    · exact h.plain event (hpending ▸ List.mem_cons_of_mem _ hevent)
  have hback := h.pending
  rw [hpending] at hback
  cases report with
  | alert flowId tuple timestamp record =>
    obtain ⟨-, -, -, -, hsame⟩ :=
      enforce_aside { s with pending := rest } record.blocks tuple clocks.now
    refine h.join (fun c hc => h.retained.mono hold c (hsame ▸ hc)) ?_ hplain
      (by simp [next, Sensor.work])
    rw [hrest]
    have hlater : OffersBacked (fun t r => Told (log ++ next.2) t r ∨ (t = timestamp ∧ r = record))
        rest := OffersBacked.mono hback fun t r => Or.imp_left fun htold => htold.mono hold
    exact hlater
  | resolved flowId tuple timestamp record action =>
    refine h.join (h.retained.mono hold) ?_ hplain ?_
    · rw [hrest]
      refine OffersBacked.mono hback ?_
      rintro t r (htold | ⟨rfl, rfl⟩)
      · exact htold.mono hold
      · exact ⟨_, List.mem_append_right _ (List.mem_singleton_self _), rfl, _, rfl⟩
    · intro e he incident hincident
      rw [List.mem_singleton.1 he] at hincident
      exact absurd hincident (by simp [alertEvent])
  | offer timestamp record =>
    obtain ⟨hretained, hincidents⟩ := correlate_grounded (s := { s with pending := rest })
      (h.retained.mono hold) .network .alert (some record.sid) record.severity record.signature
      timestamp ((hback.1.mono hold).attested s.name)
    refine h.join hretained ?_ hplain ?_
    · rw [hrest]
      exact OffersBacked.mono hback.2 fun t r htold => htold.mono hold
    · intro e he incident hincident
      obtain ⟨raised, hraised, hgrounded⟩ := hincidents e he
      obtain rfl := Payload.incident.inj (hraised.symm.trans hincident)
      exact hgrounded
  | event event =>
    refine h.join (h.retained.mono hold) ?_ hplain ?_
    · rw [hrest]
      exact OffersBacked.mono hback fun t r htold => htold.mono hold
    · intro e he incident hincident
      rw [List.mem_singleton.1 he] at hincident
      rcases h.plain event (hpending ▸ List.mem_cons_self) with hkind | hkind
      · simp [hincident, Payload.kind] at hkind
      · simp [hincident, Payload.kind] at hkind
  | overflow =>
    refine h.join (h.retained.mono hold) ?_ hplain ?_
    · rw [hrest]
      exact OffersBacked.mono hback fun t r htold => htold.mono hold
    · intro e he incident hincident
      rw [List.mem_singleton.1 he] at hincident
      exact absurd hincident (by simp [overflowEvent])
  | finding finding =>
    obtain ⟨hretained, hincidents⟩ := reportFinding_grounded (s := { s with pending := rest })
      h.retained finding clocks.wall
    refine h.join hretained ?_ hplain hincidents
    rw [hrest]
    exact OffersBacked.mono hback fun t r htold => htold.mono hold

/-- A step that reports nothing keeps everything backed if its new work is. -/
theorem Backed.silent {log : List SensorEvent} {s s' : Sensor R A T} (h : Backed log s)
    (hcorrelator : s'.correlator = s.correlator) (hpending : OffersBacked (Told log) s'.pending)
    (hplain : PlainEvents s'.pending) : Backed (log ++ []) s' := by
  rw [List.append_nil]
  exact ⟨fun c hc => h.retained c (hcorrelator ▸ hc), hpending, hplain, h.grounded⟩

theorem Backed.step {log : List SensorEvent} {s : Sensor R A T} (h : Backed log s)
    (E : Decode.Etherparse) (move : SensorMove) :
    Backed (log ++ (s.step E move).2) (s.step E move).1 := by
  have hplain := step_plain E h.plain move
  cases move with
  | packet walks again sets interface packet =>
    simp only [Sensor.step] at hplain ⊢
    split_ifs at hplain ⊢
    · refine h.silent rfl ?_ hplain
      refine ((offersBacked_reports _ s.options _).append ?_).append
        (offersBacked_reports _ s.options _)
      split_ifs <;> trivial
    · exact h.silent rfl h.pending hplain
  | flush order =>
    simp only [Sensor.step] at hplain ⊢
    split_ifs at hplain ⊢
    · exact h.silent rfl (offersBacked_reports _ s.options _) hplain
    · exact h.silent rfl h.pending hplain
  | serviceHost batch =>
    simp only [Sensor.step] at hplain ⊢
    split_ifs at hplain ⊢
    · refine h.silent rfl (offersBacked_of_no_offers fun timestamp record hmem => ?_) hplain
      simp [serviceHost] at hmem
    · exact h.silent rfl h.pending hplain
  | beside move hmove => exact h.silent rfl h.pending hplain
  | report clocks =>
    cases hpending : s.pending with
    | nil =>
      simp only [Sensor.step, hpending]
      exact h.silent rfl h.pending h.plain
    | cons report rest =>
      simp only [Sensor.step, hpending]
      exact h.work hpending clocks

theorem Backed.start (name : String) (options : PipelineOptions) (detection : Detection R A T)
    (correlation : Option Correlation.CorrelationSettings)
    (prevention : Option (PreventionSettings × List Received)) :
    Backed [] (start name options detection correlation prevention) := by
  refine ⟨?_, trivial, fun event hevent => absurd hevent List.not_mem_nil, by simp⟩
  intro c hc host o ho
  obtain ⟨settings, -, rfl⟩ := Option.map_eq_some_iff.1 hc
  exact absurd ho List.not_mem_nil

/-- In every run of the sensor, whatever it captures and finds and however its threads interleave:
each contributor of each incident refers to an event of its own that was offered to the log with the
same time, identifier and text, and every incident joins a network alert with evidence from the
host. -/
theorem incident_evidence_reported (E : Decode.Etherparse) (name : String)
    (options : PipelineOptions)
    (detection : Detection R A T) (correlation : Option Correlation.CorrelationSettings)
    (prevention : Option (PreventionSettings × List Received)) (moves : List SensorMove)
    {e : SensorEvent} {incident : IncidentEvent} (hincident : e.payload = .incident incident) :
    let run := Runs.run (step E) (start name options detection correlation prevention) moves
    e ∈ run.2.flatten → Grounded run.2.flatten incident := by
  intro run he
  have hbacked := Runs.invariant_outputs (A := fun _ _ => True) Backed
    (fun log s move hs _ => hs.step E move)
    (Backed.start name options detection correlation prevention)
    ((Runs.along_iff (step E) (fun _ _ => True) _ moves).2 fun _ _ _ _ => trivial)
  exact hbacked.grounded e he incident hincident

/-- The alert on a datagram and a file that changes a second later make an incident. -/
theorem incident_evidence_reported_datagram :
    let sensor : Sensor Regex.none AhoCorasick.exhaustive TextRegex.none :=
      start "sensor" ⟨true, true⟩
        ⟨(PacketPipeline.new Regex.none AhoCorasick.exhaustive smallWindowConfig).arm
          (sampleEngine {} [abDropRule]), .new _ {} []⟩ (some {}) none
    let moves : List SensorMove :=
      [.packet PacketPipeline.sampleWalks PacketPipeline.sampleWalks (HashOrder.asStored _) "eth0"
          abCapture, .report ⟨1, 1⟩, .report ⟨2, 2⟩, .report ⟨3, 3⟩, .report ⟨4, 4⟩,
        .serviceHost { fim := [⟨"/etc/passwd", .modified, .realTime, none, none, none, none, none,
          none⟩] },
        .report ⟨5, 1000000000⟩]
    let log := (Runs.run (step Decode.Etherparse.standard) sensor moves).2.flatten
    ∃ e ∈ log, ∃ incident, e.payload = .incident incident ∧ Grounded log incident := by
  intro sensor moves log
  have hraised : log.any (fun e => e.payload.kind = .incident) = true := by decide +kernel
  obtain ⟨e, he, hkind⟩ := List.any_eq_true.1 hraised
  cases hpayload : e.payload with
  | incident incident =>
    exact ⟨e, he, incident, hpayload, incident_evidence_reported Decode.Etherparse.standard "sensor"
      ⟨true, true⟩ _ (some {}) none moves hpayload he⟩
  | alert _ | anomaly _ | flow _ | fim _ | auth _ | process _ =>
    simp [hpayload, Payload.kind] at hkind

end Sensor
end CyberSentinel
