import CyberSentinel.EndlessRuns
import CyberSentinel.PublishedCounts
import CyberSentinel.Replay

/-!
# The main loop

The main thread takes packets from its source, looks after the host sensors now and then and
publishes the counters, until the source ends, fails or the sensor is told to shut down. Then it
ends the flows that are still open, gives the host sensors a last chance, and publishes for the last
time. A sensor without a source, or one that stays up to enforce when its source has ended, runs the
shorter loop over the host sensors alone.
-/

namespace CyberSentinel

open Tables Detect
open Correlation (CorrelationSettings)
open Prevent (PreventionSettings Received)
open Replay (Captured CaptureError)

def publishEveryPackets : ℕ := 1024

/-- What the main thread does next, once it has reported all it has to report. -/
inductive LoopPhase
  /-- The head of the loop. -/
  | capturing
  | servicing
  | publishing
  /-- The loop is left: the open flows are ended, -/
  | flushing
  /-- the host sensors are drained, -/
  | draining
  /-- and the counters are published for the last time. -/
  | closing
  | finished
  deriving DecidableEq, Repr

/-- The flows that were open when the loop was left have been ended. -/
def LoopPhase.afterFlush : LoopPhase → Bool
  | .draining | .closing | .finished => true
  | .capturing | .servicing | .publishing | .flushing => false

/-- How far the phase is from the end, once the shutdown is signalled and the time for draining is
over. -/
def LoopPhase.distance : LoopPhase → ℕ
  | .servicing => 6
  | .publishing => 5
  | .capturing => 4
  | .flushing => 3
  | .draining => 2
  | .closing => 1
  | .finished => 0

structure Reading where
  shutdown : Bool
  captured : Except CaptureError Captured
  walks : Walks
  again : Walks
  sets : HashOrder FragmentKey
  flows : HashOrder FlowKey
  /-- What a poll of the host sensors returns, if there are any. -/
  batch : Option HostBatch
  /-- Whether the first scan is done. -/
  baselineReady : Bool
  /-- Whether the time for draining is over. -/
  late : Bool
  clocks : Clocks

structure MainLoop (R : Regex) (A : AhoCorasick) (T : TextRegex) where
  sensor : Sensor R A T
  phase : LoopPhase := .capturing
  /-- There is no source, or it has ended: only the host is watched. -/
  hostOnly : Bool
  seen : ℕ := 0
  failure : Option CaptureError := none
  /-- What was published last. -/
  snapshot : PipelineSnapshot

def HostBatch.sawSomething (batch : HostBatch) : Bool :=
  !batch.findings.isEmpty || 0 < batch.overflows

namespace MainLoop

variable {R : Regex} {A : AhoCorasick} {T : TextRegex}

def start (sensor : Sensor R A T) (hostOnly : Bool) : MainLoop R A T where
  sensor := sensor
  hostOnly := hostOnly
  snapshot := sensor.publish

def call (E : Decode.Etherparse) (m : MainLoop R A T) (move : SensorMove) (phase : LoopPhase) :
    MainLoop R A T × List SensorEvent :=
  let stepped := m.sensor.step E move
  ({ m with sensor := stepped.1, phase := phase }, stepped.2)

/-- The head of the loop. A sensor that watches the host alone takes no packet. -/
def head (E : Decode.Etherparse) (m : MainLoop R A T) (r : Reading) :
    MainLoop R A T × List SensorEvent :=
  if m.hostOnly then ({ m with phase := if r.shutdown then .draining else .servicing }, [])
  else if r.shutdown then ({ m with phase := .flushing }, [])
  else
    match r.captured with
    | .ok (.frame interface packet) =>
      { m with seen := m.seen + 1 }.call E (.packet r.walks r.again r.sets interface packet)
        (if (m.seen + 1) % publishEveryPackets = 0 then .servicing else .capturing)
    | .ok .idle => ({ m with phase := .servicing }, [])
    | .ok .done => ({ m with phase := .flushing }, [])
    | .error e => ({ m with phase := .flushing, failure := some e }, [])

/-- One turn of the main thread. It does nothing new while it has something to report. -/
def turn (E : Decode.Etherparse) (enforcing : Bool) (m : MainLoop R A T) (r : Reading) :
    MainLoop R A T × List SensorEvent :=
  if m.sensor.pending ≠ [] then m.call E (.report r.clocks) m.phase
  else
    match m.phase with
    | .capturing => m.head E r
    | .servicing =>
      match r.batch with
      | none => ({ m with phase := .publishing }, [])
      | some batch => m.call E (.serviceHost batch) .publishing
    | .publishing => ({ m with phase := .capturing, snapshot := m.sensor.publish }, [])
    | .flushing => m.call E (.flush r.flows) .draining
    | .draining =>
      match r.batch with
      | none => ({ m with phase := .closing }, [])
      | some batch =>
        m.call E (.serviceHost batch)
          (if (batch.sawSomething && r.baselineReady) || r.late then .closing else .draining)
    | .closing =>
      -- a source that has ended is no reason to stop enforcing
      if !m.hostOnly && m.failure.isNone && enforcing && !r.shutdown then
        ({ m with phase := .capturing, hostOnly := true, snapshot := m.sensor.publish }, [])
      else ({ m with phase := .finished, snapshot := m.sensor.publish }, [])
    | .finished => (m, [])

end MainLoop

inductive LoopMove
  | turn (reading : Reading)
  | beside (move : Prevent.Move) (h : move.isBlock = false)

def LoopMove.Closes : LoopMove → Prop
  | .turn reading => reading.shutdown = true ∧ reading.late = true
  | .beside _ _ => True

def LoopMove.IsTurn : LoopMove → Prop
  | .turn _ => True
  | .beside _ _ => False

def SensorMove.isTraffic : SensorMove → Bool
  | .packet _ _ _ _ _ | .flush _ => true
  | .serviceHost _ | .report _ | .beside _ _ => false

namespace MainLoop

variable {R : Regex} {A : AhoCorasick} {T : TextRegex}

def step (E : Decode.Etherparse) (enforcing : Bool) (m : MainLoop R A T) :
    LoopMove → MainLoop R A T × List SensorEvent
  | .turn reading => m.turn E enforcing reading
  | .beside move h => m.call E (.beside move h) m.phase

/-- A sensor whose counters are those of what it has offered, whenever it has nothing left to
report. -/
def Publishes (E : Decode.Etherparse) (options : PipelineOptions) (s : Sensor R A T) : Prop :=
  ∀ moves, (Runs.run (Sensor.step E) s moves).1.pending = [] →
    (Runs.run (Sensor.step E) s moves).1.publish.OfEvents options
      (Runs.run (Sensor.step E) s moves).2.flatten

/-- The main thread's sensor, its counts and the events it has offered after some turns. -/
structure Audited (E : Decode.Etherparse) (options : PipelineOptions) (s : Sensor R A T)
    (log : List SensorEvent) (m : MainLoop R A T) : Prop where
  ran : ∃ moves, (Runs.run (Sensor.step E) s moves).1 = m.sensor ∧
    (Runs.run (Sensor.step E) s moves).2.flatten = log
  /-- What was published last was true of what was offered by then. -/
  published : ∃ before, before <+: log ∧ m.snapshot.OfEvents options before
  seen : m.sensor.decode.packets = m.seen
  ended : m.hostOnly = true ∨ m.phase.afterFlush = true → m.sensor.pipeline.flows.flows = ∅
  finished : m.phase = .finished → m.sensor.pending = [] ∧ m.snapshot = m.sensor.publish

variable {E : Decode.Etherparse} {options : PipelineOptions} {s : Sensor R A T}
  {log : List SensorEvent} {m m' : MainLoop R A T}

theorem work_flows (s : Sensor R A T) (clocks : Clocks) (report : Report) :
    (s.work clocks report).1.pipeline.flows = s.pipeline.flows := by
  cases report with
  | alert flowId tuple timestamp record =>
    obtain ⟨hdetection, -⟩ := s.enforce_aside record.blocks tuple clocks.now
    exact congrArg (fun d : Detection R A T => d.pipeline.flows) hdetection
  | resolved flowId tuple timestamp record action => rfl
  | offer timestamp record =>
    obtain ⟨hdetection, -⟩ := s.correlate_says .network .alert (some record.sid) record.severity
      record.signature timestamp
    exact congrArg (fun d : Detection R A T => d.pipeline.flows) hdetection
  | event event => rfl
  | overflow => rfl
  | finding finding =>
    obtain ⟨hdetection, -⟩ := s.reportFinding_says finding clocks.wall
    exact (congrArg (fun d : Detection R A T => d.pipeline.flows) hdetection).trans
      (s.toDetection.inspectHost_tables finding.observation clocks.wall).1

/-- A step of the sensor that takes up no traffic leaves the flows and the decoder's counts. -/
theorem step_nothing (E : Decode.Etherparse) (s : Sensor R A T) {move : SensorMove}
    (hop : s.pending ≠ [] ∨ move.isTraffic = false) :
    (s.step E move).1.pipeline.flows = s.pipeline.flows ∧ (s.step E move).1.decode = s.decode := by
  cases move with
  | packet walks again sets interface raw =>
    have hstep : s.step E (.packet walks again sets interface raw) = (s, []) :=
      if_neg (hop.resolve_right (by simp [SensorMove.isTraffic]))
    rw [hstep]
    exact ⟨rfl, rfl⟩
  | flush order =>
    have hstep : s.step E (.flush order) = (s, []) :=
      if_neg (hop.resolve_right (by simp [SensorMove.isTraffic]))
    rw [hstep]
    exact ⟨rfl, rfl⟩
  | serviceHost batch =>
    rw [Sensor.step]
    split_ifs
    · exact ⟨rfl, rfl⟩
    · exact ⟨rfl, rfl⟩
  | report clocks =>
    cases hpending : s.pending with
    | nil =>
      have hstep : s.step E (.report clocks) = (s, []) := by simp only [Sensor.step, hpending]
      rw [hstep]
      exact ⟨rfl, rfl⟩
    | cons report rest =>
      simp only [Sensor.step, hpending]
      exact ⟨work_flows _ clocks report, Sensor.work_decode _ clocks report⟩
  | beside move hmove => exact ⟨rfl, rfl⟩

namespace Audited

theorem called (h : Audited E options s log m) (move : SensorMove)
    (hsensor : m'.sensor = (m.sensor.step E move).1) (hsnapshot : m'.snapshot = m.snapshot)
    (hseen : (m.sensor.step E move).1.decode.packets = m'.seen)
    (hended : m'.hostOnly = true ∨ m'.phase.afterFlush = true →
      (m.sensor.step E move).1.pipeline.flows.flows = ∅)
    (hfinished : m'.phase = .finished →
      (m.sensor.step E move).1.pending = [] ∧ m.snapshot = (m.sensor.step E move).1.publish) :
    Audited E options s (log ++ (m.sensor.step E move).2) m' := by
  obtain ⟨moves, hran, hlog⟩ := h.ran
  obtain ⟨before, hbefore, hsaid⟩ := h.published
  refine ⟨⟨moves ++ [move], ?_, ?_⟩,
    ⟨before, hbefore.trans (List.prefix_append _ _), ?_⟩, ?_, ?_, ?_⟩
  · rw [Runs.run_append, hran, Runs.run_cons, Runs.run_nil, hsensor]
  · rw [Runs.run_append, hran, Runs.run_cons, Runs.run_nil, List.flatten_append, hlog,
      List.flatten_singleton]
  · rw [hsnapshot]
    exact hsaid
  · rw [hsensor]
    exact hseen
  · rw [hsensor]
    exact hended
  · rw [hsensor, hsnapshot]
    exact hfinished

/-- The main thread goes on to another phase, and may publish on the way. -/
theorem goes (h : Audited E options s log m) (hs : Publishes E options s)
    (hpending : m.sensor.pending = []) (hsensor : m'.sensor = m.sensor) (hseen : m'.seen = m.seen)
    (hsnapshot : m'.snapshot = m.snapshot ∨ m'.snapshot = m.sensor.publish)
    (hended : m'.hostOnly = true ∨ m'.phase.afterFlush = true →
      m.hostOnly = true ∨ m.phase.afterFlush = true)
    (hfinished : m'.phase = .finished → m'.snapshot = m.sensor.publish) :
    Audited E options s (log ++ []) m' := by
  rw [List.append_nil]
  refine ⟨?_, ?_, ?_, ?_, ?_⟩
  · rw [hsensor]
    exact h.ran
  · rcases hsnapshot with hsnapshot | hsnapshot
    · rw [hsnapshot]
      exact h.published
    · obtain ⟨moves, hran, hlog⟩ := h.ran
      have hnow := hs moves (by rw [hran, hpending])
      rw [hran, hlog, ← hsnapshot] at hnow
      exact ⟨log, List.prefix_rfl, hnow⟩
  · rw [hsensor, hseen]
    exact h.seen
  · rw [hsensor]
    exact fun hm => h.ended (hended hm)
  · rw [hsensor]
    exact fun hm => ⟨hpending, hfinished hm⟩

/-- The sensor works on, or looks at its host: the traffic's part stands still. -/
theorem works (h : Audited E options s log m) {move : SensorMove} {phase : LoopPhase}
    (hop : m.sensor.pending ≠ [] ∨ move.isTraffic = false)
    (hphase : phase.afterFlush = true → m.hostOnly = true ∨ m.phase.afterFlush = true)
    (hfinished : phase ≠ .finished) :
    Audited E options s (log ++ (m.call E move phase).2) (m.call E move phase).1 := by
  obtain ⟨hflows, hdecode⟩ := step_nothing E m.sensor hop
  refine h.called move rfl rfl ?_ ?_ fun hphase' => absurd hphase' hfinished
  · rw [hdecode]
    exact h.seen
  · intro hm
    rw [hflows]
    exact h.ended (hm.elim Or.inl hphase)

theorem head (h : Audited E options s log m) (hs : Publishes E options s)
    (hpending : m.sensor.pending = []) (r : Reading) :
    Audited E options s (log ++ (m.head E r).2) (m.head E r).1 := by
  unfold MainLoop.head
  by_cases hhost : m.hostOnly = true
  · rw [if_pos hhost]
    refine h.goes hs hpending rfl rfl (Or.inl rfl) (fun _ => Or.inl hhost) fun hphase => ?_
    dsimp only at hphase
    split_ifs at hphase
  · -- the source still counts
    have hopen {phase : LoopPhase} (hphase : phase.afterFlush = false)
        (hm : m.hostOnly = true ∨ phase.afterFlush = true) :
        m.hostOnly = true ∨ m.phase.afterFlush = true :=
      hm.elim Or.inl fun hflushed => absurd (hflushed.symm.trans hphase) (by decide)
    rw [if_neg hhost]
    by_cases hshutdown : r.shutdown = true
    · rw [if_pos hshutdown]
      exact h.goes hs hpending rfl rfl (Or.inl rfl) (hopen rfl) fun hphase =>
        LoopPhase.noConfusion hphase
    · rw [if_neg hshutdown]
      cases r.captured with
      | error e =>
        exact h.goes hs hpending rfl rfl (Or.inl rfl) (hopen rfl) fun hphase =>
          LoopPhase.noConfusion hphase
      | ok captured =>
        cases captured with
        | idle =>
          exact h.goes hs hpending rfl rfl (Or.inl rfl) (hopen rfl) fun hphase =>
            LoopPhase.noConfusion hphase
        | done =>
          exact h.goes hs hpending rfl rfl (Or.inl rfl) (hopen rfl) fun hphase =>
            LoopPhase.noConfusion hphase
        | frame interface packet =>
          let move : SensorMove := .packet r.walks r.again r.sets interface packet
          have hstep : (m.sensor.step E move).1.decode.packets = m.sensor.decode.packets + 1 := by
            rw [Sensor.step_decode, Sensor.takes, if_pos hpending]
            rfl
          refine h.called move rfl rfl ?_ ?_ ?_
          · rw [hstep, h.seen]
            rfl
          · rintro (hm | hm)
            · exact absurd hm hhost
            · dsimp only [call] at hm
              split_ifs at hm <;> cases hm
          · intro hphase
            dsimp only [call] at hphase
            split_ifs at hphase

theorem turn (h : Audited E options s log m) (hs : Publishes E options s) (enforcing : Bool)
    (r : Reading) :
    Audited E options s (log ++ (m.turn E enforcing r).2) (m.turn E enforcing r).1 := by
  unfold MainLoop.turn
  by_cases hpending : m.sensor.pending = []
  · rw [if_neg (not_not_intro hpending)]
    cases hphase : m.phase with
    | capturing => exact h.head hs hpending r
    | servicing =>
      cases r.batch with
      | none =>
        refine h.goes hs hpending rfl rfl (Or.inl rfl) ?_ fun hm => LoopPhase.noConfusion hm
        exact fun hm => hm.elim Or.inl fun hflushed => Bool.noConfusion hflushed
      | some batch =>
        exact h.works (Or.inr rfl) (fun hflushed => Bool.noConfusion hflushed)
          fun hm => LoopPhase.noConfusion hm
    | publishing =>
      refine h.goes hs hpending rfl rfl (Or.inr rfl) ?_ fun hm => LoopPhase.noConfusion hm
      exact fun hm => hm.elim Or.inl fun hflushed => Bool.noConfusion hflushed
    | flushing =>
      have hstep : m.sensor.step E (.flush r.flows) = (m.sensor.flush r.flows, []) :=
        if_pos hpending
      refine h.called (.flush r.flows) rfl rfl ?_ ?_ fun hm => LoopPhase.noConfusion hm
      · rw [hstep]
        exact h.seen
      · intro _
        let flushed : PacketPipeline R A :=
          { m.sensor.pipeline with flows := m.sensor.pipeline.flows.flush r.flows }
        obtain ⟨hdrained, -⟩ := flushed.drainEndedFlows_reports
        obtain ⟨hflushed, -⟩ := m.sensor.pipeline.flows.flush_fields r.flows
        rw [hstep]
        exact (congrArg FlowTable.flows hdrained).trans hflushed
    | draining =>
      have hflushed : m.hostOnly = true ∨ m.phase.afterFlush = true := Or.inr (by rw [hphase]; rfl)
      cases r.batch with
      | none =>
        exact h.goes hs hpending rfl rfl (Or.inl rfl) (fun _ => hflushed) fun hm =>
          LoopPhase.noConfusion hm
      | some batch =>
        refine h.works (Or.inr rfl) (fun _ => hflushed) ?_
        split_ifs
        · exact LoopPhase.noConfusion
        · exact LoopPhase.noConfusion
    | closing =>
      have hflushed : m.hostOnly = true ∨ m.phase.afterFlush = true := Or.inr (by rw [hphase]; rfl)
      dsimp only
      split_ifs
      · exact h.goes hs hpending rfl rfl (Or.inr rfl) (fun _ => hflushed) fun _ => rfl
      · exact h.goes hs hpending rfl rfl (Or.inr rfl) (fun _ => hflushed) fun _ => rfl
    | finished =>
      exact h.goes hs hpending rfl rfl (Or.inl rfl) id fun _ => (h.finished hphase).2
  · rw [if_pos hpending]
    exact h.works (Or.inl hpending) Or.inr fun hfinished => hpending (h.finished hfinished).1

theorem step (h : Audited E options s log m) (hs : Publishes E options s) (enforcing : Bool)
    (move : LoopMove) :
    Audited E options s (log ++ (m.step E enforcing move).2) (m.step E enforcing move).1 := by
  cases move with
  | turn reading => exact h.turn hs enforcing reading
  | beside move hmove =>
    exact h.called (.beside move hmove) rfl rfl h.seen h.ended h.finished

end Audited

/-- At the head of the loop a packet is counted, and a count that is a stop is waited at. -/
theorem head_seen (E : Decode.Etherparse) (m : MainLoop R A T) (r : Reading) :
    (m.head E r).1.seen = m.seen ∨ ((m.head E r).1.seen = m.seen + 1 ∧
      ((m.seen + 1) % publishEveryPackets = 0 → (m.head E r).1.phase = .servicing)) := by
  unfold head
  by_cases hhost : m.hostOnly = true
  · rw [if_pos hhost]
    exact Or.inl rfl
  · rw [if_neg hhost]
    by_cases hshutdown : r.shutdown = true
    · rw [if_pos hshutdown]
      exact Or.inl rfl
    · rw [if_neg hshutdown]
      cases r.captured with
      | error e => exact Or.inl rfl
      | ok captured =>
        cases captured with
        | frame interface packet => exact Or.inr ⟨rfl, fun hstop => if_pos hstop⟩
        | idle => exact Or.inl rfl
        | done => exact Or.inl rfl

theorem turn_seen (E : Decode.Etherparse) (enforcing : Bool) (m : MainLoop R A T) (r : Reading)
    (hother : m.phase ≠ .capturing ∨ m.sensor.pending ≠ []) :
    (m.turn E enforcing r).1.seen = m.seen := by
  unfold turn
  by_cases hpending : m.sensor.pending = []
  · rw [if_neg (not_not_intro hpending)]
    cases hphase : m.phase with
    | capturing => exact absurd hphase (hother.resolve_right (not_not_intro hpending))
    | servicing => cases r.batch <;> rfl
    | publishing => rfl
    | flushing => rfl
    | draining => cases r.batch <;> rfl
    | closing =>
      dsimp only
      split_ifs
      · rfl
      · rfl
    | finished => rfl
  · rw [if_pos hpending]
    rfl

def TakesUp (task : LoopPhase) (m : MainLoop R A T) (move : LoopMove) : Prop :=
  m.phase = task ∧ m.sensor.pending = [] ∧ ∃ reading, move = .turn reading

/-- The count at which a loop that has seen `count` packets stops for its other tasks. -/
def nextStop (count : ℕ) : ℕ := count + (publishEveryPackets - count % publishEveryPackets)

/-- The loop is on its way to the stop, or is waiting there for the task. -/
structure Heading (task : LoopPhase) (count : ℕ) (m : MainLoop R A T) : Prop where
  le : m.seen ≤ nextStop count
  least : count ≤ m.seen
  waits : m.seen = nextStop count → m.phase = .servicing ∨ m.phase = task

theorem lt_nextStop (count : ℕ) : count < nextStop count :=
  Nat.lt_add_of_pos_right (Nat.sub_pos_of_lt (Nat.mod_lt _ (by decide)))

theorem dvd_of_eq_nextStop {count seen : ℕ} (hseen : seen = nextStop count) :
    seen % publishEveryPackets = 0 := by
  rw [nextStop, publishEveryPackets] at hseen
  rw [publishEveryPackets]
  omega

variable {task : LoopPhase} {count : ℕ}

namespace Heading

/-- A step that takes no packet, and does not leave the place where the loop waits. -/
theorem stays (h : Heading task count m) (hseen : m'.seen = m.seen)
    (hwaits : m.phase = .servicing ∨ m.phase = task → m'.phase = .servicing ∨ m'.phase = task) :
    Heading task count m' := by
  refine ⟨hseen ▸ h.le, hseen ▸ h.least, fun hstop => hwaits (h.waits ?_)⟩
  rw [← hseen]
  exact hstop

theorem head (h : Heading task count m) (hphase : m.phase = .capturing)
    (htask : task = .servicing ∨ task = .publishing) (r : Reading) :
    Heading task count (m.head E r).1 := by
  have hrunning : ¬ (m.phase = .servicing ∨ m.phase = task) := by
    rw [hphase]
    rcases htask with rfl | rfl
    · decide
    · decide
  have hnot : m.seen ≠ nextStop count := fun hstop => hrunning (h.waits hstop)
  rcases head_seen E m r with hseen | ⟨hseen, hstops⟩
  · exact h.stays hseen fun hwaits => absurd hwaits hrunning
  · refine ⟨?_, ?_, fun hstop => Or.inl (hstops ?_)⟩
    · rw [hseen]
      exact Nat.succ_le_of_lt (lt_of_le_of_ne h.le hnot)
    · rw [hseen]
      exact h.least.trans (Nat.le_succ _)
    · rw [← hseen]
      exact dvd_of_eq_nextStop hstop

theorem turn (h : Heading task count m) (htask : task = .servicing ∨ task = .publishing)
    (enforcing : Bool) (r : Reading) (hnot : ¬ m.TakesUp task (.turn r)) :
    Heading task count (m.turn E enforcing r).1 := by
  by_cases hpending : m.sensor.pending = []
  · have hother : m.phase ≠ task := fun heq => hnot ⟨heq, hpending, r, rfl⟩
    by_cases hcapturing : m.phase = .capturing
    · have hturn : m.turn E enforcing r = m.head E r := by
        rw [MainLoop.turn, if_neg (not_not_intro hpending), hcapturing]
      rw [hturn]
      exact h.head hcapturing htask r
    · refine h.stays (turn_seen E enforcing m r (Or.inl hcapturing)) ?_
      rintro (hwaits | hwaits)
      · -- the host sensors are looked after: here the task is to publish
        have hpublish : task = .publishing := htask.resolve_left fun heq =>
          hother (hwaits.trans heq.symm)
        right
        rw [MainLoop.turn, if_neg (not_not_intro hpending), hwaits, hpublish]
        cases r.batch with
        | none => rfl
        | some batch => rfl
      · exact absurd hwaits hother
  · refine h.stays (turn_seen E enforcing m r (Or.inr hpending)) fun hwaits => ?_
    rw [MainLoop.turn, if_pos hpending]
    exact hwaits

end Heading

/-- However the sensor's turns and the other threads' steps follow on one another: between two turns
that look after the host sensors the source gives at most as many packets as there are between two
stops, and so it does between two publications of the counters. -/
theorem looks_after_host (E : Decode.Etherparse) (enforcing : Bool) (m : MainLoop R A T)
    {task : LoopPhase} (htask : task = .servicing ∨ task = .publishing) {moves : List LoopMove}
    (hnone : Runs.Along (step E enforcing) (fun m move => ¬ m.TakesUp task move) m moves) :
    (Runs.run (step E enforcing) m moves).1.seen ≤ m.seen + publishEveryPackets := by
  have hstart : Heading task m.seen m :=
    ⟨(lt_nextStop m.seen).le, le_rfl, fun hstop => absurd hstop (lt_nextStop m.seen).ne⟩
  have hheading : Heading task m.seen (Runs.run (step E enforcing) m moves).1 := by
    refine Runs.invariant_along (step E enforcing) (Heading task m.seen) _ ?_ hstart hnone
    intro m' move h hnot
    cases move with
    | turn reading => exact h.turn htask enforcing reading hnot
    | beside move hmove => exact h.stays rfl id
  exact hheading.le.trans (Nat.add_le_add_left (Nat.sub_le _ _) _)

def datagramReading (shutdown : Bool) : Reading where
  shutdown := shutdown
  captured := .ok (.frame "eth0" abCapture)
  walks := PacketPipeline.sampleWalks
  again := PacketPipeline.sampleWalks
  sets := HashOrder.asStored _
  flows := HashOrder.asStored _
  batch := none
  baselineReady := true
  late := shutdown
  clocks := ⟨3, 3⟩

/-- A loop that has seen all packets but one of a stretch takes that one, and stops. -/
theorem looks_after_host_datagram :
    let m : MainLoop _ _ _ := { start inlineSensor false with seen := 1023 }
    let run := Runs.run (step .standard true) m [.turn (datagramReading false)]
    run.1.phase = .servicing ∧ run.1.seen = 1024 ∧ run.1.seen ≤ 1023 + publishEveryPackets := by
  intro m run
  have hnone : Runs.Along (step .standard true) (fun m move => ¬ m.TakesUp .servicing move) m
      [.turn (datagramReading false)] :=
    ⟨fun htakes => LoopPhase.noConfusion htakes.1, trivial⟩
  exact ⟨by decide +kernel, by decide +kernel, looks_after_host .standard true m (Or.inl rfl) hnone⟩

/-- An alert is resolved and then reported, and so takes two turns. -/
def reportTurns : Report → ℕ
  | .alert _ _ _ _ => 2
  | .resolved _ _ _ _ _ | .offer _ _ | .event _ | .overflow | .finding _ => 1

/-- What is left to do: to report, and to go on. -/
def remaining (m : MainLoop R A T) : ℕ ×ₗ ℕ :=
  toLex (m.phase.distance, (m.sensor.pending.map reportTurns).sum)

theorem work_turns (s : Sensor R A T) (clocks : Clocks) (report : Report) :
    ((s.work clocks report).1.pending.map reportTurns).sum + 1 =
      reportTurns report + (s.pending.map reportTurns).sum := by
  rw [Sensor.work_pending, List.map_append, List.sum_append]
  cases report with
  | alert flowId tuple timestamp record =>
    simp only [Sensor.leaves, reportTurns, List.map_singleton, List.sum_singleton]
    omega
  | resolved _ _ _ _ _ | offer _ _ | event _ | overflow | finding _ =>
    simp only [Sensor.leaves, reportTurns, List.map_nil, List.sum_nil]
    omega

theorem head_distance (E : Decode.Etherparse) (m : MainLoop R A T) {r : Reading}
    (hshutdown : r.shutdown = true) : (m.head E r).1.phase.distance < 4 := by
  unfold head
  rw [hshutdown, if_pos rfl, if_pos rfl]
  split_ifs
  · exact Nat.lt_of_sub_eq_succ rfl
  · exact Nat.lt_of_sub_eq_succ rfl

/-- A turn of a main thread that is to close reports something or brings the end nearer. -/
theorem turn_remaining (E : Decode.Etherparse) (enforcing : Bool) (m : MainLoop R A T) {r : Reading}
    (hshutdown : r.shutdown = true) (hlate : r.late = true) (hnot : m.phase ≠ .finished) :
    (m.turn E enforcing r).1.remaining < m.remaining := by
  rw [remaining, remaining, Prod.Lex.toLex_lt_toLex]
  unfold turn
  by_cases hpending : m.sensor.pending = []
  · left
    rw [if_neg (not_not_intro hpending)]
    cases hphase : m.phase with
    | capturing => exact head_distance E m hshutdown
    | servicing => cases r.batch <;> exact Nat.lt_succ_self 5
    | publishing => exact Nat.lt_succ_self 4
    | flushing => exact Nat.lt_succ_self 2
    | draining =>
      cases r.batch with
      | none => exact Nat.lt_succ_self 1
      | some batch =>
        dsimp only [call]
        rw [hlate, Bool.or_true, if_pos rfl]
        exact Nat.lt_succ_self 1
    | closing =>
      dsimp only
      rw [hshutdown, Bool.not_true, Bool.and_false, if_neg Bool.false_ne_true]
      exact Nat.lt_succ_self 0
    | finished => exact absurd hphase hnot
  · right
    obtain ⟨report, rest, hwork⟩ := List.exists_cons_of_ne_nil hpending
    have hstep : m.sensor.step E (.report r.clocks) =
        Sensor.work { m.sensor with pending := rest } r.clocks report := by
      simp only [Sensor.step, hwork]
    rw [if_pos hpending]
    refine ⟨rfl, ?_⟩
    have hturns := work_turns { m.sensor with pending := rest } r.clocks report
    dsimp only [call]
    rw [hstep, hwork, List.map_cons, List.sum_cons]
    exact Nat.lt_of_succ_le hturns.le

/-- Whatever it was doing, whatever there is left to report, and however the other threads come in
between: a main thread that keeps getting its turn finishes, once the shutdown is signalled for good
and the time for draining is over. -/
theorem shutdown_finishes (E : Decode.Etherparse) (enforcing : Bool) (m : MainLoop R A T)
    {moves : ℕ → LoopMove} (hcloses : ∃ first, ∀ n, first ≤ n → (moves n).Closes)
    (hturns : ∀ n, ∃ k, n ≤ k ∧ (moves k).IsTurn) :
    ∃ n, (Runs.after (step E enforcing) m moves n).phase = .finished := by
  obtain ⟨first, hcloses⟩ := hcloses
  refine Runs.reaches_of_measure remaining (fun m => m.phase = .finished) ?_ ?_ hcloses hturns m
  · intro m move hmove hnot
    cases move with
    | turn reading => exact (turn_remaining E enforcing m hmove.1 hmove.2 hnot).le
    | beside move hbeside => exact le_rfl
  · intro m move hmove hturn hnot
    cases move with
    | turn reading => exact turn_remaining E enforcing m hmove.1 hmove.2 hnot
    | beside move hbeside => exact absurd hturn id

/-- A loop that is told to shut down before its first packet. -/
theorem shutdown_finishes_at_once :
    ∃ n, (Runs.after (step .standard true) (start inlineSensor false)
      (fun _ => .turn (datagramReading true)) n).phase = .finished :=
  shutdown_finishes .standard true (start inlineSensor false) ⟨0, fun _ _ => ⟨rfl, rfl⟩⟩
    fun n => ⟨n, le_rfl, trivial⟩

end MainLoop
end CyberSentinel
