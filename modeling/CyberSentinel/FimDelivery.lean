import CyberSentinel.FimThread

/-!
# Findings on their way to the pipeline

A tick has written the rows of what it found before its update is offered to the channel, and the
send does not wait. So a finding is lost when the channel has no room for its update, and when its
update is still in the channel as the sensor is dropped; the baseline has moved on, and no rescan
will find the change again. Where neither happens, every finding comes to one batch, in order.
-/

namespace CyberSentinel.Fim

open Tables Channels

namespace HostSensor

def delivered (s : HostSensor) : List FimEvent := s.batches.flatMap HostBatch.fim

def inHand (s : HostSensor) : List FimEvent :=
  match s.thread with
  | .sending update => update.events
  | .idle | .ended => []

/-- The events in the batch under way, in the channel and in the hand of the thread. -/
def onTheWay (s : HostSensor) : List FimEvent :=
  (s.polling.map HostBatch.fim).getD [] ++ s.updates.queue.flatMap FimUpdate.events ++ s.inHand

/-- The step loses no finding: an update with findings is sent into a channel that has room, and
when the receiver goes no update with findings is in the channel. -/
def HandsOver (s : HostSensor) : SensorStep → Prop
  | .send => ∀ update, s.thread = .sending update → update.events ≠ [] →
      s.updates.receiving = true ∧ s.updates.queue.length < s.updates.capacity
  | .finish => s.thread = .ended → s.updates.queue.flatMap FimUpdate.events = []
  | _ => True

structure Accounted (returned : List FimEvent) (s : HostSensor) : Prop where
  returned_eq : returned = s.delivered ++ s.onTheWay
  dropped : s.shutdown = true → s.polling = none
  ended : s.thread = .ended → s.shutdown = true
  closed : s.receiver = false → s.updates.queue = [] ∧ s.updates.receiving = false

variable {s : HostSensor} {returned : List FimEvent}

/-- A step that touches neither the thread, the channel nor the batches. -/
theorem Accounted.congr (h : Accounted returned s) {t : HostSensor}
    (hbatches : t.batches = s.batches)
    (hpolling : t.polling = s.polling) (hupdates : t.updates = s.updates)
    (hthread : t.thread = s.thread)
    (hshutdown : t.shutdown = s.shutdown) (hreceiver : t.receiver = s.receiver) :
    Accounted returned t := by
  have hsame : t.delivered = s.delivered ∧ t.onTheWay = s.onTheWay := by
    rw [delivered, delivered, onTheWay, onTheWay, inHand, inHand, hbatches, hpolling,
      hupdates, hthread]
    exact ⟨rfl, rfl⟩
  refine ⟨by rw [hsame.1, hsame.2]; exact h.returned_eq, ?_, ?_, ?_⟩
  · rw [hshutdown, hpolling]
    exact h.dropped
  · rw [hthread, hshutdown]
    exact h.ended
  · rw [hreceiver, hupdates]
    exact h.closed

theorem Accounted.tick (h : Accounted returned s) (input : TickInput) :
    Accounted (returned ++ (s.step (.tick input)).2) (s.step (.tick input)).1 := by
  rw [step]
  cases hthread : s.thread with
  | sending update =>
    rw [List.append_nil]
    exact h
  | ended =>
    rw [List.append_nil]
    exact h
  | idle =>
    dsimp only
    split_ifs with hshutdown
    · rw [List.append_nil]
      exact h
    · refine ⟨?_, h.dropped, fun hended => (nomatch hended), h.closed⟩
      have hway : s.inHand = [] := by rw [inHand, hthread]
      have hreturned := h.returned_eq
      rw [onTheWay, hway, List.append_nil] at hreturned
      rw [hreturned, List.append_assoc]
      rfl

theorem Accounted.send (h : Accounted returned s) (hroom : s.HandsOver .send) :
    Accounted (returned ++ (s.step .send).2) (s.step .send).1 := by
  rw [step]
  cases hthread : s.thread with
  | idle =>
    rw [List.append_nil]
    exact h
  | ended =>
    rw [List.append_nil]
    exact h
  | sending update =>
    have hreturned := h.returned_eq
    have hhand : s.inHand = update.events := by rw [inHand, hthread]
    rw [onTheWay, hhand] at hreturned
    dsimp only
    rw [List.append_nil]
    obtain ⟨-, hreceiving, -, heq⟩ | ⟨-, heq, hfull⟩ := s.updates.trySend_cases update
    · rw [heq]
      refine ⟨?_, h.dropped, fun hended => (nomatch hended), ?_⟩
      · rw [hreturned]
        simp [delivered, onTheWay, inHand]
      · intro hclosed
        exact absurd hreceiving (by rw [(h.closed hclosed).2]; simp)
    · -- a refused update has no findings
      have hnone : update.events = [] := by
        by_contra hne
        obtain ⟨hreceiving, hlt⟩ := hroom update hthread hne
        exact absurd (hfull hreceiving) (Nat.not_le.2 hlt)
      rw [heq]
      refine ⟨?_, h.dropped, fun hended => (nomatch hended), h.closed⟩
      rw [hreturned, hnone]
      rfl

theorem Accounted.exit (h : Accounted returned s) :
    Accounted (returned ++ (s.step .exit).2) (s.step .exit).1 := by
  rw [step]
  cases hthread : s.thread with
  | sending update =>
    rw [List.append_nil]
    exact h
  | ended =>
    rw [List.append_nil]
    exact h
  | idle =>
    dsimp only
    split_ifs with hshutdown
    · rw [List.append_nil]
      refine ⟨?_, h.dropped, fun _ => hshutdown, h.closed⟩
      have hhand : s.inHand = [] := by rw [inHand, hthread]
      have hreturned := h.returned_eq
      rw [onTheWay, hhand] at hreturned
      exact hreturned
    · rw [List.append_nil]
      exact h

theorem Accounted.poll (h : Accounted returned s) :
    Accounted (returned ++ (s.step .poll).2) (s.step .poll).1 := by
  rw [step]
  split_ifs with hbusy hreceiver
  · rw [List.append_nil]
    exact h
  · rw [List.append_nil]
    rw [Bool.or_eq_true, not_or] at hbusy
    have hpolling : s.polling = none := by simpa using hbusy.2
    refine ⟨?_, fun hshutdown => absurd hshutdown hbusy.1, h.ended, h.closed⟩
    have hreturned := h.returned_eq
    rw [onTheWay, hpolling] at hreturned
    exact hreturned
  · rw [List.append_nil]
    rw [Bool.or_eq_true, not_or] at hbusy
    have hpolling : s.polling = none := by simpa using hbusy.2
    refine ⟨?_, fun _ => rfl, h.ended, h.closed⟩
    have hreturned := h.returned_eq
    rw [onTheWay, hpolling] at hreturned
    rw [hreturned, delivered, delivered, finishPoll, List.flatMap_append, onTheWay]
    simp [inHand]

theorem Accounted.finishPoll {batch : HostBatch} (h : Accounted returned s)
    (hpolling : s.polling = some batch) : Accounted returned (s.finishPoll batch) := by
  refine ⟨?_, fun _ => rfl, h.ended, h.closed⟩
  have hreturned := h.returned_eq
  rw [onTheWay, hpolling] at hreturned
  rw [hreturned, delivered, delivered, HostSensor.finishPoll, List.flatMap_append, onTheWay]
  simp [inHand]

theorem Accounted.receive (h : Accounted returned s) :
    Accounted (returned ++ (s.step .receive).2) (s.step .receive).1 := by
  rw [step]
  cases hpolling : s.polling with
  | none =>
    rw [List.append_nil]
    exact h
  | some batch =>
    dsimp only
    obtain ⟨update, rest, hqueue, heq⟩ | ⟨hqueue, heq⟩ := s.updates.tryRecv_cases
    · rw [heq]
      dsimp only
      rw [List.append_nil]
      refine ⟨?_, ?_, h.ended, ?_⟩
      · have hreturned := h.returned_eq
        rw [onTheWay, hpolling, hqueue] at hreturned
        rw [hreturned]
        simp [delivered, onTheWay, inHand, HostBatch.eventsFrom]
      · intro hshutdown
        exact absurd (h.dropped hshutdown) (by rw [hpolling]; simp)
      · intro hreceiver
        exact absurd (h.closed hreceiver).1 (by rw [hqueue]; simp)
    · rw [heq]
      have hfinished := h.finishPoll hpolling
      split_ifs with hsending
      · rw [List.append_nil]
        exact hfinished
      · rw [List.append_nil]
        refine ⟨?_, hfinished.dropped, hfinished.ended, fun _ => ⟨rfl, rfl⟩⟩
        have hreturned := hfinished.returned_eq
        rw [onTheWay] at hreturned
        rw [hreturned, onTheWay]
        have hempty : (s.finishPoll batch).updates.queue = [] := hqueue
        rw [hempty]
        rfl

theorem Accounted.finish (h : Accounted returned s) (hempty : s.HandsOver .finish) :
    Accounted (returned ++ (s.step .finish).2) (s.step .finish).1 := by
  rw [step]
  cases hthread : s.thread with
  | idle =>
    rw [List.append_nil]
    exact h
  | sending update =>
    rw [List.append_nil]
    exact h
  | ended =>
    dsimp only
    split_ifs with hshutdown
    · rw [List.append_nil]
      refine ⟨?_, h.dropped, fun _ => hshutdown, fun _ => ⟨rfl, rfl⟩⟩
      have hhand : s.inHand = [] := by rw [inHand, hthread]
      have hreturned := h.returned_eq
      rw [onTheWay, hempty hthread, hhand] at hreturned
      exact hreturned
    · rw [List.append_nil]
      exact h

theorem Accounted.step (h : Accounted returned s) {e : SensorStep} (he : s.HandsOver e) :
    Accounted (returned ++ (s.step e).2) (s.step e).1 := by
  cases e with
  | notify notification =>
    rw [HostSensor.step, List.append_nil]
    exact h.congr rfl rfl rfl rfl rfl rfl
  | watcherStops =>
    rw [HostSensor.step, List.append_nil]
    exact h.congr rfl rfl rfl rfl rfl rfl
  | tick input => exact h.tick input
  | send => exact h.send he
  | exit => exact h.exit
  | poll => exact h.poll
  | receive => exact h.receive
  | drop =>
    rw [HostSensor.step]
    split_ifs with hpolling
    · rw [List.append_nil]
      exact h
    · rw [List.append_nil]
      exact ⟨h.returned_eq, fun _ => by simpa using hpolling, fun _ => rfl, h.closed⟩
  | finish => exact h.finish he

theorem accounted_start (worker : FimWorker) : Accounted [] (start worker) :=
  ⟨rfl, fun h => (nomatch h), fun h => (nomatch h), fun h => (nomatch h)⟩

/-- In a run whose steps hand their findings over, the events that ticks returned are those of the
batches, in order, and those on their way; once the sensor is gone, nothing is on its way. -/
theorem findings_delivered (worker : FimWorker) {steps : List SensorStep}
    (h : Runs.Along HostSensor.step HandsOver (start worker) steps) :
    let s := (Runs.run HostSensor.step (start worker) steps).1
    (Runs.run HostSensor.step (start worker) steps).2.flatten = s.delivered ++ s.onTheWay ∧
      (s.thread = .ended → s.receiver = false →
        (Runs.run HostSensor.step (start worker) steps).2.flatten = s.delivered) := by
  intro s
  have haccounted := Runs.invariant_outputs Accounted (fun _ _ _ h =>
    h.step) (accounted_start worker) h
  rw [List.nil_append] at haccounted
  refine ⟨haccounted.returned_eq, fun hended hreceiver => ?_⟩
  have hpolling := haccounted.dropped (haccounted.ended hended)
  have hqueue := (haccounted.closed hreceiver).1
  have hhand : s.inHand = [] := by rw [inHand, hended]
  have hreturned := haccounted.returned_eq
  rw [onTheWay, hpolling, hqueue, hhand] at hreturned
  exact hreturned.trans (List.append_nil _)

/-- A worker that watches `/etc`, has a row of `passwd`, and is not due for a rescan. -/
def sampleWorker : FimWorker where
  monitor := sampleMonitor ⟨some "a", 10, 0o644, 0, 0⟩
  notifications := some (Channel.new channelDepth)
  rescanInterval := 100
  nextRescan := some 100

def sampleTick : SensorStep :=
  .tick { now := 0, walked := ⟨[], {},
    List.nodup_nil⟩, conditions := { inspected := fun _ => .ok none }, left := 0 }

def sampleChange : SensorStep :=
  .notify (.event false [(samplePath, .ok (some ⟨some "b", 10, 0o644, 0, 0⟩))])

def sampleEvent : FimEvent where
  path := samplePath.key
  change := .modified
  detectedBy := .realTime
  size := some 10
  sha256 := some "b"
  previousSha256 := some "a"
  mode := some 0o644
  uid := some 0
  gid := some 0

/-- The change is found, sent, received in a poll, and the sensor is dropped. -/
theorem findings_delivered_one_change :
    let steps := [sampleChange, sampleTick, .send, .poll, .receive, .receive, .drop, .exit, .finish]
    let s := (Runs.run HostSensor.step (start sampleWorker) steps).1
    Runs.Along HostSensor.step HandsOver (start sampleWorker) steps ∧
      (Runs.run HostSensor.step (start sampleWorker) steps).2.flatten = [sampleEvent] ∧
      s.delivered = [sampleEvent] := by
  intro steps s
  have halong : Runs.Along HostSensor.step HandsOver (start sampleWorker) steps := by
    refine ⟨trivial, trivial, ?_, trivial, trivial, trivial, trivial, trivial, fun _ =>
      rfl, trivial⟩
    intro update _ _
    exact ⟨rfl, by decide +kernel⟩
  have hreturned : (Runs.run HostSensor.step (start sampleWorker) steps).2.flatten =
      [sampleEvent] := by
    decide +kernel
  have hall := (findings_delivered sampleWorker halong).2 rfl rfl
  exact ⟨halong, hreturned, hall.symm.trans hreturned⟩

/-- A sensor that has sent so many updates without findings, and was not polled. -/
structure Unpolled (count : ℕ) (s : HostSensor) : Prop where
  worker_eq : s.worker = sampleWorker
  thread_eq : s.thread = .idle
  shutdown_eq : s.shutdown = false
  receiving : s.updates.receiving = true
  capacity_eq : s.updates.capacity = channelDepth
  length_eq : s.updates.queue.length = count
  findings : s.updates.queue.flatMap FimUpdate.events = []
  polling_eq : s.polling = none
  batches_eq : s.batches = []

theorem Unpolled.tick {count : ℕ} (h : Unpolled count s) :
    s.step sampleTick = ({ s with thread := .sending {} }, []) := by
  obtain ⟨worker, thread, updates, receiver, counters, shutdown, polling, batches⟩ := s
  obtain ⟨rfl, rfl, rfl, -⟩ := h
  rfl

theorem Unpolled.round {count : ℕ} (h : Unpolled count s) (hroom : count < channelDepth) :
    (Runs.run HostSensor.step s [sampleTick, .send]).2.flatten = [] ∧
      Unpolled (count + 1) (Runs.run HostSensor.step s [sampleTick, .send]).1 := by
  rw [Runs.run_cons, Runs.run_cons, Runs.run_nil, h.tick]
  refine ⟨rfl, ?_⟩
  obtain ⟨-, -, -, heq⟩ | ⟨-, -, hfull⟩ := s.updates.trySend_cases {}
  · refine ⟨h.worker_eq, rfl, h.shutdown_eq, ?_, ?_, ?_, ?_, h.polling_eq, h.batches_eq⟩
    all_goals simp only [HostSensor.step, heq]
    · exact h.receiving
    · exact h.capacity_eq
    · rw [List.length_append, h.length_eq, List.length_singleton]
    · rw [List.flatMap_append, h.findings]
      rfl
  · have hle := hfull h.receiving
    rw [h.capacity_eq, h.length_eq] at hle
    exact absurd hle (Nat.not_le.2 hroom)

theorem unpolled_rounds {count : ℕ} (hle : count ≤ channelDepth) :
    let steps := (List.replicate count [sampleTick, SensorStep.send]).flatten
    (Runs.run HostSensor.step (start sampleWorker) steps).2.flatten = [] ∧
      Unpolled count (Runs.run HostSensor.step (start sampleWorker) steps).1 := by
  intro steps
  induction count with
  | zero => exact ⟨rfl, rfl, rfl, rfl, rfl, rfl, rfl, rfl, rfl, rfl⟩
  | succ count ih =>
    obtain ⟨hsilent, hunpolled⟩ := ih (Nat.le_of_succ_le hle)
    obtain ⟨hsilent', hunpolled'⟩ := hunpolled.round hle
    have hsteps : steps = (List.replicate count [sampleTick, SensorStep.send]).flatten ++
        [sampleTick, .send] := by
      simp only [steps, List.replicate_succ', List.flatten_append, List.flatten_singleton]
    rw [hsteps, Runs.run_append, List.flatten_append, hsilent, hsilent']
    exact ⟨rfl, hunpolled'⟩

theorem Unpolled.change (h : Unpolled channelDepth s) :
    let found := Runs.run HostSensor.step s [sampleChange, sampleTick, .send]
    found.2.flatten = [sampleEvent] ∧ found.1.delivered = [] ∧ found.1.onTheWay = [] ∧
      found.1.worker.monitor.baseline.get samplePath.key = some ⟨some "b", 10, 0o644, 0, 0⟩ := by
  intro found
  obtain ⟨worker, thread, updates, receiver, counters, shutdown, polling, batches⟩ := s
  obtain ⟨rfl, rfl, rfl, hreceiving, hcapacity, hlength, hfindings, rfl, rfl⟩ := h
  obtain ⟨changed, hchanged⟩ : ∃ changed,
      changed = ((start sampleWorker).step sampleChange).1.worker :=
    ⟨_, rfl⟩
  obtain ⟨ticked, hticked⟩ : ∃ ticked, ticked = changed.tick
      { now := 0, walked := ⟨[], {}, List.nodup_nil⟩,
        conditions := { inspected := fun _ => .ok none }, left := 0 } := ⟨_, rfl⟩
  have hevents : ticked.2.events = [sampleEvent] := by
    rw [hticked, hchanged]
    decide +kernel
  have hrow : ticked.1.monitor.baseline.get samplePath.key = some ⟨some "b", 10, 0o644, 0, 0⟩ := by
    rw [hticked, hchanged]
    decide +kernel
  have hfull : (updates.trySend ticked.2).1 = updates := by
    obtain ⟨-, -, hroom, -⟩ | ⟨-, heq, -⟩ := updates.trySend_cases ticked.2
    · change updates.queue.length = channelDepth at hlength
      change updates.capacity = channelDepth at hcapacity
      omega
    · exact heq
  have hfound : found =
      (⟨ticked.1, .idle, (updates.trySend ticked.2).1, receiver, counters, false, none, []⟩,
      [[], ticked.2.events, []]) := by
    rw [hticked, hchanged]
    rfl
  rw [hfound, hfull, hevents]
  refine ⟨rfl, rfl, ?_, hrow⟩
  rw [onTheWay, hfindings]
  rfl

/-- A change found while the channel is full: its event is nowhere, and the baseline has moved on.
-/
theorem finding_lost_in_full_channel :
    let steps := (List.replicate channelDepth [sampleTick, SensorStep.send]).flatten ++
      [sampleChange, sampleTick, .send]
    let s := (Runs.run HostSensor.step (start sampleWorker) steps).1
    (Runs.run HostSensor.step (start sampleWorker) steps).2.flatten = [sampleEvent] ∧
      s.delivered = [] ∧ s.onTheWay = [] ∧
      sampleWorker.monitor.baseline.get samplePath.key = some ⟨some "a", 10, 0o644, 0, 0⟩ ∧
      s.worker.monitor.baseline.get samplePath.key = some ⟨some "b", 10, 0o644, 0, 0⟩ := by
  -- for any steps that have filled the channel
  have hlost : ∀ before : List SensorStep,
      (Runs.run HostSensor.step (start sampleWorker) before).2.flatten = [] →
      Unpolled channelDepth (Runs.run HostSensor.step (start sampleWorker) before).1 →
      let found := Runs.run HostSensor.step (start sampleWorker)
        (before ++ [sampleChange, sampleTick, .send])
      found.2.flatten = [sampleEvent] ∧ found.1.delivered = [] ∧ found.1.onTheWay = [] ∧
        sampleWorker.monitor.baseline.get samplePath.key = some ⟨some "a", 10, 0o644, 0, 0⟩ ∧
        found.1.worker.monitor.baseline.get samplePath.key = some ⟨some "b", 10, 0o644, 0, 0⟩ := by
    intro before hsilent hunpolled found
    obtain ⟨hreturned, hdelivered, hway, hrow⟩ := hunpolled.change
    have hfound : found = _ := Runs.run_append HostSensor.step (start sampleWorker) before
      [sampleChange, sampleTick, .send]
    rw [hfound, List.flatten_append, hsilent, List.nil_append]
    exact ⟨hreturned, hdelivered, hway, AList.lookup_insert _, hrow⟩
  obtain ⟨hsilent, hunpolled⟩ := unpolled_rounds (le_refl channelDepth)
  exact hlost _ hsilent hunpolled

end HostSensor

end CyberSentinel.Fim
