import CyberSentinel.Channels
import CyberSentinel.FimFailure
import CyberSentinel.Runs

/-!
# The file integrity thread

The worker owns the monitor on a thread of its own. Each tick turns notifications into rechecks,
runs a rescan when one is due or a gap was noticed, and gives an update, which the thread offers to
a bounded channel without waiting. A poll receives what is there into its batch. Dropping the sensor
asks the thread to stop, waits for it, and then drops the receiver.
-/

namespace CyberSentinel.Fim

open Tables Channels

/-- How many pending notifications and updates are held before dropping. -/
def channelDepth : ℕ := 4096

def maxNotificationsPerTick : ℕ := 512

structure FimCounters where
  watchedPaths : ℕ := 0
  watchFailures : ℕ := 0
  realtime : ℕ := 0
  rescan : ℕ := 0
  overflows : ℕ := 0
  rescans : ℕ := 0
  baselineEntries : ℕ := 0
  deriving DecidableEq, Repr

structure FimUpdate where
  events : List FimEvent := []
  overflows : ℕ := 0
  counters : FimCounters := {}
  deriving DecidableEq, Repr

/-- What the watcher sends: an error, or the paths where something happened, each with what looking
at it comes to when it is rechecked. -/
inductive Notification
  | failed
  | event (needRescan : Bool) (paths : List (Path × Inspection))

structure FimWorker where
  monitor : Monitor
  notifications : Option (Channel Notification)
  rescanInterval : ℕ
  /-- None for a scan on the first tick. -/
  nextRescan : Option ℕ := none
  /-- Set when a gap is detected, cleared when the forced rescan runs. -/
  overflowPending : Bool := false
  counters : FimCounters := {}

/-- The outside of one tick: the time, what a rescan would meet, how many operations of the baseline
it can do before one fails, and whether the rows can be counted after it. -/
structure TickInput where
  now : ℕ
  walked : Walked
  conditions : Monitor.Conditions
  left : ℕ
  countable : Bool := true

namespace FimWorker

def recheckAll (m : Monitor) (paths : List (Path × Inspection)) : Monitor × List FimEvent :=
  paths.foldl (fun done entry =>
    let (m, event) := done.1.recheck entry.1 entry.2
    (m, done.2 ++ event.toList)) (m, [])

/-- Turn one notification into events. A watcher that lost something makes the tick rescan. -/
def handleNotification (w : FimWorker) : Notification → FimWorker × List FimEvent
  | .failed =>
    ({ w with
        counters := { w.counters with watchFailures := w.counters.watchFailures + 1 }
        overflowPending := true }, [])
  | .event needRescan paths =>
    if needRescan then
      ({ w with
          counters := { w.counters with overflows := w.counters.overflows + 1 }
          overflowPending := true }, [])
    else
      let (monitor, events) := recheckAll w.monitor paths
      ({ w with
          monitor
          counters := { w.counters with realtime := w.counters.realtime + events.length } }, events)

def takeNotifications : ℕ → FimWorker → FimWorker × List FimEvent
  | 0, w => (w, [])
  | limit + 1, w =>
    match w.notifications with
    | none => (w, [])
    | some channel =>
      match channel.tryRecv with
      | (channel, .ok notification) =>
        let (w, events) := handleNotification { w with notifications := some channel } notification
        let (w, more) := takeNotifications limit w
        (w, events ++ more)
      | (_, .empty) => (w, [])
      | (_, .disconnected) =>
        -- the watcher is gone: real-time coverage is lost, so rescan now
        ({ w with
            counters := { w.counters with watchFailures := w.counters.watchFailures + 1 }
            overflowPending := true
            notifications := none }, [])

/-- Run a baseline comparison. A scan that fails has no events. -/
def rescan (w : FimWorker) (input : TickInput) : FimWorker × List FimEvent :=
  match w.monitor.rescanFallible .baselineRescan input.walked input.conditions input.left with
  | (monitor, none) => ({ w with monitor }, [])
  | (monitor, some outcome) =>
    ({ w with
        monitor
        counters := { w.counters with
          rescans := w.counters.rescans + 1
          rescan := w.counters.rescan + outcome.events.length
          baselineEntries := if input.countable then size monitor.baseline else 0 } },
      outcome.events)

def tick (w : FimWorker) (input : TickInput) : FimWorker × FimUpdate :=
  let (w, events) := takeNotifications maxNotificationsPerTick w
  let forced := w.overflowPending
  let w := { w with overflowPending := false }
  let due : Bool := w.nextRescan.all (fun next => next ≤ input.now)
  let (w, found) :=
    if forced || due then
      let (w, found) := w.rescan input
      ({ w with nextRescan := some (input.now + w.rescanInterval) }, found)
    else (w, [])
  (w, { events := events ++ found, overflows := if forced then 1 else 0, counters := w.counters })

end FimWorker

structure HostBatch where
  fim : List FimEvent := []
  overflows : ℕ := 0
  deriving DecidableEq, Repr

def HostBatch.eventsFrom (batch : HostBatch) (update : FimUpdate) : HostBatch where
  fim := batch.fim ++ update.events
  overflows := batch.overflows + update.overflows

/-- The thread between its steps: at the head of its loop, with an update to send, or ended. -/
inductive FimThread
  | idle
  | sending (update : FimUpdate)
  | ended

/-- The host sensor's half and the thread's half, with the batches that polls have returned. -/
structure HostSensor where
  worker : FimWorker
  thread : FimThread := .idle
  updates : Channel FimUpdate := Channel.new channelDepth
  /-- Whether the sensor still has its receiver. -/
  receiver : Bool := true
  counters : FimCounters := {}
  shutdown : Bool := false
  /-- The batch of a poll that is under way. -/
  polling : Option HostBatch := none
  batches : List HostBatch := []

inductive SensorStep
  /-- The watcher has a notification, or is gone. -/
  | notify (notification : Notification)
  | watcherStops
  /-- The thread: a tick, the send, and the look at the flag that ends it. -/
  | tick (input : TickInput)
  | send
  | exit
  /-- The poller: a poll begins, and receives once. -/
  | poll
  | receive
  /-- The sensor is dropped: the flags are set, and once the thread is joined the receiver goes. -/
  | drop
  | finish

namespace HostSensor

def finishPoll (s : HostSensor) (batch : HostBatch) : HostSensor :=
  { s with polling := none, batches := s.batches ++ [batch] }

/-- One step, with the events that a tick returned in it. A step that cannot be taken does nothing.
-/
def step (s : HostSensor) : SensorStep → HostSensor × List FimEvent
  | .notify notification =>
    ({ s with worker := { s.worker with
        notifications := s.worker.notifications.map (fun c => (c.trySend notification).1) } }, [])
  | .watcherStops =>
    ({ s with worker := { s.worker with
        notifications := s.worker.notifications.map Channel.closeSender } }, [])
  | .tick input =>
    match s.thread with
    | .idle =>
      if s.shutdown then (s, [])
      else
        let (worker, update) := s.worker.tick input
        ({ s with worker, thread := .sending update }, update.events)
    | .sending _ | .ended => (s, [])
  | .send =>
    match s.thread with
    | .sending update => ({ s with thread := .idle, updates := (s.updates.trySend update).1 }, [])
    | .idle | .ended => (s, [])
  | .exit =>
    match s.thread with
    | .idle =>
      if s.shutdown then ({ s with thread := .ended, updates := s.updates.closeSender }, [])
        else (s, [])
    | .sending _ | .ended => (s, [])
  | .poll =>
    if s.shutdown || s.polling.isSome then (s, [])
    else if s.receiver then ({ s with polling := some {} }, [])
    else (s.finishPoll {}, [])
  | .receive =>
    match s.polling with
    | none => (s, [])
    | some batch =>
      match s.updates.tryRecv with
      | (updates, .ok update) =>
        ({ s with updates, counters := update.counters, polling := some (batch.eventsFrom update) },
          [])
      | (_, .empty) => (s.finishPoll batch, [])
      | (updates, .disconnected) =>
        ({ s.finishPoll batch with receiver := false, updates := updates.closeReceiver }, [])
  | .drop => if s.polling.isSome then (s, []) else ({ s with shutdown := true }, [])
  | .finish =>
    match s.thread with
    | .ended =>
      if s.shutdown then ({ s with receiver := false, updates := s.updates.closeReceiver }, [])
      else (s, [])
    | .idle | .sending _ => (s, [])

def start (worker : FimWorker) : HostSensor := { worker, counters := worker.counters }

end HostSensor

end CyberSentinel.Fim
