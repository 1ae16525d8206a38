import CyberSentinel.Channels
import CyberSentinel.Runs

/-!
# The event pipeline

Producers hand events to a bounded channel without waiting; one writer thread takes them out and
fans each out to every sink. The threads are interleaved at their atomic steps: the steps of an
`emit` call on the counters and the channel, the messages of `shutdown` calls, and the steps of the
writer's two loops. A step that has to wait does nothing. Serialisation is a parameter, and so is,
for every step of the writer, which sinks succeed.
-/

namespace CyberSentinel.Eventlog

open Channels

variable {ε β : Type*}

inductive Message (ε : Type*)
  | event (event : ε)
  /-- Stop after draining everything queued ahead. -/
  | shutdown
  deriving DecidableEq, Repr

structure PipelineCounters where
  emitted : UInt64 := 0
  dropped : UInt64 := 0
  written : UInt64 := 0
  writeErrors : UInt64 := 0
  queued : UInt64 := 0
  capacity : UInt64
  deriving DecidableEq, Repr

structure PipelineSnapshot where
  emitted : UInt64
  dropped : UInt64
  written : UInt64
  writeErrors : UInt64
  queued : UInt64
  capacity : UInt64
  deriving DecidableEq, Repr

def PipelineCounters.snapshot (c : PipelineCounters) : PipelineSnapshot :=
  ⟨c.emitted, c.dropped, c.written, c.writeErrors, c.queued, c.capacity⟩

/-- How far an `emit` call has come. -/
inductive EmitPhase
  /-- `emitted` is counted, the message is not sent yet. -/
  | counted
  /-- The channel has the message, `queued` is not counted yet. -/
  | accepted
  /-- The channel has refused the message, `dropped` is not counted yet. -/
  | refused
  | returned (accepted : Bool)
  deriving DecidableEq, Repr

structure EmitCall (ε : Type*) where
  event : ε
  phase : EmitPhase
  deriving DecidableEq, Repr

/-- What the writer thread does next. An event in its hands comes from the main loop or from the
final drain. -/
inductive WriterPhase (ε : Type*)
  /-- Try to receive. -/
  | polling
  /-- Flush, because there was nothing to receive. -/
  | lull
  /-- Wait for a message. -/
  | parked
  /-- Count the event out of the queue. -/
  | received (draining : Bool) (event : ε)
  /-- Write the event. -/
  | writing (draining : Bool) (event : ε)
  /-- Try to receive behind the shutdown marker. -/
  | draining
  /-- Flush for the last time and end. -/
  | leaving
  | ended
  deriving DecidableEq, Repr

structure EventPipeline (ε β : Type*) where
  channel : Channel (Message ε)
  counters : PipelineCounters
  /-- All calls of `emit` so far. -/
  calls : List (EmitCall ε)
  writer : WriterPhase ε
  /-- For every sink the lines it was given, with its answers. -/
  sinks : List (List (β × Bool))

def writeEvent (toNdjson : ε → Option β) (accepts : ℕ → Bool) (event : ε)
    (p : EventPipeline ε β) : EventPipeline ε β :=
  match toNdjson event with
  | none => { p with counters := { p.counters with writeErrors := p.counters.writeErrors + 1 } }
  | some line =>
    let results := (List.range p.sinks.length).map accepts
    { p with
      sinks := p.sinks.mapIdx (fun i log => log ++ [(line, accepts i)])
      counters := { p.counters with
        writeErrors := p.counters.writeErrors + UInt64.ofNat (results.count false)
        written := if results.any id then p.counters.written + 1 else p.counters.written } }

def flushAll (accepts : ℕ → Bool) (p : EventPipeline ε β) : EventPipeline ε β :=
  let results := (List.range p.sinks.length).map accepts
  { p with counters := { p.counters with
      writeErrors := p.counters.writeErrors + UInt64.ofNat (results.count false) } }

namespace EventPipeline

/-- Start the writer over the sinks with a queue of the given capacity, which is at least one. -/
def spawn (sinks capacity : ℕ) : EventPipeline ε β where
  channel := Channel.new (max capacity 1)
  counters := { capacity := UInt64.ofNat (max capacity 1) }
  calls := []
  writer := .polling
  sinks := List.replicate sinks []

/-- The main loop has a message: write an event, stop at a marker. -/
def onMessage (p : EventPipeline ε β) : Message ε → EventPipeline ε β
  | .event event => { p with writer := .received false event }
  | .shutdown => { p with writer := .draining }

/-- One step of `writer_loop`. -/
def writerStep (toNdjson : ε → Option β) (accepts : ℕ → Bool) (p : EventPipeline ε β) :
    EventPipeline ε β :=
  let (channel, received) := p.channel.tryRecv
  match p.writer with
  | .polling =>
    match received with
    | .ok message => { p with channel := channel }.onMessage message
    | .empty => { p with writer := .lull }
    | .disconnected => { p with writer := .draining }
  | .lull => { flushAll accepts p with writer := .parked }
  | .parked =>
    match received with
    | .ok message => { p with channel := channel }.onMessage message
    | .empty => p
    | .disconnected => { p with writer := .draining }
  | .received draining event =>
    { p with
      counters := { p.counters with queued := p.counters.queued - 1 }
      writer := .writing draining event }
  | .writing draining event =>
    { writeEvent toNdjson accepts event p with
      writer := if draining then .draining else .polling }
  | .draining =>
    match received with
    | .ok (.event event) => { p with channel := channel, writer := .received true event }
    | .ok .shutdown => { p with channel := channel, writer := .leaving }
    | .empty | .disconnected => { p with writer := .leaving }
  | .leaving =>
    -- the receiver goes with the thread
    { flushAll accepts p with channel := p.channel.closeReceiver, writer := .ended }
  | .ended => p

/-- The next step of an `emit` call, with what the call returns if it was the last one. -/
def emitStep (p : EventPipeline ε β) (i : ℕ) : EventPipeline ε β × Option Bool :=
  match p.calls[i]? with
  | some ⟨event, .counted⟩ =>
    let (channel, sent) := p.channel.trySend (.event event)
    ({ p with
        channel := channel
        calls := p.calls.set i ⟨event, if sent = .ok then .accepted else .refused⟩ },
      none)
  | some ⟨event, .accepted⟩ =>
    ({ p with
        counters := { p.counters with queued := p.counters.queued + 1 }
        calls := p.calls.set i ⟨event, .returned true⟩ },
      some true)
  | some ⟨event, .refused⟩ =>
    ({ p with
        counters := { p.counters with dropped := p.counters.dropped + 1 }
        calls := p.calls.set i ⟨event, .returned false⟩ },
      some false)
  | _ => (p, none)

end EventPipeline

inductive Action (ε : Type*)
  /-- A producer calls `emit`. -/
  | emit (event : ε)
  /-- The producer of the given call takes its next step. -/
  | proceed (call : ℕ)
  /-- A `shutdown` call sends its marker, which waits while the channel is full. -/
  | shutdown
  /-- The pipeline is dropped, which nobody can do who still has a call on it. -/
  | drop
  /-- The writer takes its next step; a sink it uses answers as given. -/
  | write (accepts : ℕ → Bool)

def step (toNdjson : ε → Option β) (p : EventPipeline ε β) :
    Action ε → EventPipeline ε β × Option Bool
  | .emit event =>
    if p.channel.sending then
      ({ p with
          counters := { p.counters with emitted := p.counters.emitted + 1 }
          calls := p.calls ++ [⟨event, .counted⟩] },
        none)
    else (p, none)
  | .proceed call => p.emitStep call
  | .shutdown =>
    if p.channel.sending then ({ p with channel := (p.channel.trySend .shutdown).1 }, none)
    else (p, none)
  | .drop =>
    if p.calls.all (fun call => call.phase matches .returned _) then
      ({ p with channel := p.channel.closeSender }, none)
    else (p, none)
  | .write accepts => (p.writerStep toNdjson accepts, none)

def after (toNdjson : ε → Option β) (sinks capacity : ℕ) (actions : List (Action ε)) :
    EventPipeline ε β :=
  (Runs.run (step toNdjson) (EventPipeline.spawn sinks capacity) actions).1

end CyberSentinel.Eventlog
