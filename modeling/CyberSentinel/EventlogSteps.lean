import CyberSentinel.Eventlog
import Mathlib.Data.List.TakeWhile

/-!
# The steps of the event pipeline

What one step of a thread can do, and what every run keeps: the channel is first in, first out, so
what the writer has taken is the beginning of what has entered. In its main loop the writer has met
no marker, and behind that loop it has everything that entered before the first one.
-/

namespace CyberSentinel.Eventlog

open Channels

variable {ε β : Type*}

def Message.event? : Message ε → Option ε
  | .event e => some e
  | .shutdown => none

def eventsOf (messages : List (Message ε)) : List ε := messages.filterMap Message.event?

def beforeShutdown (messages : List (Message ε)) : List (Message ε) :=
  messages.takeWhile (fun message => message.event?.isSome)

def EmitCall.acceptedEvent (call : EmitCall ε) : Option ε :=
  if call.phase = .accepted ∨ call.phase = .returned true then some call.event else none

def WriterPhase.inHand : WriterPhase ε → List ε
  | .received _ event | .writing _ event => [event]
  | _ => []

def WriterPhase.pastLoop : WriterPhase ε → Bool
  | .received drains _ | .writing drains _ => drains
  | .draining | .leaving | .ended => true
  | .polling | .lull | .parked => false

/-- The events that `write_event` has been called for. -/
def EventPipeline.handed (p : EventPipeline ε β) : List ε :=
  (eventsOf p.channel.taken).take
    ((eventsOf p.channel.taken).length - p.writer.inHand.length)

/-- Of the first `n` lines of the sinks, those that some sink has accepted. -/
def acceptedBySome (sinks : List (List (β × Bool))) (n : ℕ) : ℕ :=
  (List.range n).countP (fun j => sinks.any (fun log => log[j]?.any Prod.snd))

@[simp] theorem eventsOf_nil : eventsOf ([] : List (Message ε)) = [] := rfl

@[simp] theorem eventsOf_append (xs ys : List (Message ε)) :
    eventsOf (xs ++ ys) = eventsOf xs ++ eventsOf ys :=
  List.filterMap_append

@[simp] theorem eventsOf_event (event : ε) (rest : List (Message ε)) :
    eventsOf (.event event :: rest) = event :: eventsOf rest := rfl

@[simp] theorem eventsOf_shutdown (rest : List (Message ε)) :
    eventsOf (.shutdown :: rest) = eventsOf rest := rfl

theorem beforeShutdown_of_forall {messages : List (Message ε)}
    (h : Message.shutdown ∉ messages) : beforeShutdown messages = messages := by
  apply List.takeWhile_eq_self_iff.2
  intro message hmem
  cases message with
  | event event => rfl
  | shutdown => exact absurd hmem h

theorem beforeShutdown_append_shutdown {messages : List (Message ε)}
    (h : Message.shutdown ∉ messages) (rest : List (Message ε)) :
    beforeShutdown (messages ++ .shutdown :: rest) = messages := by
  have hself := beforeShutdown_of_forall h
  unfold beforeShutdown at hself ⊢
  rw [List.takeWhile_append_of_pos (List.takeWhile_eq_self_iff.1 hself),
    List.takeWhile_cons_of_neg (by simp [Message.event?]), List.append_nil]

@[simp] theorem beforeShutdown_event (event : ε) (rest : List (Message ε)) :
    beforeShutdown (.event event :: rest) = .event event :: beforeShutdown rest := rfl

theorem beforeShutdown_append {messages : List (Message ε)} (h : Message.shutdown ∈ messages)
    (rest : List (Message ε)) :
    beforeShutdown (messages ++ rest) = beforeShutdown messages := by
  induction messages with
  | nil => exact absurd h (by simp)
  | cons message messages ih =>
    cases message with
    | shutdown => rfl
    | event event =>
      rw [List.cons_append, beforeShutdown_event, beforeShutdown_event, ih (by simpa using h)]

inductive Turns (p : EventPipeline ε β) : WriterPhase ε → Prop
  | rest (hwriter : p.writer = .polling) (hqueue : p.channel.queue = []) : Turns p .lull
  | park (hwriter : p.writer = .lull) : Turns p .parked
  | cut (hwriter : p.writer = .polling ∨ p.writer = .parked) (hqueue : p.channel.queue = [])
      (hsending : p.channel.sending = false) : Turns p .draining
  | finish (hwriter : p.writer = .draining) (hqueue : p.channel.queue = []) : Turns p .leaving

/-- The writer is about to receive, in the main loop or in the final drain. -/
def Receives (p : EventPipeline ε β) (draining : Bool) : Prop :=
  if draining then p.writer = .draining else p.writer = .polling ∨ p.writer = .parked

inductive Moves (toNdjson : ε → Option β) (p : EventPipeline ε β) :
    Action ε → EventPipeline ε β → Prop
  | idle (action : Action ε) (hother : ∀ i, action ≠ .proceed i)
      (hwrites : ∀ accepts, action = .write accepts →
        p.writer = .parked ∧ p.channel.queue = [] ∨ p.writer = .ended) :
      Moves toNdjson p action p
  | done (i : ℕ) (hcall : ∀ call, p.calls[i]? = some call →
    ∃ accepted, call.phase = .returned accepted) :
      Moves toNdjson p (.proceed i) p
  | emit (event : ε) (hsending : p.channel.sending = true) : Moves toNdjson p (.emit event)
      { p with
        counters := { p.counters with emitted := p.counters.emitted + 1 }
        calls := p.calls ++ [⟨event, .counted⟩] }
  | accept (i : ℕ) (event : ε) (hcall : p.calls[i]? = some ⟨event, .counted⟩)
      (hreceiving : p.channel.receiving = true)
      (hroom : p.channel.queue.length < p.channel.capacity) :
      Moves toNdjson p (.proceed i)
        { p with
          channel := { p.channel with
            queue := p.channel.queue ++ [.event event]
            entered := p.channel.entered ++ [.event event] }
          calls := p.calls.set i ⟨event, .accepted⟩ }
  | refuse (i : ℕ) (event : ε) (hcall : p.calls[i]? = some ⟨event, .counted⟩)
      (hfull : p.channel.receiving = true → p.channel.capacity ≤ p.channel.queue.length) :
      Moves toNdjson p (.proceed i) { p with calls := p.calls.set i ⟨event, .refused⟩ }
  | countIn (i : ℕ) (event : ε) (hcall : p.calls[i]? = some ⟨event, .accepted⟩) :
      Moves toNdjson p (.proceed i)
        { p with
          counters := { p.counters with queued := p.counters.queued + 1 }
          calls := p.calls.set i ⟨event, .returned true⟩ }
  | countDropped (i : ℕ) (event : ε) (hcall : p.calls[i]? = some ⟨event, .refused⟩) :
      Moves toNdjson p (.proceed i)
        { p with
          counters := { p.counters with dropped := p.counters.dropped + 1 }
          calls := p.calls.set i ⟨event, .returned false⟩ }
  | mark (hsending : p.channel.sending = true) (hreceiving : p.channel.receiving = true)
      (hroom : p.channel.queue.length < p.channel.capacity) :
      Moves toNdjson p .shutdown
        { p with
          channel := { p.channel with
            queue := p.channel.queue ++ [.shutdown]
            entered := p.channel.entered ++ [.shutdown] } }
  | drop (hcalls : ∀ call ∈ p.calls, ∃ accepted, call.phase = .returned accepted) :
      Moves toNdjson p .drop { p with channel := p.channel.closeSender }
  | turn (accepts : ℕ → Bool) (writer : WriterPhase ε) (errors : UInt64) (hturn : Turns p writer) :
      Moves toNdjson p (.write accepts)
        { p with writer := writer, counters := { p.counters with writeErrors := errors } }
  | take (accepts : ℕ → Bool) (draining : Bool) (event : ε) (rest : List (Message ε))
      (hwriter : Receives p draining) (hqueue : p.channel.queue = .event event :: rest) :
      Moves toNdjson p (.write accepts)
        { p with
          channel := { p.channel with queue := rest, taken := p.channel.taken ++ [.event event] }
          writer := .received draining event }
  | stop (accepts : ℕ → Bool) (draining : Bool) (rest : List (Message ε))
      (hwriter : Receives p draining) (hqueue : p.channel.queue = .shutdown :: rest) :
      Moves toNdjson p (.write accepts)
        { p with
          channel := { p.channel with queue := rest, taken := p.channel.taken ++ [.shutdown] }
          writer := if draining then .leaving else .draining }
  | countOut (accepts : ℕ → Bool) (draining : Bool) (event : ε)
      (hwriter : p.writer = .received draining event) :
      Moves toNdjson p (.write accepts)
        { p with
          counters := { p.counters with queued := p.counters.queued - 1 }
          writer := .writing draining event }
  | write (accepts : ℕ → Bool) (draining : Bool) (event : ε)
      (hwriter : p.writer = .writing draining event) :
      Moves toNdjson p (.write accepts)
        { writeEvent toNdjson accepts event p with
          writer := if draining then .draining else .polling }
  | close (accepts : ℕ → Bool) (errors : UInt64) (hwriter : p.writer = .leaving) :
      Moves toNdjson p (.write accepts)
        { p with
          channel := p.channel.closeReceiver
          counters := { p.counters with writeErrors := errors }
          writer := .ended }

variable (toNdjson : ε → Option β)

/-- What the main loop does with a message, in either of its two calls of the channel. -/
theorem onMessage_moves {p : EventPipeline ε β} (accepts : ℕ → Bool)
    (hwriter : p.writer = .polling ∨ p.writer = .parked) {message : Message ε}
    {rest : List (Message ε)} (hqueue : p.channel.queue = message :: rest) :
    Moves toNdjson p (.write accepts)
      (EventPipeline.onMessage { p with channel := { p.channel with
        queue := rest, taken := p.channel.taken ++ [message] } } message) := by
  cases message with
  | event event => exact .take accepts false event rest hwriter hqueue
  | shutdown => exact .stop accepts false rest hwriter hqueue

theorem writerStep_moves (p : EventPipeline ε β) (accepts : ℕ → Bool) :
    Moves toNdjson p (.write accepts) (p.writerStep toNdjson accepts) := by
  cases hwriter : p.writer with
  | polling =>
    obtain ⟨message, rest, hqueue, hrecv⟩ | ⟨hqueue, hrecv⟩ := p.channel.tryRecv_cases
    · simp only [EventPipeline.writerStep, hrecv, hwriter]
      exact onMessage_moves toNdjson accepts (Or.inl hwriter) hqueue
    · cases hsending : p.channel.sending with
      | true =>
        simp only [EventPipeline.writerStep, hrecv, hwriter, hsending, if_true]
        exact .turn accepts .lull _ (.rest hwriter hqueue)
      | false =>
        simp only [EventPipeline.writerStep, hrecv, hwriter, hsending, Bool.false_eq_true, if_false]
        exact .turn accepts .draining _ (.cut (Or.inl hwriter) hqueue hsending)
  | lull =>
    simp only [EventPipeline.writerStep, hwriter]
    exact .turn accepts .parked _ (.park hwriter)
  | parked =>
    obtain ⟨message, rest, hqueue, hrecv⟩ | ⟨hqueue, hrecv⟩ := p.channel.tryRecv_cases
    · simp only [EventPipeline.writerStep, hrecv, hwriter]
      exact onMessage_moves toNdjson accepts (Or.inr hwriter) hqueue
    · cases hsending : p.channel.sending with
      | true =>
        simp only [EventPipeline.writerStep, hrecv, hwriter, hsending, if_true]
        exact .idle _ (fun _ => by simp) (fun _ _ => Or.inl ⟨hwriter, hqueue⟩)
      | false =>
        simp only [EventPipeline.writerStep, hrecv, hwriter, hsending, Bool.false_eq_true, if_false]
        exact .turn accepts .draining _ (.cut (Or.inr hwriter) hqueue hsending)
  | received draining event =>
    simp only [EventPipeline.writerStep, hwriter]
    exact .countOut accepts draining event hwriter
  | writing draining event =>
    simp only [EventPipeline.writerStep, hwriter]
    exact .write accepts draining event hwriter
  | draining =>
    obtain ⟨message, rest, hqueue, hrecv⟩ | ⟨hqueue, hrecv⟩ := p.channel.tryRecv_cases
    · simp only [EventPipeline.writerStep, hrecv, hwriter]
      cases message with
      | event event => exact .take accepts true event rest hwriter hqueue
      | shutdown => exact .stop accepts true rest hwriter hqueue
    · have hfinish : Moves toNdjson p (.write accepts) { p with writer := .leaving } :=
        .turn accepts .leaving _ (.finish hwriter hqueue)
      cases hsending : p.channel.sending with
      | true =>
        simp only [EventPipeline.writerStep, hrecv, hwriter, hsending, if_true]
        exact hfinish
      | false =>
        simp only [EventPipeline.writerStep, hrecv, hwriter, hsending, Bool.false_eq_true, if_false]
        exact hfinish
  | leaving =>
    simp only [EventPipeline.writerStep, hwriter]
    exact .close accepts _ hwriter
  | ended =>
    simp only [EventPipeline.writerStep, hwriter]
    exact .idle _ (fun _ => by simp) (fun _ _ => Or.inr hwriter)

theorem emitStep_moves (p : EventPipeline ε β) (i : ℕ) :
    Moves toNdjson p (.proceed i) (p.emitStep i).1 := by
  cases hcall : p.calls[i]? with
  | none =>
    simp only [EventPipeline.emitStep, hcall]
    exact .done i (fun _ h => by simp [hcall] at h)
  | some call =>
    obtain ⟨event, phase⟩ := call
    cases phase with
    | counted =>
      simp only [EventPipeline.emitStep, hcall]
      obtain ⟨hsent, hreceiving, hroom, heq⟩ | ⟨hsent, heq, hfull⟩ :=
        p.channel.trySend_cases (.event event)
      · rw [heq, if_pos hsent]
        exact .accept i event hcall hreceiving hroom
      · rw [heq, if_neg hsent]
        exact .refuse i event hcall hfull
    | accepted =>
      simp only [EventPipeline.emitStep, hcall]
      exact .countIn i event hcall
    | refused =>
      simp only [EventPipeline.emitStep, hcall]
      exact .countDropped i event hcall
    | returned accepted =>
      simp only [EventPipeline.emitStep, hcall]
      refine .done i (fun call h => ?_)
      rw [hcall] at h
      exact ⟨accepted, congrArg EmitCall.phase (Option.some.inj h).symm⟩

theorem step_moves (p : EventPipeline ε β) (action : Action ε) :
    Moves toNdjson p action (step toNdjson p action).1 := by
  cases action with
  | emit event =>
    simp only [step]
    split_ifs with hsending
    · exact .emit event hsending
    · exact .idle _ (fun _ => by simp) (fun _ h => by simp at h)
  | proceed call => exact emitStep_moves toNdjson p call
  | shutdown =>
    simp only [step]
    split_ifs with hsending
    · obtain ⟨-, hreceiving, hroom, heq⟩ | ⟨-, heq, -⟩ := p.channel.trySend_cases .shutdown
      · rw [heq]
        exact .mark hsending hreceiving hroom
      · rw [heq]
        exact .idle _ (fun _ => by simp) (fun _ h => by simp at h)
    · exact .idle _ (fun _ => by simp) (fun _ h => by simp at h)
  | drop =>
    simp only [step]
    split_ifs with hcalls
    · refine .drop (fun call hmem => ?_)
      have hreturned := List.all_eq_true.1 hcalls call hmem
      cases hphase : call.phase with
      | returned accepted => exact ⟨accepted, rfl⟩
      | _ => simp [hphase] at hreturned
    · exact .idle _ (fun _ => by simp) (fun _ h => by simp at h)
  | write accepts => exact writerStep_moves toNdjson p accepts

structure Sound (p : EventPipeline ε β) : Prop where
  fifo : p.channel.Fifo
  receiving_iff : p.channel.receiving = false ↔ p.writer = .ended
  inHand : p.writer.inHand <:+ eventsOf p.channel.taken
  /-- In the main loop no marker has been met. -/
  unmarked : p.writer.pastLoop = false → Message.shutdown ∉ p.channel.taken
  /-- Behind it, everything in front of the first marker has been taken. -/
  passed : p.writer.pastLoop = true → beforeShutdown p.channel.entered <+: p.channel.taken ∧
    (Message.shutdown ∈ p.channel.entered ∨ p.channel.sending = false)
  quiet : p.channel.sending = false →
    ∀ call ∈ p.calls, ∃ accepted, call.phase = .returned accepted

theorem sound_spawn (sinks capacity : ℕ) :
    Sound (EventPipeline.spawn sinks capacity : EventPipeline ε β) where
  fifo := Channel.fifo_new _
  receiving_iff := by simp [EventPipeline.spawn, Channel.new]
  inHand := List.suffix_rfl
  unmarked _ := by simp [EventPipeline.spawn, Channel.new]
  passed h := by simp [EventPipeline.spawn, WriterPhase.pastLoop] at h
  quiet h := by simp [EventPipeline.spawn, Channel.new] at h

namespace Sound

variable {p : EventPipeline ε β}

theorem receiving (h : Sound p) (hwriter : p.writer ≠ .ended) : p.channel.receiving = true := by
  by_contra hclosed
  exact hwriter (h.receiving_iff.1 (by simpa using hclosed))

theorem ordered (h : Sound p) (hwriter : p.writer ≠ .ended) :
    p.channel.entered = p.channel.taken ++ p.channel.queue :=
  h.fifo.ordered (h.receiving hwriter)

theorem handed_append (h : Sound p) :
    eventsOf p.channel.taken = p.handed ++ p.writer.inHand := by
  obtain ⟨front, hfront⟩ := h.inHand
  rw [EventPipeline.handed, ← hfront, List.length_append, Nat.add_sub_cancel, List.take_left]

theorem handed_of_inHand (h : Sound p) (hhand : p.writer.inHand = []) :
    p.handed = eventsOf p.channel.taken := by
  rw [h.handed_append, hhand, List.append_nil]

/-- A message that enters behind the main loop is behind the first marker. -/
theorem passed_append (h : Sound p) (hpast : p.writer.pastLoop = true)
    (hsending : p.channel.sending = true) (message : Message ε) :
    beforeShutdown (p.channel.entered ++ [message]) <+: p.channel.taken ∧
      (Message.shutdown ∈ p.channel.entered ++ [message] ∨ p.channel.sending = false) := by
  obtain ⟨htaken, hmarked⟩ := h.passed hpast
  have hmem := hmarked.resolve_right (by simp [hsending])
  rw [beforeShutdown_append hmem]
  exact ⟨htaken, Or.inl (List.mem_append_left _ hmem)⟩

theorem sending_of_call (h : Sound p) {i : ℕ} {call : EmitCall ε} (hcall : p.calls[i]? = some call)
    (hphase : ∀ accepted, call.phase ≠ .returned accepted) : p.channel.sending = true := by
  by_contra hclosed
  obtain ⟨accepted, hreturned⟩ := h.quiet (by simpa using hclosed) call (List.mem_of_getElem? hcall)
  exact hphase accepted hreturned

/-- Only the calls change, and one that has returned stays returned. -/
theorem of_calls (h : Sound p) {counters : PipelineCounters} {calls : List (EmitCall ε)}
    (hquiet : p.channel.sending = true) :
    Sound { p with counters := counters, calls := calls } :=
  ⟨h.fifo, h.receiving_iff, h.inHand, h.unmarked, h.passed, fun hclosed =>
    absurd hquiet (by simpa using hclosed)⟩

theorem enters (h : Sound p) {calls : List (EmitCall ε)} (message : Message ε)
    (hsending : p.channel.sending = true) (hreceiving : p.channel.receiving = true)
    (hroom : p.channel.queue.length < p.channel.capacity) :
    Sound { p with
      channel := { p.channel with
        queue := p.channel.queue ++ [message]
        entered := p.channel.entered ++ [message] }
      calls := calls } := by
  have hfifo := h.fifo.trySend message
  obtain ⟨-, -, -, heq⟩ | ⟨-, -, hfull⟩ := p.channel.trySend_cases message
  · rw [heq] at hfifo
    exact ⟨hfifo, h.receiving_iff, h.inHand, h.unmarked,
      fun hpast => h.passed_append hpast hsending message, fun hclosed =>
      absurd hsending (by simpa using hclosed)⟩
  · exact absurd hroom (not_lt.2 (hfull hreceiving))

theorem fifo_take (h : Sound p) {message : Message ε} {rest : List (Message ε)}
    (hqueue : p.channel.queue = message :: rest) :
    Channel.Fifo { p.channel with queue := rest, taken := p.channel.taken ++ [message] } := by
  have hfifo := h.fifo.tryRecv
  rw [Channel.tryRecv, hqueue] at hfifo
  exact hfifo

theorem notEnded_of_queue (h : Sound p) {message : Message ε} {rest : List (Message ε)}
    (hqueue : p.channel.queue = message :: rest) : p.writer ≠ .ended := by
  intro hended
  rw [h.fifo.closed (h.receiving_iff.2 hended)] at hqueue
  exact absurd hqueue (by simp)

end Sound

theorem Receives.cases {p : EventPipeline ε β} {draining : Bool} (h : Receives p draining) :
    (p.writer = .draining ∧ draining = true) ∨ (p.writer = .polling ∧ draining = false) ∨
      (p.writer = .parked ∧ draining = false) := by
  cases draining with
  | true => exact Or.inl ⟨h, rfl⟩
  | false =>
    have hwriter : p.writer = .polling ∨ p.writer = .parked := h
    exact Or.inr (hwriter.imp (fun hpolling => ⟨hpolling, rfl⟩) fun hparked => ⟨hparked, rfl⟩)

theorem Receives.pastLoop {p : EventPipeline ε β} {draining : Bool} (h : Receives p draining) :
    p.writer.pastLoop = draining := by
  obtain ⟨hwriter, rfl⟩ | ⟨hwriter, rfl⟩ | ⟨hwriter, rfl⟩ := h.cases
  · rw [hwriter]
    rfl
  · rw [hwriter]
    rfl
  · rw [hwriter]
    rfl

theorem Receives.inHand {p : EventPipeline ε β} {draining : Bool} (h : Receives p draining) :
    p.writer.inHand = [] := by
  obtain ⟨hwriter, rfl⟩ | ⟨hwriter, rfl⟩ | ⟨hwriter, rfl⟩ := h.cases
  · rw [hwriter]
    rfl
  · rw [hwriter]
    rfl
  · rw [hwriter]
    rfl

theorem Turns.inHand {p : EventPipeline ε β} {writer : WriterPhase ε} (h : Turns p writer) :
    p.writer.inHand = [] ∧ writer.inHand = [] ∧ p.writer ≠ .ended ∧ writer ≠ .ended := by
  cases h with
  | rest hwriter _ => simp [hwriter, WriterPhase.inHand]
  | park hwriter => simp [hwriter, WriterPhase.inHand]
  | cut hwriter _ _ => rcases hwriter with hwriter | hwriter <;> simp [hwriter, WriterPhase.inHand]
  | finish hwriter _ => simp [hwriter, WriterPhase.inHand]

theorem writeEvent_eq (toNdjson : ε → Option β) (accepts : ℕ → Bool) (event : ε)
    (p : EventPipeline ε β) : ∃ counters sinks,
      writeEvent toNdjson accepts event p = { p with counters := counters, sinks := sinks } := by
  unfold writeEvent
  cases toNdjson event with
  | none => exact ⟨_, _, rfl⟩
  | some line => exact ⟨_, _, rfl⟩

theorem Sound.goesOn {p : EventPipeline ε β} (h : Sound p) {writer : WriterPhase ε}
    {counters : PipelineCounters} {sinks : List (List (β × Bool))} (hended : p.writer ≠ .ended)
    (hended' : writer ≠ .ended) (hhand : writer.inHand <:+ p.writer.inHand)
    (hpast : p.writer.pastLoop = writer.pastLoop) :
    Sound { p with writer := writer, counters := counters, sinks := sinks } := by
  refine ⟨h.fifo, ?_, hhand.trans h.inHand, ?_, ?_, h.quiet⟩
  · simp [h.receiving hended, hended']
  · exact fun hloop => h.unmarked (hpast.trans hloop)
  · exact fun hbehind => h.passed (hpast.trans hbehind)

theorem Sound.turn {p : EventPipeline ε β} (h : Sound p) {writer : WriterPhase ε}
    (hturn : Turns p writer) (counters : PipelineCounters) :
    Sound { p with writer := writer, counters := counters } := by
  obtain ⟨-, hhand, hended, hended'⟩ := hturn.inHand
  refine ⟨h.fifo, ?_, by simp [hhand], ?_, ?_, h.quiet⟩
  · simp [h.receiving hended, hended']
  · intro hloop
    apply h.unmarked
    cases hturn with
    | rest hwriter _ => rw [hwriter]; rfl
    | park hwriter => rw [hwriter]; rfl
    | cut _ _ _ => simp [WriterPhase.pastLoop] at hloop
    | finish _ _ => simp [WriterPhase.pastLoop] at hloop
  · intro hpast
    cases hturn with
    | rest _ _ => simp [WriterPhase.pastLoop] at hpast
    | park _ => simp [WriterPhase.pastLoop] at hpast
    | cut hwriter hqueue hsending =>
      have hentered := h.ordered hended
      rw [hqueue, List.append_nil] at hentered
      have hunmarked : Message.shutdown ∉ p.channel.taken := by
        apply h.unmarked
        rcases hwriter with hwriter | hwriter <;> rw [hwriter] <;> rfl
      rw [hentered, beforeShutdown_of_forall hunmarked]
      exact ⟨List.prefix_rfl, Or.inr hsending⟩
    | finish hwriter _ =>
      apply h.passed
      rw [hwriter]
      rfl

theorem Sound.moves {toNdjson : ε → Option β} {p q : EventPipeline ε β} {action : Action ε}
    (h : Sound p) (hmoves : Moves toNdjson p action q) : Sound q := by
  cases hmoves with
  | idle => exact h
  | done => exact h
  | emit event hsending => exact h.of_calls hsending
  | accept i event hcall hreceiving hroom =>
    exact h.enters (.event event) (h.sending_of_call hcall (by simp)) hreceiving hroom
  | refuse i event hcall _ => exact h.of_calls (h.sending_of_call hcall (by simp))
  | countIn i event hcall => exact h.of_calls (h.sending_of_call hcall (by simp))
  | countDropped i event hcall => exact h.of_calls (h.sending_of_call hcall (by simp))
  | mark hsending hreceiving hroom => exact h.enters .shutdown hsending hreceiving hroom
  | drop hcalls =>
    refine ⟨h.fifo.closeSender, h.receiving_iff, h.inHand, h.unmarked, ?_, fun _ => hcalls⟩
    intro hpast
    exact ⟨(h.passed hpast).1, Or.inr rfl⟩
  | turn accepts writer errors hturn => exact h.turn hturn _
  | take accepts draining event rest hwriter hqueue =>
    refine ⟨h.fifo_take hqueue, ?_, ?_, ?_, ?_, h.quiet⟩
    · simp [h.receiving (h.notEnded_of_queue hqueue)]
    · simp [WriterPhase.inHand]
    · intro hloop
      have hunmarked := h.unmarked (hwriter.pastLoop.trans hloop)
      simpa using hunmarked
    · intro hpast
      obtain ⟨htaken, hmarked⟩ := h.passed (hwriter.pastLoop.trans hpast)
      exact ⟨htaken.trans (List.prefix_append _ _), hmarked⟩
  | stop accepts draining rest hwriter hqueue =>
    have hnot := h.notEnded_of_queue hqueue
    have hentered := h.ordered hnot
    rw [hqueue] at hentered
    have hpasses : beforeShutdown p.channel.entered <+: p.channel.taken := by
      cases draining with
      | true => exact (h.passed hwriter.pastLoop).1
      | false =>
        rw [hentered, beforeShutdown_append_shutdown (h.unmarked hwriter.pastLoop)]
    refine ⟨h.fifo_take hqueue, ?_, ?_, ?_, ?_, h.quiet⟩
    · cases draining <;> simp [h.receiving hnot]
    · cases draining <;> simp [WriterPhase.inHand]
    · intro hloop
      cases draining <;> simp [WriterPhase.pastLoop] at hloop
    · intro _
      refine ⟨hpasses.trans (List.prefix_append _ _), Or.inl ?_⟩
      rw [hentered]
      simp
  | countOut accepts draining event hwriter =>
    exact h.goesOn (by simp [hwriter]) (by simp) (by simp [hwriter, WriterPhase.inHand])
      (by simp [hwriter, WriterPhase.pastLoop])
  | write accepts draining event hwriter =>
    obtain ⟨counters, sinks, heq⟩ := writeEvent_eq toNdjson accepts event p
    rw [heq]
    cases draining with
    | true =>
      exact h.goesOn (by simp [hwriter]) (by simp) (by simp [WriterPhase.inHand])
        (by simp [hwriter, WriterPhase.pastLoop])
    | false =>
      exact h.goesOn (by simp [hwriter]) (by simp) (by simp [WriterPhase.inHand])
        (by simp [hwriter, WriterPhase.pastLoop])
  | close accepts errors hwriter =>
    have hpast : p.writer.pastLoop = true := by
      rw [hwriter]
      rfl
    refine ⟨h.fifo.closeReceiver, ?_, List.nil_suffix, ?_, fun _ => h.passed hpast, h.quiet⟩
    · simp [Channel.closeReceiver]
    · intro hloop
      simp [WriterPhase.pastLoop] at hloop

theorem sound_after (sinks capacity : ℕ) (actions : List (Action ε)) :
    Sound (after toNdjson sinks capacity actions) :=
  Runs.invariant (step toNdjson) Sound
    (fun p action h => h.moves (step_moves toNdjson p action)) (sound_spawn sinks capacity) actions

end CyberSentinel.Eventlog
