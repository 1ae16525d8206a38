import CyberSentinel.EventlogDelivery

/-!
# Events behind a marker

What is lost is what stands in the channel when the receiver goes: events behind a second marker,
and events accepted after the final drain has stopped.
-/

namespace CyberSentinel.Eventlog

open Channels

variable {ε β : Type*} (toNdjson : ε → Option β)

/-- The final drain leaves no event behind: a further marker it stops at has no event behind it, and
no call is accepted once it has stopped. -/
def LeavesNothing (p : EventPipeline ε β) : Action ε → Prop
  | .write _ => p.writer = .draining → ∀ rest, p.channel.queue = .shutdown :: rest →
      eventsOf rest = []
  | .proceed i => p.writer = .leaving → p.channel.queue.length < p.channel.capacity →
      ∀ event, p.calls[i]? ≠ some ⟨event, .counted⟩
  | _ => True

def Drained (p : EventPipeline ε β) : Prop :=
  p.writer = .leaving ∨ p.writer = .ended →
    eventsOf p.channel.taken = eventsOf p.channel.entered

theorem Drained.of_receiving {p : EventPipeline ε β} (hleaving : p.writer ≠ .leaving)
    (hended : p.writer ≠ .ended) : Drained p :=
  fun h => absurd h (by simp [hleaving, hended])

theorem Receives.drained {p : EventPipeline ε β} {draining : Bool} (h : Receives p draining) :
    Drained p := by
  obtain ⟨hwriter, -⟩ | ⟨hwriter, -⟩ | ⟨hwriter, -⟩ := h.cases
  · exact .of_receiving (by simp [hwriter]) (by simp [hwriter])
  · exact .of_receiving (by simp [hwriter]) (by simp [hwriter])
  · exact .of_receiving (by simp [hwriter]) (by simp [hwriter])

theorem leavesNothing_of_not_draining {p : EventPipeline ε β} (accepts : ℕ → Bool)
    (hwriter : p.writer ≠ .draining) : LeavesNothing p (.write accepts) :=
  fun hdraining => absurd hdraining hwriter

/-- Neither before nor after the step has the writer stopped receiving. -/
theorem drained_iff_of_receiving {p q : EventPipeline ε β} {action : Action ε} (hp : Drained p)
    (hq : Drained q) (hleaves : LeavesNothing p action) :
    Drained q ↔ Drained p ∧ LeavesNothing p action :=
  iff_of_true hq ⟨hp, hleaves⟩

/-- What has been taken is short of an event that has just entered. -/
theorem taken_ne_entered_event {p : EventPipeline ε β} (h : Sound p) (event : ε) :
    eventsOf p.channel.taken ≠ eventsOf (p.channel.entered ++ [.event event]) := by
  intro heq
  have hsub : (eventsOf p.channel.taken).length ≤ (eventsOf p.channel.entered).length := by
    obtain ⟨rest, hrest⟩ := h.fifo.taken_prefix
    rw [← hrest, eventsOf_append, List.length_append]
    exact Nat.le_add_right _ _
  rw [heq] at hsub
  simp at hsub

/-- A turn of the loop that receives nothing: only an empty channel lets the final drain leave. -/
theorem drained_turn {p : EventPipeline ε β} (h : Sound p) {writer : WriterPhase ε}
    (errors : UInt64)
    (hturn : Turns p writer) (accepts : ℕ → Bool) :
    Drained { p with writer := writer, counters := { p.counters with writeErrors := errors } } ↔
      Drained p ∧ LeavesNothing p (.write accepts) := by
  cases hturn with
  | rest hwriter _ =>
    exact drained_iff_of_receiving (.of_receiving (by simp [hwriter]) (by simp [hwriter]))
      (.of_receiving (by simp) (by simp)) (leavesNothing_of_not_draining _ (by simp [hwriter]))
  | park hwriter =>
    exact drained_iff_of_receiving (.of_receiving (by simp [hwriter]) (by simp [hwriter]))
      (.of_receiving (by simp) (by simp)) (leavesNothing_of_not_draining _ (by simp [hwriter]))
  | cut hwriter _ _ =>
    have hdrained : Drained p := (show Receives p false from hwriter).drained
    refine drained_iff_of_receiving hdrained (.of_receiving (by simp) (by simp))
      (leavesNothing_of_not_draining _ ?_)
    rcases hwriter with hwriter | hwriter
    · simp [hwriter]
    · simp [hwriter]
  | finish hwriter hqueue =>
    apply drained_iff_of_receiving (.of_receiving (by simp [hwriter]) (by simp [hwriter]))
    · intro _
      change eventsOf p.channel.taken = eventsOf p.channel.entered
      rw [h.ordered (by simp [hwriter]), hqueue, List.append_nil]
    · intro _ rest hmarker
      exact absurd (hqueue.symm.trans hmarker) (by simp)

/-- The final drain stops at a further marker, drained just when no event stands behind it. -/
theorem drained_stop {p : EventPipeline ε β} (h : Sound p) {rest : List (Message ε)}
    (hwriter : p.writer = .draining)
    (hqueue : p.channel.queue = .shutdown :: rest) (accepts : ℕ → Bool) :
    Drained { p with
        channel := { p.channel with queue := rest, taken := p.channel.taken ++ [.shutdown] }
        writer := .leaving } ↔
      Drained p ∧ LeavesNothing p (.write accepts) := by
  have hordered := h.ordered (h.notEnded_of_queue hqueue)
  rw [hqueue] at hordered
  constructor
  · intro hdrained
    refine ⟨.of_receiving (by simp [hwriter]) (by simp [hwriter]), fun _ rest' hmarker => ?_⟩
    obtain rfl : rest = rest' := by simpa using hqueue.symm.trans hmarker
    have heq : eventsOf (p.channel.taken ++ [.shutdown]) = eventsOf p.channel.entered :=
      hdrained (Or.inl rfl)
    rw [hordered] at heq
    simpa using heq
  · rintro ⟨-, hleaves⟩ -
    have hrest := hleaves hwriter rest hqueue
    change eventsOf (p.channel.taken ++ [.shutdown]) = eventsOf p.channel.entered
    rw [hordered]
    simp [hrest]

/-- A step leaves the writer drained just when it was and the step leaves nothing behind. -/
theorem drained_moves {toNdjson : ε → Option β} {p q : EventPipeline ε β} {action : Action ε}
    (h : Sound p) (hmoves : Moves toNdjson p action q) :
    Drained q ↔ Drained p ∧ LeavesNothing p action := by
  cases hmoves with
  | idle _ hother hwrites =>
    refine (and_iff_left ?_).symm
    cases action with
    | write accepts =>
      apply leavesNothing_of_not_draining
      rcases hwrites accepts rfl with ⟨hwriter, -⟩ | hwriter
      · simp [hwriter]
      · simp [hwriter]
    | proceed i => exact absurd rfl (hother i)
    | _ => trivial
  | done i hcall =>
    refine (and_iff_left ?_).symm
    intro _ _ event hcounted
    obtain ⟨accepted, hreturned⟩ := hcall _ hcounted
    exact absurd hreturned (by simp)
  | emit event hsending => exact (and_iff_left trivial).symm
  | accept i event hcall hreceiving hroom =>
    have hended : p.writer ≠ .ended := fun hended =>
      absurd hreceiving (by simp [h.receiving_iff.2 hended])
    by_cases hleaving : p.writer = .leaving
    · refine iff_of_false ?_ (fun hleaves => hleaves.2 hleaving hroom event hcall)
      exact fun hdrained => taken_ne_entered_event h event (hdrained (Or.inl hleaving))
    · exact drained_iff_of_receiving (.of_receiving hleaving hended) (.of_receiving hleaving hended)
        (fun hnot => absurd hnot hleaving)
  | refuse i event hcall hfull =>
    refine (and_iff_left ?_).symm
    intro hleaving hroom
    exact absurd hroom (not_lt.2 (hfull (h.receiving (by simp [hleaving]))))
  | countIn i event hcall =>
    refine (and_iff_left ?_).symm
    intro _ _ other
    simp [hcall]
  | countDropped i event hcall =>
    refine (and_iff_left ?_).symm
    intro _ _ other
    simp [hcall]
  | mark hsending hreceiving hroom => simp [Drained, LeavesNothing]
  | drop hcalls => exact (and_iff_left trivial).symm
  | turn accepts writer errors hturn => exact drained_turn h errors hturn accepts
  | take _ draining event rest hwriter hqueue =>
    apply drained_iff_of_receiving hwriter.drained (.of_receiving (by simp) (by simp))
    intro _ rest' hmarker
    exact absurd (hqueue.symm.trans hmarker) (by simp)
  | stop accepts draining rest hwriter hqueue =>
    cases draining with
    | true => exact drained_stop h hwriter hqueue accepts
    | false =>
      refine drained_iff_of_receiving hwriter.drained (.of_receiving (by simp) (by simp))
        (leavesNothing_of_not_draining _ ?_)
      have hloop : p.writer = .polling ∨ p.writer = .parked := hwriter
      rcases hloop with hloop | hloop <;> simp [hloop]
  | countOut _ draining event hwriter =>
    exact drained_iff_of_receiving (.of_receiving (by simp [hwriter]) (by simp [hwriter]))
      (.of_receiving (by simp) (by simp)) (leavesNothing_of_not_draining _ (by simp [hwriter]))
  | write _ draining event hwriter =>
    refine drained_iff_of_receiving (.of_receiving (by simp [hwriter]) (by simp [hwriter])) ?_
      (leavesNothing_of_not_draining _ (by simp [hwriter]))
    cases draining with
    | true => exact .of_receiving (by simp) (by simp)
    | false => exact .of_receiving (by simp) (by simp)
  | close accepts errors hwriter =>
    have hleaves := leavesNothing_of_not_draining (p := p) accepts (by simp [hwriter])
    refine (Iff.intro ?_ ?_).trans (and_iff_left hleaves).symm
    · exact fun hdrained _ => hdrained (Or.inr rfl)
    · exact fun hdrained _ => hdrained (Or.inl hwriter)

theorem length_of_returned {calls : List (EmitCall ε)}
    (h : ∀ call ∈ calls, ∃ accepted, call.phase = .returned accepted) :
    calls.length =
      calls.countP EmitCall.isDropped + (calls.filterMap EmitCall.acceptedEvent).length := by
  induction calls with
  | nil => rfl
  | cons call rest ih =>
    have hrest := ih (fun other hmem => h other (List.mem_cons_of_mem _ hmem))
    obtain ⟨accepted, hphase⟩ := h call List.mem_cons_self
    cases accepted with
    | true =>
      have haccepted : call.acceptedEvent = some call.event := by
        simp [EmitCall.acceptedEvent, hphase]
      have hdropped : call.isDropped = false := by simp [EmitCall.isDropped, hphase]
      rw [List.filterMap_cons_some haccepted, List.countP_cons_of_neg (by simp [hdropped]),
        List.length_cons, List.length_cons, hrest]
      rfl
    | false =>
      have haccepted : call.acceptedEvent = none := by simp [EmitCall.acceptedEvent, hphase]
      have hdropped : call.isDropped = true := by simp [EmitCall.isDropped, hphase]
      rw [List.filterMap_cons_none haccepted, List.countP_cons_of_pos hdropped, List.length_cons,
        hrest]
      omega

/-- Once the writer has ended, every accepted event has been given to every sink just when the final
drain left nothing behind. When all calls have returned, that is to say that the calls are the
dropped ones and those whose event was handed over. -/
theorem accepted_all_handed_iff (hjson : ∀ event, (toNdjson event).isSome) (sinks capacity : ℕ)
    (actions : List (Action ε))
    (hended : (after toNdjson sinks capacity actions).writer = .ended) :
    let p := after toNdjson sinks capacity actions
    let allHanded := (p.calls.filterMap EmitCall.acceptedEvent).Perm p.handed
    (∀ log ∈ p.sinks, log.map (fun entry => some entry.1) = p.handed.map toNdjson) ∧
    (allHanded ↔ Runs.Along (step toNdjson) LeavesNothing (EventPipeline.spawn sinks capacity)
      actions) ∧
    ((∀ call ∈ p.calls, ∃ accepted, call.phase = .returned accepted) →
      (allHanded ↔ p.calls.length = p.calls.countP EmitCall.isDropped + p.handed.length)) := by
  intro p allHanded
  have hsound : Sound p := sound_after toNdjson sinks capacity actions
  have haccepted := (counted_after toNdjson sinks capacity actions).accepted_perm
  -- the accepted events are those that entered, of which the writer has had a beginning
  have hlength : allHanded ↔
      (p.calls.filterMap EmitCall.acceptedEvent).length = p.handed.length := by
    refine ⟨List.Perm.length_eq, fun hlength => ?_⟩
    rw [haccepted.length_eq] at hlength
    have hall : p.handed = eventsOf p.channel.entered :=
      hsound.handed_prefix.eq_of_length hlength.symm
    change List.Perm _ _
    rw [hall]
    exact haccepted
  have hdrained : allHanded ↔ Drained p := by
    rw [hlength, haccepted.length_eq, hsound.handed_of_ended hended]
    have hsub : eventsOf p.channel.taken <+: eventsOf p.channel.entered := by
      obtain ⟨rest, hrest⟩ := hsound.fifo.taken_prefix
      rw [← hrest, eventsOf_append]
      exact List.prefix_append _ _
    constructor
    · exact fun heq _ => hsub.eq_of_length heq.symm
    · exact fun hdrained => congrArg List.length (hdrained (Or.inr hended)).symm
  refine ⟨(fed_after hjson sinks capacity actions).lines_eq, ?_, ?_⟩
  · have hrun := Runs.along_iff_of_step (step toNdjson) Sound Drained LeavesNothing
      (fun p action h => h.moves (step_moves toNdjson p action))
      (fun p action h => drained_moves h (step_moves toNdjson p action))
      (sound_spawn sinks capacity) actions
    have hstart : Drained (EventPipeline.spawn sinks capacity : EventPipeline ε β) :=
      .of_receiving (by simp [EventPipeline.spawn]) (by simp [EventPipeline.spawn])
    exact hdrained.trans (hrun.trans (and_iff_right hstart))
  · intro hreturned
    rw [hlength, length_of_returned hreturned]
    omega

/-- An event behind the only marker is still written. -/
theorem accepted_all_handed_iff_one_marker :
    let actions := [.shutdown, .emit 7, .proceed 0, .proceed 0] ++ writes 6 (fun _ => true)
    let p := after (some : ℕ → Option ℕ) 1 4 actions
    p.writer = .ended ∧ (p.calls.filterMap EmitCall.acceptedEvent).Perm p.handed ∧
      Runs.Along (step (some : ℕ → Option ℕ)) LeavesNothing (EventPipeline.spawn 1 4) actions := by
  intro actions p
  have hended : p.writer = .ended := by decide
  have h := accepted_all_handed_iff (some : ℕ → Option ℕ) (fun _ => rfl) 1 4 actions hended
  have hperm : (p.calls.filterMap EmitCall.acceptedEvent).Perm p.handed := by decide
  exact ⟨hended, hperm, h.2.1.1 hperm⟩

/-- Two markers, and an event accepted behind the second one before the writer runs: the call
returned `true`, and the event is never written. -/
theorem event_behind_two_markers_lost :
    let p := after (some : ℕ → Option ℕ) 1 4
      ([.shutdown, .shutdown, .emit 7, .proceed 0, .proceed 0] ++ writes 3 (fun _ => true))
    p.writer = .ended ∧ p.calls = [⟨7, .returned true⟩] ∧ p.handed = [] ∧ p.sinks = [[]] ∧
      p.counters.dropped = 0 := by
  decide

end CyberSentinel.Eventlog
