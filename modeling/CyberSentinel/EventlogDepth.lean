import CyberSentinel.EventlogDelivery

/-!
# The queue-depth counter

A producer counts its event into `queued` after the channel has it, and the writer counts it out
after the channel has given it. The counter is the difference of the two counts as long as no event
has been counted out before it was counted in; then it is at most what the channel holds and what
the threads have in hand.
-/

namespace CyberSentinel.Eventlog

open Channels

variable {ε β : Type*}

def EmitCall.isReturned (call : EmitCall ε) : Bool := call.phase matches .returned _

def EmitCall.isUncounted (call : EmitCall ε) : Bool := call.phase = .accepted

def EmitCall.isCounted (call : EmitCall ε) : Bool := call.phase = .returned true

def WriterPhase.uncounted : WriterPhase ε → ℕ
  | .received _ _ => 1
  | _ => 0

namespace EventPipeline

/-- How often `queued` has been incremented. -/
def countedIn (p : EventPipeline ε β) : ℕ := p.calls.countP EmitCall.isCounted

/-- How often `queued` has been decremented. -/
def countedOut (p : EventPipeline ε β) : ℕ :=
  (eventsOf p.channel.taken).length - p.writer.uncounted

/-- The calls of `emit` and the receipts of the writer that are in progress. -/
def inProgress (p : EventPipeline ε β) : ℕ :=
  p.calls.countP (fun call => !call.isReturned) + p.writer.uncounted

end EventPipeline

/-- When the writer counts an event out, at least as many events are still in the channel as there
are calls that have sent theirs and not counted it. -/
def CountsInFirst (p : EventPipeline ε β) : Action ε → Prop
  | .write _ => p.writer.uncounted = 1 →
      p.calls.countP EmitCall.isUncounted ≤ (eventsOf p.channel.queue).length
  | _ => True

/-- The counter is the difference of the two counts, and a message is counted in once it has
entered. -/
structure Depth (p : EventPipeline ε β) : Prop where
  queued_eq : p.counters.queued + UInt64.ofNat p.countedOut = UInt64.ofNat p.countedIn
  entered_eq : p.countedIn + p.calls.countP EmitCall.isUncounted =
    (eventsOf p.channel.entered).length
  uncounted_le : p.writer.uncounted ≤ (eventsOf p.channel.taken).length

theorem depth_spawn (sinks capacity : ℕ) :
    Depth (EventPipeline.spawn sinks capacity : EventPipeline ε β) :=
  ⟨rfl, rfl, le_rfl⟩

theorem Depth.proceeds {p : EventPipeline ε β} (h : Depth p) {i : ℕ} {call next : EmitCall ε}
    {counters : PipelineCounters} (hcall : p.calls[i]? = some call)
    (hcounted : call.isCounted = false)
    (haccepted : (next.isCounted.toNat + next.isUncounted.toNat) = call.isUncounted.toNat)
    (hqueued : counters.queued = p.counters.queued + UInt64.ofNat next.isCounted.toNat) :
    Depth { p with counters := counters, calls := p.calls.set i next } := by
  obtain ⟨front, back, hcalls, hset⟩ := exists_of_proceed hcall next
  obtain ⟨hqueued', hentered', huncounted⟩ := h
  have hcount (f : EmitCall ε → Bool) : (p.calls.set i next).countP f + (f call).toNat =
      p.calls.countP f + (f next).toNat := by
    rw [hset, hcalls]
    simp only [List.countP_append, List.countP_cons]
    cases f call <;> cases f next <;> simp <;> omega
  have hin := hcount EmitCall.isCounted
  have huncounted' := hcount EmitCall.isUncounted
  rw [hcounted] at hin
  refine ⟨?_, ?_, huncounted⟩
  · have hin' : (p.calls.set i next).countP EmitCall.isCounted =
        p.countedIn + next.isCounted.toNat := hin
    change counters.queued + UInt64.ofNat p.countedOut =
      UInt64.ofNat ((p.calls.set i next).countP EmitCall.isCounted)
    rw [hin', UInt64.ofNat_add, ← hqueued', hqueued, UInt64.add_assoc, UInt64.add_assoc,
      UInt64.add_comm (UInt64.ofNat next.isCounted.toNat)]
  · change (p.calls.set i next).countP EmitCall.isCounted +
      (p.calls.set i next).countP EmitCall.isUncounted = (eventsOf p.channel.entered).length
    rw [← hentered']
    simp only [EventPipeline.countedIn]
    simp at hin
    omega

theorem Depth.of_counts {p q : EventPipeline ε β} (h : Depth p)
    (hqueued : q.counters.queued = p.counters.queued) (hcalls : q.calls = p.calls)
    (hentered : eventsOf q.channel.entered = eventsOf p.channel.entered)
    (hout : q.countedOut = p.countedOut)
    (huncounted : q.writer.uncounted ≤ (eventsOf q.channel.taken).length) : Depth q := by
  refine ⟨?_, ?_, huncounted⟩
  · rw [hqueued, hout, EventPipeline.countedIn, hcalls]
    exact h.queued_eq
  · rw [EventPipeline.countedIn, hcalls, hentered]
    exact h.entered_eq

theorem Receives.uncounted {p : EventPipeline ε β} {draining : Bool} (h : Receives p draining) :
    p.writer.uncounted = 0 := by
  obtain ⟨hwriter, rfl⟩ | ⟨hwriter, rfl⟩ | ⟨hwriter, rfl⟩ := h.cases
  · rw [hwriter]
    rfl
  · rw [hwriter]
    rfl
  · rw [hwriter]
    rfl

theorem Turns.uncounted {p : EventPipeline ε β} {writer : WriterPhase ε} (h : Turns p writer) :
    p.writer.uncounted = 0 ∧ writer.uncounted = 0 := by
  cases h with
  | rest hwriter _ => simp [hwriter, WriterPhase.uncounted]
  | park hwriter => simp [hwriter, WriterPhase.uncounted]
  | cut hwriter _ _ => rcases hwriter with hwriter | hwriter <;> simp [hwriter,
    WriterPhase.uncounted]
  | finish hwriter _ => simp [hwriter, WriterPhase.uncounted]

/-- What has been counted out changes only when the writer has received an event. -/
theorem countedOut_moves {toNdjson : ε → Option β} {p q : EventPipeline ε β} {action : Action ε}
    (hmoves : Moves toNdjson p action q)
    (hreceived : p.writer.uncounted = 0 ∨ ∀ accepts, action ≠ .write accepts) :
    q.countedOut = p.countedOut := by
  have hzero {accepts : ℕ → Bool} (haction : action = .write accepts) : p.writer.uncounted = 0 :=
    hreceived.resolve_right (fun hother => hother accepts haction)
  cases hmoves with
  | turn accepts writer errors hturn =>
    obtain ⟨hbefore, hafter⟩ := hturn.uncounted
    simp [EventPipeline.countedOut, hbefore, hafter]
  | take accepts draining event rest hwriter hqueue =>
    change (eventsOf (p.channel.taken ++ [.event event])).length - 1 =
      (eventsOf p.channel.taken).length - p.writer.uncounted
    rw [hwriter.uncounted]
    simp
  | stop accepts draining rest hwriter hqueue =>
    have hafter : (if draining then .leaving else .draining : WriterPhase ε).uncounted = 0 := by
      cases draining <;> rfl
    simp [EventPipeline.countedOut, hwriter.uncounted, hafter]
  | countOut accepts draining event hwriter =>
    have hzero' := hzero rfl
    rw [hwriter] at hzero'
    exact absurd hzero' (by simp [WriterPhase.uncounted])
  | write accepts draining event hwriter =>
    have hafter : (if draining then .draining else .polling : WriterPhase ε).uncounted = 0 := by
      cases draining <;> rfl
    obtain ⟨counters, sinks, heq⟩ := writeEvent_eq toNdjson accepts event p
    rw [heq]
    simp [EventPipeline.countedOut, hzero rfl, hafter]
  | close accepts errors hwriter =>
    simp [EventPipeline.countedOut, hwriter, WriterPhase.uncounted, Channel.closeReceiver]
  | _ => rfl

theorem Depth.moves {toNdjson : ε → Option β} {p q : EventPipeline ε β} {action : Action ε}
    (h : Depth p) (hmoves : Moves toNdjson p action q) : Depth q := by
  have hout := countedOut_moves hmoves
  cases hmoves with
  | idle => exact h
  | done => exact h
  | emit event hsending =>
    have hin : (p.calls ++ [(⟨event, .counted⟩ : EmitCall ε)]).countP EmitCall.isCounted =
        p.countedIn := by
      simp [EventPipeline.countedIn, EmitCall.isCounted]
    have huncounted : (p.calls ++ [(⟨event, .counted⟩ : EmitCall ε)]).countP EmitCall.isUncounted =
        p.calls.countP EmitCall.isUncounted := by
      simp [EmitCall.isUncounted]
    refine ⟨?_, ?_, h.uncounted_le⟩
    · change p.counters.queued + UInt64.ofNat p.countedOut = UInt64.ofNat (List.countP _ _)
      rw [hin]
      exact h.queued_eq
    · change List.countP _ _ + List.countP _ _ = _
      rw [hin, huncounted]
      exact h.entered_eq
  | accept i event hcall hreceiving hroom =>
    obtain ⟨front, back, hcalls, hset⟩ := exists_of_proceed hcall ⟨event, .accepted⟩
    have hin : (p.calls.set i ⟨event, .accepted⟩).countP EmitCall.isCounted = p.countedIn := by
      rw [hset, EventPipeline.countedIn, hcalls]
      simp [EmitCall.isCounted]
    have huncounted : (p.calls.set i ⟨event, .accepted⟩).countP EmitCall.isUncounted =
        p.calls.countP EmitCall.isUncounted + 1 := by
      rw [hset, hcalls]
      simp only [List.countP_append, List.countP_cons, EmitCall.isUncounted]
      simp
      omega
    refine ⟨?_, ?_, h.uncounted_le⟩
    · change p.counters.queued + UInt64.ofNat p.countedOut = UInt64.ofNat (List.countP _ _)
      rw [hin]
      exact h.queued_eq
    · change List.countP _ _ + List.countP _ _ = _
      rw [hin, huncounted, ← Nat.add_assoc, h.entered_eq]
      simp
  | refuse i event hcall _ => exact h.proceeds hcall rfl rfl (by simp [EmitCall.isCounted])
  | countIn i event hcall => exact h.proceeds hcall rfl rfl rfl
  | countDropped i event hcall => exact h.proceeds hcall rfl rfl (by simp [EmitCall.isCounted])
  | mark hsending hreceiving hroom => exact h.of_counts rfl rfl (by simp) rfl h.uncounted_le
  | drop hcalls => exact h.of_counts rfl rfl rfl rfl h.uncounted_le
  | turn accepts writer errors hturn =>
    obtain ⟨hbefore, hafter⟩ := hturn.uncounted
    exact h.of_counts rfl rfl rfl (hout (Or.inl hbefore)) (by simp [hafter])
  | take accepts draining event rest hwriter hqueue =>
    exact h.of_counts rfl rfl rfl (hout (Or.inl hwriter.uncounted))
      (by simp [WriterPhase.uncounted])
  | stop accepts draining rest hwriter hqueue =>
    refine h.of_counts rfl rfl rfl (hout (Or.inl hwriter.uncounted)) ?_
    cases draining <;> simp [WriterPhase.uncounted]
  | countOut accepts draining event hwriter =>
    have hone : p.writer.uncounted = 1 := by
      rw [hwriter]
      rfl
    have hle := h.uncounted_le
    have hout : (eventsOf p.channel.taken).length = p.countedOut + 1 := by
      rw [EventPipeline.countedOut]
      omega
    refine ⟨?_, h.entered_eq, Nat.zero_le _⟩
    change p.counters.queued - 1 + UInt64.ofNat (eventsOf p.channel.taken).length =
      UInt64.ofNat p.countedIn
    rw [hout, UInt64.ofNat_add, UInt64.add_comm (UInt64.ofNat p.countedOut), ← UInt64.add_assoc,
      ← h.queued_eq]
    congr 1
    exact UInt64.sub_add_cancel _ _
  | write accepts draining event hwriter =>
    have hbefore : p.writer.uncounted = 0 := by
      rw [hwriter]
      rfl
    have hqueued : (writeEvent toNdjson accepts event p).counters.queued = p.counters.queued := by
      unfold writeEvent
      cases toNdjson event with
      | none => rfl
      | some line => rfl
    obtain ⟨counters, sinks, heq⟩ := writeEvent_eq toNdjson accepts event p
    rw [heq] at hqueued hout ⊢
    refine h.of_counts hqueued rfl rfl (hout (Or.inl hbefore)) ?_
    cases draining <;> simp [WriterPhase.uncounted]
  | close accepts errors hwriter =>
    exact h.of_counts rfl rfl rfl (hout (Or.inl (by rw [hwriter]; rfl))) (Nat.zero_le _)

theorem countsInFirst_of_uncounted {p : EventPipeline ε β} (h : p.writer.uncounted = 0)
    (accepts : ℕ → Bool) : CountsInFirst p (.write accepts) := by
  intro hone
  exact absurd (h.symm.trans hone) (by simp)

theorem countedIn_moves {toNdjson : ε → Option β} {p q : EventPipeline ε β} {action : Action ε}
    (hmoves : Moves toNdjson p action q) : p.countedIn ≤ q.countedIn := by
  have hproceeds (i : ℕ) (call next : EmitCall ε) (hcall : p.calls[i]? = some call)
      (hcounted : call.isCounted = false) :
      p.countedIn ≤ (p.calls.set i next).countP EmitCall.isCounted := by
    obtain ⟨front, back, hcalls, hset⟩ := exists_of_proceed hcall next
    rw [hset, EventPipeline.countedIn, hcalls]
    simp only [List.countP_append, List.countP_cons, hcounted, Bool.false_eq_true, if_false]
    omega
  cases hmoves with
  | emit event hsending => simp [EventPipeline.countedIn]
  | accept i event hcall => exact hproceeds i _ _ hcall rfl
  | refuse i event hcall => exact hproceeds i _ _ hcall rfl
  | countIn i event hcall => exact hproceeds i _ _ hcall rfl
  | countDropped i event hcall => exact hproceeds i _ _ hcall rfl
  | write accepts draining event hwriter =>
    obtain ⟨counters, sinks, heq⟩ := writeEvent_eq toNdjson accepts event p
    rw [heq]
    exact le_rfl
  | _ => exact le_rfl

/-- As long as no more has been counted out than in, a step keeps it so just when it does not count
an event out too early. -/
theorem countedOut_le_moves {toNdjson : ε → Option β} {p q : EventPipeline ε β} {action : Action ε}
    (hsound : Sound p) (h : Depth p) (hle : p.countedOut ≤ p.countedIn)
    (hmoves : Moves toNdjson p action q) :
    q.countedOut ≤ q.countedIn ↔ CountsInFirst p action := by
  have hin := countedIn_moves hmoves
  have hquiet (hreceived : p.writer.uncounted = 0 ∨ ∀ accepts, action ≠ .write accepts)
      (hfirst : CountsInFirst p action) : q.countedOut ≤ q.countedIn ↔ CountsInFirst p action := by
    rw [countedOut_moves hmoves hreceived]
    exact iff_of_true (hle.trans hin) hfirst
  cases action with
  | write accepts =>
    by_cases hzero : p.writer.uncounted = 0
    · exact hquiet (Or.inl hzero) (countsInFirst_of_uncounted hzero accepts)
    · -- the writer has an event in hand, which is one of those it has taken
      obtain ⟨draining, event, hwriter⟩ : ∃ draining event,
          p.writer = .received draining event := by
        cases hwriter : p.writer with
        | received draining event => exact ⟨draining, event, rfl⟩
        | _ => exact absurd (by rw [hwriter]; rfl) hzero
      have hone : p.writer.uncounted = 1 := by
        rw [hwriter]
        rfl
      have hordered := hsound.ordered (by simp [hwriter])
      have hentered := h.entered_eq
      rw [hordered, eventsOf_append, List.length_append] at hentered
      have huncounted := h.uncounted_le
      have houts : q.countedOut = (eventsOf p.channel.taken).length ∧
          q.countedIn = p.countedIn := by
        cases hmoves with
        | idle _ _ hwrites =>
          rcases hwrites accepts rfl with ⟨hother, -⟩ | hother
          · exact absurd (hwriter.symm.trans hother) (by simp)
          · exact absurd (hwriter.symm.trans hother) (by simp)
        | turn _ writer errors hturn => exact absurd hturn.uncounted.1 hzero
        | take _ draining event rest hreceives _ => exact absurd hreceives.uncounted hzero
        | stop _ draining rest hreceives _ => exact absurd hreceives.uncounted hzero
        | countOut => exact ⟨rfl, rfl⟩
        | write _ draining event hother => exact absurd (hwriter.symm.trans hother) (by simp)
        | close _ errors hother => exact absurd (hwriter.symm.trans hother) (by simp)
      have hfirst : CountsInFirst p (.write accepts) ↔
          p.calls.countP EmitCall.isUncounted ≤ (eventsOf p.channel.queue).length :=
        ⟨fun hfirst => hfirst hone, fun hfirst _ => hfirst⟩
      rw [hfirst, houts.1, houts.2]
      omega
  | _ => exact hquiet (Or.inr (by simp)) trivial

/-- A counter that has not wrapped is within what the channel and the threads hold. -/
theorem Depth.queued_le {p : EventPipeline ε β} (hsound : Sound p) (h : Depth p)
    (hle : p.countedOut ≤ p.countedIn) :
    p.counters.queued.toNat ≤ p.channel.capacity + p.inProgress := by
  have hqueued : p.counters.queued = UInt64.ofNat (p.countedIn - p.countedOut) := by
    have heq := h.queued_eq
    rw [← Nat.sub_add_cancel hle, UInt64.ofNat_add] at heq
    exact (UInt64.add_left_inj _).1 heq
  have hheld : (eventsOf p.channel.entered).length ≤
      (eventsOf p.channel.taken).length + p.channel.capacity := by
    obtain ⟨rest, hrest⟩ := hsound.fifo.taken_prefix
    have hlength := hsound.fifo.held
    rw [← hrest, List.length_append] at hlength
    have hevents : (eventsOf rest).length ≤ rest.length := List.length_filterMap_le _ _
    rw [← hrest, eventsOf_append, List.length_append]
    omega
  have hentered := h.entered_eq
  have hcalls : p.writer.uncounted ≤ p.inProgress := Nat.le_add_left _ _
  have hsize : p.countedIn - p.countedOut ≤ p.channel.capacity + p.inProgress := by
    rw [EventPipeline.countedOut]
    omega
  calc p.counters.queued.toNat = (p.countedIn - p.countedOut) % 2 ^ 64 := by
        rw [hqueued, UInt64.toNat_ofNat']
    _ ≤ p.countedIn - p.countedOut := Nat.mod_le _ _
    _ ≤ p.channel.capacity + p.inProgress := hsize

theorem depth_after (toNdjson : ε → Option β) (sinks capacity : ℕ) (actions : List (Action ε)) :
    Depth (after toNdjson sinks capacity actions) :=
  Runs.invariant (step toNdjson) Depth (fun p action h => h.moves (step_moves toNdjson p action))
    (depth_spawn sinks capacity) actions

/-- The counter is what was counted in less what was counted out, modulo the word size. It has not
wrapped, and is within what the channel and the threads hold, in every state of a run just when no
event of the run is counted out before it is counted in. -/
theorem queued_meaningful_iff (toNdjson : ε → Option β) (sinks capacity : ℕ)
    (actions : List (Action ε)) :
    (∀ part, part <+: actions →
      let p := after toNdjson sinks capacity part
      p.counters.snapshot.queued + UInt64.ofNat p.countedOut = UInt64.ofNat p.countedIn) ∧
    ((∀ part, part <+: actions →
      let p := after toNdjson sinks capacity part
      p.counters.snapshot.queued.toNat ≤ p.channel.capacity + p.inProgress ∧
        p.countedOut ≤ p.countedIn) ↔
      Runs.Along (step toNdjson) CountsInFirst (EventPipeline.spawn sinks capacity) actions) := by
  refine ⟨fun part _ => (depth_after toNdjson sinks capacity part).queued_eq, ?_, ?_⟩
  · intro hall
    rw [Runs.along_iff]
    rintro before action rest rfl
    have hbefore := (hall before (List.prefix_append _ _)).2
    have hafter := (hall (before ++ [action]) (by simp)).2
    have hstep := countedOut_le_moves (sound_after toNdjson sinks capacity before)
      (depth_after toNdjson sinks capacity before) hbefore (step_moves toNdjson _ action)
    apply hstep.1
    rw [after, Runs.run_append] at hafter
    exact hafter
  · intro halong part hpart
    obtain ⟨rest, rfl⟩ := hpart
    rw [Runs.along_append] at halong
    have hle := (Runs.invariant_along (step toNdjson)
      (fun p => (Sound p ∧ Depth p) ∧ p.countedOut ≤ p.countedIn) CountsInFirst
      (fun p action h hfirst => ⟨⟨h.1.1.moves (step_moves toNdjson p action),
        h.1.2.moves (step_moves toNdjson p action)⟩,
        (countedOut_le_moves h.1.1 h.1.2 h.2 (step_moves toNdjson p action)).2 hfirst⟩)
      ⟨⟨sound_spawn sinks capacity, depth_spawn sinks capacity⟩, le_rfl⟩ halong.1).2
    exact ⟨(depth_after toNdjson sinks capacity part).queued_le
      (sound_after toNdjson sinks capacity part) hle, hle⟩

/-- The writer receives an event and counts it out between the two steps of its producer. -/
theorem queued_wraps :
    let p := after (some : ℕ → Option ℕ) 1 4
      ([.emit 7, .proceed 0] ++ writes 2 (fun _ => true))
    p.counters.snapshot.queued.toNat = 2 ^ 64 - 1 ∧ p.channel.capacity + p.inProgress = 5 := by
  decide

end CyberSentinel.Eventlog
