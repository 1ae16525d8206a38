import CyberSentinel.EventlogSteps

/-!
# Accepted events are written

The counters of the producers say what their calls came to. All that the writer has taken, but for
an event in its hands, has been given to every sink. Whatever the other threads do, enough steps of
the writer bring everything in front of the first marker to the sinks.
-/

namespace CyberSentinel.Eventlog

open Channels

variable {ε β : Type*} (toNdjson : ε → Option β)

def EmitCall.isDropped (call : EmitCall ε) : Bool := call.phase = .returned false

/-- The counters of the producers say what their calls came to, and the accepted calls are those
whose message has entered. -/
structure Counted (p : EventPipeline ε β) : Prop where
  emitted_eq : p.counters.emitted = UInt64.ofNat p.calls.length
  dropped_eq : p.counters.dropped = UInt64.ofNat (p.calls.countP EmitCall.isDropped)
  accepted_perm : (p.calls.filterMap EmitCall.acceptedEvent).Perm (eventsOf p.channel.entered)

theorem exists_of_proceed {calls : List (EmitCall ε)} {i : ℕ} {call : EmitCall ε}
    (hcall : calls[i]? = some call) (next : EmitCall ε) :
    ∃ front back, calls = front ++ call :: back ∧ calls.set i next = front ++ next :: back := by
  obtain ⟨hlt, heq⟩ := List.getElem?_eq_some_iff.1 hcall
  obtain ⟨front, back, hcalls, -, hset⟩ := List.exists_of_set hlt
  rw [heq] at hcalls
  exact ⟨front, back, hcalls, hset⟩

theorem Counted.proceeds {p : EventPipeline ε β} (h : Counted p) {i : ℕ} {call next : EmitCall ε}
    {counters : PipelineCounters} (hcall : p.calls[i]? = some call)
    (haccepted : next.acceptedEvent = call.acceptedEvent) (hopen : call.isDropped = false)
    (hemitted : counters.emitted = p.counters.emitted)
    (hdropped : counters.dropped = p.counters.dropped + if next.isDropped then 1 else 0) :
    Counted { p with counters := counters, calls := p.calls.set i next } := by
  obtain ⟨front, back, hcalls, hset⟩ := exists_of_proceed hcall next
  obtain ⟨hemitted', hdropped', haccepted'⟩ := h
  refine ⟨?_, ?_, ?_⟩
  · change counters.emitted = UInt64.ofNat (p.calls.set i next).length
    rw [hemitted, hemitted', List.length_set]
  · have hcount : (p.calls.set i next).countP EmitCall.isDropped =
        p.calls.countP EmitCall.isDropped + if next.isDropped then 1 else 0 := by
      rw [hset, hcalls, List.countP_append, List.countP_append, List.countP_cons, List.countP_cons,
        hopen]
      simp only [Bool.false_eq_true, if_false]
      omega
    change counters.dropped = UInt64.ofNat ((p.calls.set i next).countP EmitCall.isDropped)
    rw [hdropped, hdropped', hcount, UInt64.ofNat_add]
    cases next.isDropped <;> rfl
  · change ((p.calls.set i next).filterMap EmitCall.acceptedEvent).Perm _
    rw [hset, List.filterMap_append, List.filterMap_cons, haccepted, ← List.filterMap_cons,
      ← List.filterMap_append, ← hcalls]
    exact haccepted'

theorem Counted.moves {toNdjson : ε → Option β} {p q : EventPipeline ε β} {action : Action ε}
    (h : Counted p) (hmoves : Moves toNdjson p action q) : Counted q := by
  have hsame := h
  obtain ⟨hemitted, hdropped, haccepted⟩ := h
  cases hmoves with
  | idle => exact hsame
  | done => exact hsame
  | emit event hsending =>
    refine ⟨?_, ?_, ?_⟩
    · simp [hemitted, UInt64.ofNat_add]
    · simpa [EmitCall.isDropped] using hdropped
    · simpa [EmitCall.acceptedEvent] using haccepted
  | accept i event hcall hreceiving hroom =>
    obtain ⟨front, back, hcalls, hset⟩ := exists_of_proceed hcall ⟨event, .accepted⟩
    rw [hcalls] at hemitted hdropped haccepted
    refine ⟨?_, ?_, ?_⟩
    · simpa [hset] using hemitted
    · simpa [hset, EmitCall.isDropped] using hdropped
    · simp only [hset, eventsOf_append, eventsOf_event, eventsOf_nil]
      simp only [List.filterMap_append, List.filterMap_cons, EmitCall.acceptedEvent] at haccepted ⊢
      simp only [reduceCtorEq, or_self, if_false, true_or, if_true] at haccepted ⊢
      exact List.perm_middle.trans
        ((haccepted.cons event).trans (List.perm_append_singleton _ _).symm)
  | refuse i event hcall _ => exact hsame.proceeds hcall rfl rfl rfl (by simp [EmitCall.isDropped])
  | countIn i event hcall => exact hsame.proceeds hcall rfl rfl rfl (by simp [EmitCall.isDropped])
  | countDropped i event hcall => exact hsame.proceeds hcall rfl rfl rfl rfl
  | mark hsending hreceiving hroom => exact ⟨hemitted, hdropped, by simpa using haccepted⟩
  | drop hcalls => exact ⟨hemitted, hdropped, haccepted⟩
  | turn accepts writer errors hturn => exact ⟨hemitted, hdropped, haccepted⟩
  | take accepts draining event rest hwriter hqueue => exact ⟨hemitted, hdropped, haccepted⟩
  | stop accepts draining rest hwriter hqueue => exact ⟨hemitted, hdropped, haccepted⟩
  | countOut accepts draining event hwriter => exact ⟨hemitted, hdropped, haccepted⟩
  | write accepts draining event hwriter =>
    unfold writeEvent
    cases toNdjson event with
    | none => exact ⟨hemitted, hdropped, haccepted⟩
    | some line => exact ⟨hemitted, hdropped, haccepted⟩
  | close accepts errors hwriter => exact ⟨hemitted, hdropped, haccepted⟩

/-- Every sink has been given the line of every event handed over, and `written` counts those that
some sink accepted. -/
structure Fed (toNdjson : ε → Option β) (sinks : ℕ) (p : EventPipeline ε β) : Prop where
  length_eq : p.sinks.length = sinks
  lines_eq : ∀ log ∈ p.sinks, log.map (fun entry => some entry.1) = p.handed.map toNdjson
  written_eq : p.counters.written = UInt64.ofNat (acceptedBySome p.sinks p.handed.length)

theorem handed_moves {toNdjson : ε → Option β} {p q : EventPipeline ε β} {action : Action ε}
    (h : Sound p) (hmoves : Moves toNdjson p action q) :
    (q.handed = p.handed ∧ q.sinks = p.sinks ∧ q.counters.written = p.counters.written) ∨
      ∃ accepts draining event, p.writer = .writing draining event ∧
        q.handed = p.handed ++ [event] ∧
        q.sinks = (writeEvent toNdjson accepts event p).sinks ∧
        q.counters.written = (writeEvent toNdjson accepts event p).counters.written := by
  cases hmoves with
  | take accepts draining event rest hwriter hqueue =>
    refine Or.inl ⟨?_, rfl, rfl⟩
    rw [h.handed_of_inHand hwriter.inHand]
    simp [EventPipeline.handed, WriterPhase.inHand]
  | stop accepts draining rest hwriter hqueue =>
    refine Or.inl ⟨?_, rfl, rfl⟩
    rw [h.handed_of_inHand hwriter.inHand]
    cases draining <;> simp [EventPipeline.handed, WriterPhase.inHand]
  | turn accepts writer errors hturn =>
    refine Or.inl ⟨?_, rfl, rfl⟩
    obtain ⟨hhand, hhand', -⟩ := hturn.inHand
    rw [h.handed_of_inHand hhand]
    simp [EventPipeline.handed, hhand']
  | countOut accepts draining event hwriter =>
    refine Or.inl ⟨?_, rfl, rfl⟩
    simp [EventPipeline.handed, hwriter, WriterPhase.inHand]
  | close accepts errors hwriter =>
    refine Or.inl ⟨?_, rfl, rfl⟩
    simp [EventPipeline.handed, hwriter, WriterPhase.inHand, Channel.closeReceiver]
  | write accepts draining event hwriter =>
    refine Or.inr ⟨accepts, draining, event, hwriter, ?_, rfl, rfl⟩
    have hhand : p.writer.inHand = [event] := by
      rw [hwriter]
      rfl
    rw [← hhand, ← h.handed_append]
    obtain ⟨counters, sinks, heq⟩ := writeEvent_eq toNdjson accepts event p
    cases draining <;> simp [EventPipeline.handed, heq, WriterPhase.inHand]
  | _ => exact Or.inl ⟨rfl, rfl, rfl⟩

theorem acceptedBySome_feed {sinks : List (List (β × Bool))} {n : ℕ}
    (hlength : ∀ log ∈ sinks, log.length = n) (line : β) (accepts : ℕ → Bool) :
    acceptedBySome (sinks.mapIdx (fun i log => log ++ [(line, accepts i)])) (n + 1) =
      acceptedBySome sinks n +
        if ((List.range sinks.length).map accepts).any id then 1 else 0 := by
  unfold acceptedBySome
  rw [List.range_succ, List.countP_append, List.countP_singleton]
  have hold : ∀ j ∈ List.range n,
      (sinks.mapIdx (fun i log => log ++ [(line, accepts i)])).any
        (fun log => log[j]?.any Prod.snd) = sinks.any (fun log => log[j]?.any Prod.snd) := by
    intro j hj
    have hlt := List.mem_range.1 hj
    rw [Bool.eq_iff_iff, List.any_eq_true, List.any_eq_true]
    constructor
    · rintro ⟨log, hmem, hany⟩
      obtain ⟨i, hi, rfl⟩ := List.mem_mapIdx.1 hmem
      have hmem' : sinks[i] ∈ sinks := List.getElem_mem hi
      rw [List.getElem?_append_left (by rw [hlength _ hmem']; exact hlt)] at hany
      exact ⟨sinks[i], hmem', hany⟩
    · rintro ⟨log, hmem, hany⟩
      obtain ⟨i, hi, rfl⟩ := List.getElem_of_mem hmem
      refine ⟨_, List.mem_mapIdx.2 ⟨i, hi, rfl⟩, ?_⟩
      rw [List.getElem?_append_left (by rw [hlength _ hmem]; exact hlt)]
      exact hany
  have hnew : (sinks.mapIdx (fun i log => log ++ [(line, accepts i)])).any
      (fun log => log[n]?.any Prod.snd) = ((List.range sinks.length).map accepts).any id := by
    rw [Bool.eq_iff_iff, List.any_eq_true, List.any_eq_true]
    have hlast (i : ℕ) (hi : i < sinks.length) :
        ((sinks[i] ++ [(line, accepts i)])[n]?.any Prod.snd) = accepts i := by
      rw [List.getElem?_append_right (hlength _ (List.getElem_mem hi)).le,
        hlength _ (List.getElem_mem hi)]
      simp
    constructor
    · rintro ⟨log, hmem, hany⟩
      obtain ⟨i, hi, rfl⟩ := List.mem_mapIdx.1 hmem
      rw [hlast i hi] at hany
      exact ⟨accepts i, List.mem_map.2 ⟨i, List.mem_range.2 hi, rfl⟩, hany⟩
    · rintro ⟨answer, hmem, hanswer⟩
      obtain ⟨i, hi, rfl⟩ := List.mem_map.1 hmem
      have hlt := List.mem_range.1 hi
      exact ⟨_, List.mem_mapIdx.2 ⟨i, hlt, rfl⟩, (hlast i hlt).trans hanswer⟩
  rw [List.countP_congr (fun j hj => by rw [hold j hj]), hnew]

theorem Fed.moves {toNdjson : ε → Option β} (hjson : ∀ event, (toNdjson event).isSome)
    {sinks : ℕ} {p q : EventPipeline ε β} {action : Action ε} (h : Fed toNdjson sinks p)
    (hsound : Sound p) (hmoves : Moves toNdjson p action q) : Fed toNdjson sinks q := by
  obtain ⟨hlength, hlines, hwritten⟩ := h
  obtain ⟨hhanded, hsinks, hcount⟩ | ⟨accepts, draining, event, -, hhanded, hsinks, hcount⟩ :=
    handed_moves hsound hmoves
  · refine ⟨?_, ?_, ?_⟩
    · rw [hsinks, hlength]
    · rw [hsinks, hhanded]
      exact hlines
    · rw [hcount, hsinks, hhanded, hwritten]
  · obtain ⟨line, hline⟩ := Option.isSome_iff_exists.1 (hjson event)
    have hsizes : ∀ log ∈ p.sinks, log.length = p.handed.length := by
      intro log hmem
      have hcong := congrArg List.length (hlines log hmem)
      simpa using hcong
    simp only [writeEvent, hline] at hsinks hcount
    refine ⟨?_, ?_, ?_⟩
    · rw [hsinks, List.length_mapIdx, hlength]
    · intro log hmem
      rw [hsinks] at hmem
      obtain ⟨i, hi, rfl⟩ := List.mem_mapIdx.1 hmem
      rw [hhanded, List.map_append, hlines _ (List.getElem_mem hi), List.map_append]
      simp [hline]
    · rw [hcount, hsinks, hhanded, List.length_append, List.length_singleton,
        acceptedBySome_feed hsizes, UInt64.ofNat_add, hwritten]
      split_ifs
      · rfl
      · simp

theorem beforeShutdown_mono {xs ys : List (Message ε)} (h : xs <+: ys) :
    beforeShutdown xs <+: beforeShutdown ys := by
  obtain ⟨rest, rfl⟩ := h
  by_cases hmem : Message.shutdown ∈ xs
  · rw [beforeShutdown_append hmem]
  · rw [beforeShutdown_of_forall hmem]
    unfold beforeShutdown
    rw [List.takeWhile_append_of_pos]
    · exact List.prefix_append _ _
    · exact List.takeWhile_eq_self_iff.1 (beforeShutdown_of_forall hmem)

theorem entered_moves {toNdjson : ε → Option β} {p q : EventPipeline ε β} {action : Action ε}
    (hmoves : Moves toNdjson p action q) : p.channel.entered <+: q.channel.entered := by
  cases hmoves with
  | accept => exact List.prefix_append _ _
  | mark => exact List.prefix_append _ _
  | write accepts draining event hwriter =>
    obtain ⟨counters, sinks, heq⟩ := writeEvent_eq toNdjson accepts event p
    rw [heq]
  | _ => exact List.prefix_rfl

theorem handed_mono {toNdjson : ε → Option β} {p q : EventPipeline ε β} {action : Action ε}
    (h : Sound p) (hmoves : Moves toNdjson p action q) : p.handed <+: q.handed := by
  obtain ⟨hhanded, -⟩ | ⟨-, -, event, -, hhanded, -⟩ := handed_moves h hmoves
  · rw [hhanded]
  · rw [hhanded]
    exact List.prefix_append _ _

/-- Steps of the writer until the event in its hands is written, or until it receives again. -/
def WriterPhase.owes : WriterPhase ε → ℕ
  | .received _ _ => 2
  | .writing _ _ | .lull => 1
  | _ => 0

/-- Steps of the writer until it has written the first `count` messages. -/
def EventPipeline.owes (count : ℕ) (p : EventPipeline ε β) : ℕ :=
  3 * (count - p.channel.taken.length) + p.writer.owes

theorem owes_of_not_write {toNdjson : ε → Option β} {p q : EventPipeline ε β} {action : Action ε}
    (hmoves : Moves toNdjson p action q) (hother : ∀ accepts, action ≠ .write accepts) (count : ℕ) :
    q.owes count = p.owes count := by
  cases hmoves with
  | idle => rfl
  | done => rfl
  | emit => rfl
  | accept => rfl
  | refuse => rfl
  | countIn => rfl
  | countDropped => rfl
  | mark => rfl
  | drop => rfl
  | _ => exact absurd rfl (hother _)

/-- Messages in front of every marker: behind the main loop they have been taken, and in it the next
message that has not is an event. -/
theorem owes_write {toNdjson : ε → Option β} {p q : EventPipeline ε β} {accepts : ℕ → Bool}
    (h : Sound p) {front : List (Message ε)} (hfront : front <+: beforeShutdown p.channel.entered)
    (hmoves : Moves toNdjson p (.write accepts) q) (howes : 0 < p.owes front.length) :
    q.owes front.length < p.owes front.length := by
  have hpast (hbehind : p.writer.pastLoop = true) : front.length ≤ p.channel.taken.length :=
    (hfront.trans (h.passed hbehind).1).length_le
  have hentered : front <+: p.channel.entered := hfront.trans (List.takeWhile_prefix _)
  have hempty (hended : p.writer ≠ .ended) (hqueue : p.channel.queue = []) :
      front.length ≤ p.channel.taken.length := by
    have hlength := hentered.length_le
    rwa [h.ordered hended, hqueue, List.append_nil] at hlength
  -- what is owed is owed by the phase alone, once the messages have been taken
  have hnothing (htaken : front.length ≤ p.channel.taken.length) (hphase : p.writer.owes = 0) :
      False := by
    rw [EventPipeline.owes, hphase, Nat.sub_eq_zero_of_le htaken] at howes
    exact absurd howes (by simp)
  have hreceives {draining : Bool} (hwriter : Receives p draining) : p.writer.owes = 0 := by
    obtain ⟨hphase, -⟩ | ⟨hphase, -⟩ | ⟨hphase, -⟩ := hwriter.cases
    · rw [hphase]
      rfl
    · rw [hphase]
      rfl
    · rw [hphase]
      rfl
  cases hmoves with
  | idle _ _ hwrites =>
    rcases hwrites accepts rfl with ⟨hwriter, hqueue⟩ | hwriter
    · exact (hnothing (hempty (by simp [hwriter]) hqueue) (by rw [hwriter]; rfl)).elim
    · exact (hnothing (hpast (by rw [hwriter]; rfl)) (by rw [hwriter]; rfl)).elim
  | turn _ writer errors hturn =>
    obtain ⟨-, -, hended, -⟩ := hturn.inHand
    cases hturn with
    | rest hwriter hqueue =>
      exact (hnothing (hempty hended hqueue) (by rw [hwriter]; rfl)).elim
    | park hwriter => simp [EventPipeline.owes, hwriter, WriterPhase.owes]
    | cut hwriter hqueue _ =>
      refine (hnothing (hempty hended hqueue) ?_).elim
      rcases hwriter with hwriter | hwriter <;> rw [hwriter] <;> rfl
    | finish hwriter hqueue =>
      exact (hnothing (hempty hended hqueue) (by rw [hwriter]; rfl)).elim
  | take _ draining event rest hwriter hqueue =>
    have hphase := hreceives hwriter
    have hleft : ¬ front.length ≤ p.channel.taken.length := fun htaken => hnothing htaken hphase
    simp only [EventPipeline.owes, List.length_append, List.length_singleton, WriterPhase.owes]
    omega
  | stop _ draining rest hwriter hqueue =>
    refine (hnothing ?_ (hreceives hwriter)).elim
    cases draining with
    | true => exact hpast hwriter.pastLoop
    | false =>
      have hordered := h.ordered (h.notEnded_of_queue hqueue)
      rw [hordered, hqueue, beforeShutdown_append_shutdown (h.unmarked hwriter.pastLoop)] at hfront
      exact hfront.length_le
  | countOut _ draining event hwriter =>
    simp [EventPipeline.owes, hwriter, WriterPhase.owes]
  | write _ draining event hwriter =>
    obtain ⟨counters, sinks, heq⟩ := writeEvent_eq toNdjson accepts event p
    rw [heq]
    cases draining <;> simp [EventPipeline.owes, hwriter, WriterPhase.owes]
  | close _ errors hwriter =>
    exact (hnothing (hpast (by rw [hwriter]; rfl)) (by rw [hwriter]; rfl)).elim

def Action.isWrite : Action ε → Bool
  | .write _ => true
  | _ => false

theorem handed_run {p : EventPipeline ε β} (h : Sound p) (more : List (Action ε)) :
    p.handed <+: (Runs.run (step toNdjson) p more).1.handed := by
  have hkept := Runs.invariant (step toNdjson) (fun q => Sound q ∧ p.handed <+: q.handed)
    (fun q action hq => ⟨hq.1.moves (step_moves toNdjson q action),
      hq.2.trans (handed_mono hq.1 (step_moves toNdjson q action))⟩)
    ⟨h, List.prefix_rfl⟩ more
  exact hkept.2

/-- Whatever the other threads do, enough steps of the writer hand over what has entered in front of
every marker. -/
theorem handed_eventually {p : EventPipeline ε β} (h : Sound p) {front : List (Message ε)}
    (hfront : front <+: beforeShutdown p.channel.entered) {more : List (Action ε)}
    (hsteps : p.owes front.length ≤ more.countP Action.isWrite) :
    eventsOf front <+: (Runs.run (step toNdjson) p more).1.handed := by
  -- nothing owed: all of it is handed over, and stays so
  have hdone {p : EventPipeline ε β} (h : Sound p)
      (hfront : front <+: beforeShutdown p.channel.entered) (howes : p.owes front.length = 0) :
      eventsOf front <+: p.handed := by
    obtain ⟨hleft, hphase⟩ : front.length ≤ p.channel.taken.length ∧ p.writer.owes = 0 := by
      rw [EventPipeline.owes] at howes
      omega
    have hhand : p.writer.inHand = [] := by
      cases hwriter : p.writer with
      | received => simp [hwriter, WriterPhase.owes] at hphase
      | writing => simp [hwriter, WriterPhase.owes] at hphase
      | _ => rfl
    have htaken : front <+: p.channel.taken :=
      List.prefix_of_prefix_length_le (hfront.trans (List.takeWhile_prefix _)) h.fifo.taken_prefix
        hleft
    rw [h.handed_of_inHand hhand]
    obtain ⟨rest, hrest⟩ := htaken
    exact ⟨eventsOf rest, by rw [← eventsOf_append, hrest]⟩
  induction more generalizing p with
  | nil => exact hdone h hfront (Nat.le_zero.1 hsteps)
  | cons action more ih =>
    have hmoves := step_moves toNdjson p action
    have hsound := h.moves hmoves
    have hfront' := hfront.trans (beforeShutdown_mono (entered_moves hmoves))
    rw [Runs.run_cons]
    by_cases howes : p.owes front.length = 0
    · exact ((hdone h hfront howes).trans (handed_mono h hmoves)).trans
        (handed_run toNdjson hsound more)
    · apply ih hsound hfront'
      rw [List.countP_cons] at hsteps
      cases action with
      | write accepts =>
        have hless := owes_write h hfront hmoves (Nat.pos_of_ne_zero howes)
        simp only [Action.isWrite, if_true] at hsteps
        omega
      | _ =>
        rw [owes_of_not_write hmoves (by simp)]
        simpa [Action.isWrite] using hsteps

theorem fed_spawn (sinks capacity : ℕ) :
    Fed toNdjson sinks (EventPipeline.spawn sinks capacity) where
  length_eq := List.length_replicate
  lines_eq log hmem := by
    rw [List.eq_of_mem_replicate hmem]
    rfl
  written_eq := rfl

theorem counted_spawn (sinks capacity : ℕ) :
    Counted (EventPipeline.spawn sinks capacity : EventPipeline ε β) where
  emitted_eq := rfl
  dropped_eq := rfl
  accepted_perm := List.Perm.refl _

theorem counted_after (sinks capacity : ℕ) (actions : List (Action ε)) :
    Counted (after toNdjson sinks capacity actions) :=
  Runs.invariant (step toNdjson) Counted
    (fun p action h => h.moves (step_moves toNdjson p action))
    (counted_spawn sinks capacity) actions

theorem fed_after {toNdjson : ε → Option β} (hjson : ∀ event, (toNdjson event).isSome)
    (sinks capacity : ℕ) (actions : List (Action ε)) :
    Fed toNdjson sinks (after toNdjson sinks capacity actions) :=
  (Runs.invariant (step toNdjson) (fun p => Sound p ∧ Fed toNdjson sinks p)
    (fun p action h => ⟨h.1.moves (step_moves toNdjson p action),
      h.2.moves hjson h.1 (step_moves toNdjson p action)⟩)
    ⟨sound_spawn sinks capacity, fed_spawn toNdjson sinks capacity⟩ actions).2

theorem Sound.handed_prefix {p : EventPipeline ε β} (h : Sound p) :
    p.handed <+: eventsOf p.channel.entered := by
  obtain ⟨rest, hrest⟩ := h.fifo.taken_prefix
  rw [← hrest, eventsOf_append, h.handed_append, List.append_assoc]
  exact List.prefix_append _ _

theorem Sound.handed_of_ended {p : EventPipeline ε β} (h : Sound p) (hended : p.writer = .ended) :
    p.handed = eventsOf p.channel.taken :=
  h.handed_of_inHand (by rw [hended]; rfl)

/-- In every run of the threads, for serialisation that succeeds: the producers' counters say how
many calls there were and how many returned `false`; the accepted calls are those whose event
entered the channel; the sinks have all been given the same events, each once and in channel order;
the writer gets to everything in front of the first marker within a bounded number of its own steps,
whatever the others do, and has it all when it ends; then `written` counts the events that some sink
accepted. -/
theorem accepted_events_written (hjson : ∀ event, (toNdjson event).isSome) (sinks capacity : ℕ)
    (actions : List (Action ε)) :
    let p := after toNdjson sinks capacity actions
    (p.counters.emitted = UInt64.ofNat p.calls.length ∧
      p.counters.dropped = UInt64.ofNat (p.calls.countP EmitCall.isDropped)) ∧
    (p.calls.filterMap EmitCall.acceptedEvent).Perm (eventsOf p.channel.entered) ∧
    (p.handed <+: eventsOf p.channel.entered ∧ p.sinks.length = sinks ∧
      ∀ log ∈ p.sinks, log.map (fun entry => some entry.1) = p.handed.map toNdjson) ∧
    (∀ more : List (Action ε), 3 * p.channel.entered.length + 2 ≤ more.countP Action.isWrite →
      eventsOf (beforeShutdown p.channel.entered) <+:
        (after toNdjson sinks capacity (actions ++ more)).handed) ∧
    (p.writer = .ended → eventsOf (beforeShutdown p.channel.entered) <+: p.handed ∧
      p.counters.written = UInt64.ofNat (acceptedBySome p.sinks p.handed.length)) := by
  intro p
  have hsound : Sound p := sound_after toNdjson sinks capacity actions
  have hfed : Fed toNdjson sinks p := fed_after hjson sinks capacity actions
  obtain ⟨hemitted, hdropped, haccepted⟩ := counted_after toNdjson sinks capacity actions
  refine ⟨⟨hemitted, hdropped⟩, haccepted, ⟨hsound.handed_prefix, hfed.length_eq, hfed.lines_eq⟩,
    ?_, ?_⟩
  · intro more hsteps
    have hfront : beforeShutdown p.channel.entered <+: beforeShutdown p.channel.entered :=
      List.prefix_rfl
    have howes : p.owes (beforeShutdown p.channel.entered).length ≤ more.countP Action.isWrite := by
      have hlength := (List.takeWhile_prefix (l := p.channel.entered)
        (fun message : Message ε => message.event?.isSome)).length_le
      have hphase : p.writer.owes ≤ 2 := by
        cases p.writer <;> simp [WriterPhase.owes]
      rw [EventPipeline.owes]
      rw [beforeShutdown]
      omega
    have hhanded := handed_eventually toNdjson hsound hfront howes
    rwa [after, Runs.run_append]
  · intro hended
    refine ⟨?_, hfed.written_eq⟩
    obtain ⟨rest, hrest⟩ := (hsound.passed (by rw [hended]; rfl)).1
    rw [hsound.handed_of_ended hended, ← hrest, eventsOf_append]
    exact List.prefix_append _ _

def writes (count : ℕ) (accepts : ℕ → Bool) : List (Action ε) :=
  List.replicate count (.write accepts)

/-- One event and a shutdown; of two sinks the second one fails. -/
theorem accepted_events_written_one_event :
    let p := after (some : ℕ → Option ℕ) 2 4
      ([.emit 7, .proceed 0, .proceed 0, .shutdown] ++ writes 6 (fun sink => sink == 0))
    p.writer = .ended ∧ [7] <+: p.handed ∧ p.counters.written = 1 := by
  intro p
  have h := accepted_events_written (some : ℕ → Option ℕ) (fun _ => rfl) 2 4
    ([.emit 7, .proceed 0, .proceed 0, .shutdown] ++ writes 6 (fun sink => sink == 0))
  have hended : p.writer = .ended := by decide
  obtain ⟨hhanded, hwritten⟩ := h.2.2.2.2 hended
  exact ⟨hended, hhanded, hwritten⟩

end CyberSentinel.Eventlog
