import CyberSentinel.Conversations
import CyberSentinel.InspectionWindow
import CyberSentinel.PassRules
import CyberSentinel.SensorEvents
import CyberSentinel.Tails

/-!
# What an alert says was blocked

An alert event carries what was done about its match. The promise of `blocked` is that the rest of
the conversation, and what its source sends for a while, are dropped; and since nothing else drops a
packet, the events that are offered to the log account for every packet that was dropped. Both are
shown here for every interleaving of the detection thread, which reports, with the verdict thread,
which drops. The block comes first and the event after it, so a packet may be dropped by a block
whose event is the next to be offered.
-/

namespace CyberSentinel

open Tables Detect
open Prevent (AlertAction Answer Answers BlockOutcome CondemnedAt DropsBy Enforcement
  Follows History
  LatestSource Op PreventionSettings QueuedPacket Readings Received SameConversation StoreCall)

/-- The latest entry that satisfies `P` is not before any other that does. -/
theorem Runs.exists_latest {ε : Type*} {P : ε → Prop} {history : List ε} {x : ε}
    (hmem : x ∈ history)
    (hx : P x) :
    ∃ before e since, history = before ++ e :: since ∧ P e ∧ (∀ y ∈ since, ¬ P y) ∧
      (x = e ∨ x ∈ before) := by
  induction history using List.reverseRecOn with
  | nil => exact absurd hmem List.not_mem_nil
  | append_singleton history last ih =>
    by_cases hlast : P last
    · refine ⟨history, last, [], rfl, hlast, by simp, ?_⟩
      rcases List.mem_append.1 hmem with hold | hnew
      · exact Or.inr hold
      · exact Or.inl (List.mem_singleton.1 hnew)
    · have hold : x ∈ history := by
        rcases List.mem_append.1 hmem with hold | hnew
        · exact hold
        · exact absurd (List.mem_singleton.1 hnew ▸ hx) hlast
      obtain ⟨before, e, since, heq, he, hsince, hfirst⟩ := ih hold
      refine ⟨before, e, since ++ [last], by simp [heq], he, ?_, hfirst⟩
      intro y hy
      rcases List.mem_append.1 hy with hy | hy
      · exact hsince y hy
      · exact List.mem_singleton.1 hy ▸ hlast

/-! ### Blocks in the calls on the store -/

def Blocked (calls : History) (tuple : NetTuple) (now : Instant) : Prop :=
  ∃ source, (Op.block tuple now, Answer.block (.blocked source)) ∈ calls

theorem blocked_append (xs ys : History) (tuple : NetTuple) (now : Instant) :
    Blocked (xs ++ ys) tuple now ↔ Blocked xs tuple now ∨ Blocked ys tuple now := by
  simp only [Blocked, List.mem_append, exists_or]

section DropsBy

variable {sourceBlock : ℕ} {calls : History}

/-- The running sensor never expires verdicts, so a conversation that was blocked stays so. -/
theorem condemned_iff_blocked (hunexpired : ∀ now answer, (Op.expire now, answer) ∉ calls)
    (t : NetTuple) :
    (∃ blockedAt, CondemnedAt sourceBlock calls t blockedAt) ↔
      ∃ u now, SameConversation u t ∧ Blocked calls u now := by
  constructor
  · rintro ⟨blockedAt, u, source, since, ⟨before, heq, ⟨v, now, source', hcall, hsame⟩, -⟩, -⟩
    obtain ⟨rfl, rfl⟩ := Op.block.inj (congrArg Prod.fst hcall)
    exact ⟨u, blockedAt, hsame, source, heq ▸ by simp⟩
  · rintro ⟨u, now, hsame, source, hmem⟩
    obtain ⟨before, e, since, heq, hblocked, hsince, -⟩ :=
      Runs.exists_latest (P := Prevent.BlockedFlow t) hmem ⟨u, now, source, rfl, hsame⟩
    obtain ⟨v, latest, source', rfl, hsame'⟩ := hblocked
    refine ⟨latest, v, source', since, ⟨before, heq, ⟨v, latest, source', rfl, hsame'⟩, hsince⟩, ?_⟩
    intro expired answer hexpire
    exact absurd (heq ▸ by simp [hexpire]) (hunexpired expired answer)

/-- A source is still blocked if any block on it has not lapsed: the latest one lapses last. -/
theorem source_iff_blocked (hordered : calls.Pairwise (fun x y => Prevent.NotBefore x.1 y.1))
    (address : IpAddr) (now : Instant) :
    (∃ blockedAt, LatestSource calls address blockedAt ∧ now < blockedAt + sourceBlock) ↔
      ∃ u blockedAt, u.srcIp = address ∧ Blocked calls u blockedAt ∧
        now < blockedAt + sourceBlock := by
  constructor
  · rintro ⟨blockedAt, ⟨u, source, since, before, heq, ⟨v, at_, source', hcall, hsource⟩, -⟩, hlive⟩
    obtain ⟨rfl, rfl⟩ := Op.block.inj (congrArg Prod.fst hcall)
    exact ⟨u, blockedAt, hsource, ⟨source, heq ▸ by simp⟩, hlive⟩
  · rintro ⟨u, blockedAt, hsource, ⟨source, hmem⟩, hlive⟩
    obtain ⟨before, e, since, heq, hblocked, hsince, hfirst⟩ :=
      Runs.exists_latest (P := Prevent.BlockedSource address) hmem
        ⟨u, blockedAt, source, rfl, hsource⟩
    obtain ⟨v, latest, source', rfl, hsource'⟩ := hblocked
    have hle : blockedAt ≤ latest := by
      rcases hfirst with heq' | hbefore
      · exact (Op.block.inj (congrArg Prod.fst heq')).2.le
      · rw [heq] at hordered
        exact (List.pairwise_append.1 hordered).2.2 _ hbefore _ List.mem_cons_self blockedAt rfl
          latest rfl
    exact ⟨latest, ⟨v, source', since, before, heq, ⟨v, latest, source', rfl, hsource'⟩, hsince⟩,
      hlive.trans_le (add_le_add_left hle _)⟩

end DropsBy

/-! ### Blocks in the events -/

def SensorEvent.SaysBlocked (e : SensorEvent) (tuple : NetTuple) : Prop :=
  e.net = some tuple ∧ ∃ alert, e.payload = .alert alert ∧ alert.action = .blocked

def SensorMove.workedAt : SensorMove → Option Instant
  | .report clocks => some clocks.now
  | .packet _ _ _ _ _ | .flush _ | .serviceHost _ | .beside _ _ => none

def lastWork (history : List (SensorMove × List SensorEvent)) : Option Instant :=
  (history.filterMap fun entry => entry.1.workedAt).getLast?

theorem lastWork_concat (history : List (SensorMove × List SensorEvent))
    (entry : SensorMove × List SensorEvent) :
    lastWork (history ++ [entry]) = entry.1.workedAt.or (lastWork history) := by
  unfold lastWork
  rw [List.filterMap_append]
  cases hworked : entry.1.workedAt with
  | none => simp [hworked]
  | some now => simp [hworked]

/-- An event that was offered said that the traffic of the tuple was blocked, which was resolved at
that instant: in the detection thread's last piece of work before the event. -/
def ReportedBlocked (history : List (SensorMove × List SensorEvent)) (tuple : NetTuple)
    (now : Instant) : Prop :=
  ∃ before entry since, history = before ++ entry :: since ∧ lastWork before = some now ∧
    ∃ e ∈ entry.2, e.SaysBlocked tuple

theorem reportedBlocked_concat (history : List (SensorMove × List SensorEvent))
    (entry : SensorMove × List SensorEvent) (tuple : NetTuple) (now : Instant) :
    ReportedBlocked (history ++ [entry]) tuple now ↔ ReportedBlocked history tuple now ∨
      lastWork history = some now ∧ ∃ e ∈ entry.2, e.SaysBlocked tuple := by
  constructor
  · rintro ⟨before, told, since, heq, hwork, hsays⟩
    cases since using List.reverseRecOn with
    | nil =>
      obtain ⟨rfl, hlast⟩ := List.append_inj' heq rfl
      obtain rfl := List.singleton_inj.1 hlast
      exact Or.inr ⟨hwork, hsays⟩
    | append_singleton since last =>
      rw [← List.cons_append, ← List.append_assoc] at heq
      exact Or.inl ⟨before, told, since, (List.append_inj' heq rfl).1, hwork, hsays⟩
  · rintro (⟨before, told, since, rfl, hwork, hsays⟩ | ⟨hwork, hsays⟩)
    · exact ⟨before, told, since ++ [entry], by simp, hwork, hsays⟩
    · exact ⟨history, entry, [], rfl, hwork, hsays⟩

section SaidBlocked

variable {R : Regex} {A : AhoCorasick} {T : TextRegex}

/-- The event to be offered next says that the traffic of the tuple was blocked. -/
def Sensor.AboutToSayBlocked (s : Sensor R A T) (tuple : NetTuple) : Prop :=
  ∃ flowId timestamp record,
    s.pending.head? = some (.resolved flowId tuple timestamp record .blocked)

/-- An event has said that the traffic of the tuple was blocked at that instant, or the next one is
about to. -/
def SaidBlocked (s : Sensor R A T) (history : List (SensorMove × List SensorEvent))
    (tuple : NetTuple)
    (now : Instant) : Prop :=
  ReportedBlocked history tuple now ∨ lastWork history = some now ∧ s.AboutToSayBlocked tuple

/-- A packet is dropped by what is reported: the store is armed, neither endpoint is allow-listed,
and an alert says that its conversation was blocked, or says so of its source less than the block's
length ago. -/
def DropsByReport (settings : PreventionSettings) (mode : Prevent.Mode) (s : Sensor R A T)
    (history : List (SensorMove × List SensorEvent)) (t : NetTuple) (now : Instant) : Prop :=
  mode = .prevent ∧ settings.isAllowListed t.srcIp = false ∧
    settings.isAllowListed t.destIp = false ∧
    ((∃ u blockedAt, SameConversation u t ∧ SaidBlocked s history u blockedAt) ∨
      ∃ u blockedAt, u.srcIp = t.srcIp ∧ SaidBlocked s history u blockedAt ∧
        now < blockedAt + settings.sourceBlock)

end SaidBlocked

namespace Sensor

variable {R : Regex} {A : AhoCorasick} {T : TextRegex}

/-! ### What one move does to the store -/

theorem correlate_prevention (s : Sensor R A T) (domain : Correlation.Domain)
    (eventType : Correlation.EventKind) (sid : Option UInt32) (severity : UInt8) (summary : String)
    (timestamp : Instant) :
    (s.correlate domain eventType sid severity summary timestamp).1.prevention = s.prevention := by
  unfold correlate
  cases s.correlator <;> rfl

theorem correlate_not_blocked (s : Sensor R A T) (domain : Correlation.Domain)
    (eventType : Correlation.EventKind) (sid : Option UInt32) (severity : UInt8) (summary : String)
    (timestamp : Instant) (tuple : NetTuple) :
    ∀ e ∈ (s.correlate domain eventType sid severity summary timestamp).2,
      ¬ e.SaysBlocked tuple := by
  unfold correlate
  cases s.correlator with
  | none => exact fun e he => absurd he List.not_mem_nil
  | some correlator =>
    intro e he
    obtain ⟨incident, -, rfl⟩ := List.mem_map.1 he
    rintro ⟨hnet, -⟩
    exact absurd hnet (by simp)

theorem correlate_pending (s : Sensor R A T) (domain : Correlation.Domain)
    (eventType : Correlation.EventKind) (sid : Option UInt32) (severity : UInt8) (summary : String)
    (timestamp : Instant) :
    (s.correlate domain eventType sid severity summary timestamp).1.pending = s.pending := by
  unfold correlate
  cases s.correlator <;> rfl

theorem reportFinding_pending (s : Sensor R A T) (finding : HostFinding) (timestamp : Instant) :
    (s.reportFinding finding timestamp).1.pending = s.pending := by
  unfold reportFinding
  rw [correlate_pending]

theorem reportFinding_prevention (s : Sensor R A T) (finding : HostFinding) (timestamp : Instant) :
    (s.reportFinding finding timestamp).1.prevention = s.prevention := by
  unfold reportFinding
  rw [correlate_prevention]

/-- Nothing of the host is blocked: its alerts have no tuple. -/
theorem reportFinding_not_blocked (s : Sensor R A T) (finding : HostFinding) (timestamp : Instant)
    (tuple : NetTuple) :
    ∀ e ∈ (s.reportFinding finding timestamp).2, ¬ e.SaysBlocked tuple := by
  intro e he
  rcases List.mem_append.1 he with he | he
  · rcases List.mem_append.1 he with he | he
    · obtain ⟨record, -, rfl⟩ := List.mem_map.1 he
      rintro ⟨hnet, -⟩
      exact absurd hnet (by simp [hostAlertEvent])
    · exact correlate_not_blocked _ _ _ _ _ _ _ tuple e he
  · rw [List.mem_singleton.1 he]
    rintro ⟨hnet, -⟩
    exact absurd hnet (by simp)

/-- The ready-made events are those of flows and malformed packets. -/
def PlainEvents (reports : List Report) : Prop :=
  ∀ event, Report.event event ∈ reports → event.payload.kind = .flow ∨ event.payload.kind = .anomaly

theorem PlainEvents.not_saysBlocked {reports : List Report} (h : PlainEvents reports)
    {event : SensorEvent} (hevent : Report.event event ∈ reports) (tuple : NetTuple) :
    ¬ event.SaysBlocked tuple := by
  rintro ⟨-, alert, halert, -⟩
  rcases h event hevent with hkind | hkind
  · simp [halert, Payload.kind] at hkind
  · simp [halert, Payload.kind] at hkind

section ReadyMade

/-! What holds of the events of ended flows and of malformed packets holds of every ready-made event
that is lined up. -/

variable {P : SensorEvent → Prop} (hflow : ∀ ended : EndedFlow, P ended.event)

include hflow

theorem reports_readyMade (options : PipelineOptions) (trace : List Event) :
    ∀ event, Report.event event ∈ trace.flatMap (Event.reports options) → P event := by
  intro event hevent
  obtain ⟨traced, -, hreport⟩ := List.mem_flatMap.1 hevent
  cases traced with
  | delivered flowId ready => exact absurd hreport List.not_mem_nil
  | ended flow =>
    simp only [Event.reports] at hreport
    split_ifs at hreport
    · obtain rfl := Report.event.inj (List.mem_singleton.1 hreport)
      exact hflow flow
    · exact absurd hreport List.not_mem_nil
  | call c output =>
    simp only [Event.reports, alertReports] at hreport
    cases haddressed : c.addressed? with
    | none => simp [haddressed] at hreport
    | some addressed => simp [haddressed] at hreport

variable (hanomaly : ∀ interface packet decoded flowId,
    P (anomalyEvent interface packet decoded flowId))

include hanomaly

theorem onPacket_readyMade (E : Decode.Etherparse) (s : Sensor R A T) (walks again : Walks)
    (sets : HashOrder FragmentKey) (interface : String) (packet : RawPacket) :
    ∀ event, Report.event event ∈ (s.onPacket E walks again sets interface packet).pending →
      P event := by
  intro event hevent
  rcases List.mem_append.1 hevent with hevent | hevent
  · rcases List.mem_append.1 hevent with hevent | hevent
    · exact reports_readyMade hflow s.options _ event hevent
    · split_ifs at hevent
      · obtain rfl := Report.event.inj (List.mem_singleton.1 hevent)
        exact hanomaly _ _ _ _
      · exact absurd hevent List.not_mem_nil
  · exact reports_readyMade hflow s.options _ event hevent

end ReadyMade

def NoneResolved (reports : List Report) : Prop :=
  ∀ flowId tuple timestamp record action,
    Report.resolved flowId tuple timestamp record action ∉ reports

theorem reports_noneResolved (options : PipelineOptions) (trace : List Event) :
    NoneResolved (trace.flatMap (Event.reports options)) := by
  intro flowId tuple timestamp record action hresolved
  obtain ⟨traced, -, hreport⟩ := List.mem_flatMap.1 hresolved
  cases traced with
  | delivered flowId ready => exact absurd hreport List.not_mem_nil
  | ended flow =>
    simp only [Event.reports] at hreport
    split_ifs at hreport
    · exact absurd (List.mem_singleton.1 hreport) (by simp)
    · exact absurd hreport List.not_mem_nil
  | call c output =>
    simp only [Event.reports, alertReports] at hreport
    cases haddressed : c.addressed? with
    | none => simp [haddressed] at hreport
    | some addressed => simp [haddressed] at hreport

theorem onPacket_noneResolved (E : Decode.Etherparse) (s : Sensor R A T) (walks again : Walks)
    (sets : HashOrder FragmentKey) (interface : String) (packet : RawPacket) :
    NoneResolved (s.onPacket E walks again sets interface packet).pending := by
  intro flowId tuple timestamp record action hresolved
  rcases List.mem_append.1 hresolved with hresolved | hresolved
  · rcases List.mem_append.1 hresolved with hresolved | hresolved
    · exact reports_noneResolved s.options _ flowId tuple timestamp record action hresolved
    · split_ifs at hresolved
      · exact absurd (List.mem_singleton.1 hresolved) (by simp)
      · exact absurd hresolved List.not_mem_nil
  · exact reports_noneResolved s.options _ flowId tuple timestamp record action hresolved

theorem flush_noneResolved (s : Sensor R A T) (order : HashOrder FlowKey) :
    NoneResolved (s.flush order).pending := reports_noneResolved s.options _

theorem serviceHost_noneResolved (s : Sensor R A T) (batch : HostBatch) :
    NoneResolved (s.serviceHost batch).pending := by
  intro flowId tuple timestamp record action hresolved
  simp [serviceHost] at hresolved

theorem NoneResolved.not_about {s : Sensor R A T} (h : NoneResolved s.pending) (tuple : NetTuple) :
    ¬ s.AboutToSayBlocked tuple := by
  rintro ⟨flowId, timestamp, record, hhead⟩
  exact h _ _ _ _ _ (List.mem_of_mem_head? hhead)

/-- What the two threads ask of the store in one step. Neither ever has it expire its verdicts. -/
theorem step_calls (enforcement : Enforcement) (move : Prevent.Move) :
    (enforcement.step move).2 = [] ∨
      (∃ t now decision, (enforcement.step move).2 = [(.decide t now, .decide decision)]) ∨
      (∃ mode, (enforcement.step move).2 = [(.setMode mode, .none)]) ∨
      ∃ u now outcome, move = .block u now ∧
        (enforcement.step move).2 = [(.block u now, .block outcome)] := by
  cases move with
  | verdict readings =>
    simp only [Enforcement.step, Enforcement.verdict]
    cases enforcement.phase with
    | checking => exact Or.inl rfl
    | receiving => exact Or.inl rfl
    | judging packet =>
      dsimp only
      split_ifs
      · exact Or.inl rfl
      · exact Or.inr (Or.inl ⟨packet.tuple, readings.now, _, rfl⟩)
    | stopped => exact Or.inl rfl
  | block u now =>
    simp only [Enforcement.step, Enforcement.block]
    split_ifs
    · exact Or.inl rfl
    · exact Or.inr (Or.inr (Or.inr ⟨u, now, _, rfl, rfl⟩))
  | publish depth => exact Or.inl rfl
  | setMode mode =>
    simp only [Enforcement.step, Enforcement.setMode]
    split_ifs
    · exact Or.inl rfl
    · exact Or.inr (Or.inr (Or.inl ⟨mode, rfl⟩))
  | shutdown => exact Or.inl rfl
  | poison => exact Or.inl rfl

theorem not_blocked_of_not_isBlock (enforcement : Enforcement) {move : Prevent.Move}
    (h : move.isBlock = false) (tuple : NetTuple) (now : Instant) :
    ¬ Blocked (enforcement.step move).2 tuple now := by
  rintro ⟨source, hmem⟩
  rcases step_calls enforcement move with
    hcalls | ⟨t, at_, decision, hcalls⟩ | ⟨mode, hcalls⟩ | ⟨u, at_, outcome, rfl, -⟩
  · simp [hcalls] at hmem
  · simp [hcalls] at hmem
  · simp [hcalls] at hmem
  · exact absurd h (by simp [Prevent.Move.isBlock])

theorem step_unexpired (enforcement : Enforcement) (move : Prevent.Move) (now : Instant)
    (answer : Answer) : (Op.expire now, answer) ∉ (enforcement.step move).2 := by
  rcases step_calls enforcement move with
    hcalls | ⟨t, at_, decision, hcalls⟩ | ⟨mode, hcalls⟩ | ⟨u, at_, outcome, -, hcalls⟩
  · simp [hcalls]
  · simp [hcalls]
  · simp [hcalls]
  · simp [hcalls]

/-- Whether a block was recorded is what the detection thread makes of the store's answer. -/
theorem blocked_block_iff (enforcement : Enforcement) (u tuple : NetTuple) (at_ now : Instant) :
    Blocked (enforcement.block u at_).2 tuple now ↔
      tuple = u ∧ now = at_ ∧ recorded (enforcement.block u at_).2 = true := by
  unfold Enforcement.block Blocked
  split_ifs
  · simp [recorded]
  · dsimp only
    generalize (enforcement.store.prevention.block u at_).2 = outcome
    cases outcome <;> simp [recorded]

/-- An alert says that the traffic was blocked exactly when its action does, and of its own tuple.
-/
theorem alertEvent_saysBlocked_iff (flowId : UInt64) (u tuple : NetTuple) (timestamp : Instant)
    (record : AlertRecord) (action : AlertAction) :
    (alertEvent flowId u timestamp record action).SaysBlocked tuple ↔
      tuple = u ∧ action = .blocked := by
  simp only [SensorEvent.SaysBlocked, alertEvent, Option.some.injEq, Payload.alert.injEq,
    exists_eq_left', AlertRecord.event]
  exact and_congr_left' eq_comm

/-- What a step makes of the store, and the calls that it makes on it. -/
def CallsStore (enforcement : Enforcement) (move : SensorMove) (calls : History)
    (prevention : Option Enforcement) : Prop :=
  (prevention = some enforcement ∧ calls = []) ∨
    ∃ m : Prevent.Move, prevention = some (enforcement.step m).1 ∧ calls = (enforcement.step m).2 ∧
      m.instant = move.instant

/-- The blocks that a step records are those that it is then about to say; what it offers is what
was about to be said. -/
structure TellsBlocks (s : Sensor R A T) (move : SensorMove) (calls : History)
    (next : Sensor R A T × List SensorEvent) : Prop where
  said : ∀ tuple, (∃ e ∈ next.2, e.SaysBlocked tuple) ↔
    move.workedAt.isSome = true ∧ s.AboutToSayBlocked tuple
  about : ∀ tuple, next.1.AboutToSayBlocked tuple ↔
    (move.workedAt = none ∧ s.AboutToSayBlocked tuple) ∨
      ∃ now, move.workedAt = some now ∧ Blocked calls tuple now
  blocked : ∀ tuple now, Blocked calls tuple now → move.workedAt = some now

theorem not_blocked_nil (tuple : NetTuple) (now : Instant) : ¬ Blocked [] tuple now :=
  fun ⟨_, hmem⟩ => absurd hmem List.not_mem_nil

/-- A step of another kind, or one that finds nothing to do, says nothing and leaves what is about
to be said. -/
theorem tellsBlocks_aside {s s' : Sensor R A T} {move : SensorMove} {calls : History}
    (hmove : move.workedAt = none ∨ s.pending = [])
    (hcalls : ∀ tuple now, ¬ Blocked calls tuple now)
    (habout : ∀ tuple, s'.AboutToSayBlocked tuple ↔ s.AboutToSayBlocked tuple) :
    TellsBlocks s move calls (s', []) := by
  have hidle : s.pending = [] → ∀ tuple, ¬ s.AboutToSayBlocked tuple := by
    rintro hpending tuple ⟨flowId, timestamp, record, hhead⟩
    simp [hpending] at hhead
  refine ⟨fun tuple => iff_of_false ?_ ?_, fun tuple => ?_, fun tuple now hblocked =>
    absurd hblocked (hcalls tuple now)⟩
  · rintro ⟨e, he, -⟩
    exact absurd he List.not_mem_nil
  · rintro ⟨hworked, hsays⟩
    rcases hmove with hmove | hpending
    · simp [hmove] at hworked
    · exact hidle hpending tuple hsays
  · rw [habout]
    constructor
    · intro hsays
      rcases hmove with hmove | hpending
      · exact Or.inl ⟨hmove, hsays⟩
      · exact absurd hsays (hidle hpending tuple)
    · rintro (⟨-, hsays⟩ | ⟨now, -, hblocked⟩)
      · exact hsays
      · exact absurd hblocked (hcalls tuple now)

/-- Work other than on an alert: nothing is blocked, nothing is said of blocks, and nothing is about
to be. -/
theorem tellsBlocks_other {s s' : Sensor R A T} {events : List SensorEvent} {report : Report}
    {rest : List Report} (hpending : s.pending = report :: rest)
    (hreport : ∀ flowId tuple timestamp record action,
      report ≠ .resolved flowId tuple timestamp record action)
    (hevents : ∀ tuple, ∀ e ∈ events, ¬ e.SaysBlocked tuple) (hrest : NoneResolved s'.pending)
    (clocks : Clocks) : TellsBlocks s (.report clocks) [] (s', events) := by
  refine ⟨fun tuple => iff_of_false ?_ ?_, fun tuple => iff_of_false (hrest.not_about tuple) ?_,
    fun tuple now hblocked => absurd hblocked (not_blocked_nil tuple now)⟩
  · rintro ⟨e, he, hsays⟩
    exact hevents tuple e he hsays
  · rintro ⟨-, flowId, timestamp, record, hhead⟩
    rw [hpending, List.head?_cons] at hhead
    exact hreport _ _ _ _ _ (Option.some.inj hhead)
  · rintro (⟨hworked, -⟩ | ⟨now, -, hblocked⟩)
    · exact absurd hworked (by simp [SensorMove.workedAt])
    · exact not_blocked_nil tuple now hblocked

theorem work_alert_tellsBlocks {s : Sensor R A T} {enforcement : Enforcement}
    (hprevention : s.prevention = some enforcement) (clocks : Clocks) {flowId : UInt64}
    {u : NetTuple}
    {timestamp : Instant} {record : AlertRecord} {rest : List Report}
    (hpending : s.pending = .alert flowId u timestamp record :: rest) :
    let next := work { s with pending := rest } clocks (.alert flowId u timestamp record)
    ∃ calls, CallsStore enforcement (.report clocks) calls next.1.prevention ∧
      TellsBlocks s (.report clocks) calls next := by
  intro next
  have hsaid (tuple : NetTuple) : (∃ e ∈ next.2, e.SaysBlocked tuple) ↔
      (SensorMove.report clocks).workedAt.isSome = true ∧ s.AboutToSayBlocked tuple := by
    refine iff_of_false ?_ ?_
    · rintro ⟨e, he, -⟩
      exact absurd he List.not_mem_nil
    · rintro ⟨-, flowId, timestamp, record, hhead⟩
      simp [hpending] at hhead
  cases hblocks : record.blocks with
  | false =>
    have hnext : next = ({ s with
        pending := .resolved flowId u timestamp record .alerted :: rest }, []) := by
      simp only [next, work, enforce, hblocks, Bool.not_false, if_true]
    refine ⟨[], Or.inl ⟨by rw [hnext]; exact hprevention, rfl⟩, hsaid, fun tuple => ?_,
      fun tuple now hblocked => absurd hblocked (not_blocked_nil tuple now)⟩
    rw [hnext]
    simp [AboutToSayBlocked, SensorMove.workedAt, not_blocked_nil]
  | true =>
    let blocked := enforcement.block u clocks.now
    have hnext : next = ({ s with
        prevention := some blocked.1
        pending := .resolved flowId u timestamp record
          (if recorded blocked.2 then .blocked else .alerted) :: rest }, []) := by
      simp only [next, work, enforce, hblocks, Bool.not_true, Bool.false_eq_true, if_false,
        hprevention]
      rfl
    have hcalls (tuple : NetTuple) (now : Instant) : Blocked blocked.2 tuple now ↔
        tuple = u ∧ now = clocks.now ∧ recorded blocked.2 = true := blocked_block_iff enforcement ..
    refine ⟨blocked.2, Or.inr ⟨.block u clocks.now, by rw [hnext]; rfl, rfl, rfl⟩, hsaid,
      fun tuple => ?_, fun tuple now hblocked => ?_⟩
    · rw [hnext]
      simp only [AboutToSayBlocked, SensorMove.workedAt, hcalls, List.head?_cons, Option.some.injEq,
        reduceCtorEq, false_and, false_or]
      cases recorded blocked.2 <;> simp [eq_comm]
    · exact congrArg some ((hcalls tuple now).1 hblocked).2.1.symm

theorem work_resolved_tellsBlocks {s : Sensor R A T} (clocks : Clocks) {flowId : UInt64}
    {u : NetTuple}
    {timestamp : Instant} {record : AlertRecord} {action : AlertAction} {rest : List Report}
    (hpending : s.pending = .resolved flowId u timestamp record action :: rest)
    (hrest : NoneResolved rest) :
    TellsBlocks s (.report clocks) []
      (work { s with pending := rest } clocks (.resolved flowId u timestamp record action)) := by
  refine ⟨fun tuple => ?_, fun tuple =>
    iff_of_false (hrest.not_about (s := { s with pending := rest })
    tuple) ?_, fun tuple now hblocked => absurd hblocked (not_blocked_nil tuple now)⟩
  · simp only [work, List.mem_singleton, exists_eq_left, alertEvent_saysBlocked_iff,
      AboutToSayBlocked,
      hpending, SensorMove.workedAt, List.head?_cons, Option.some.injEq, Report.resolved.injEq,
      Option.isSome_some, true_and]
    constructor
    · rintro ⟨rfl, rfl⟩
      exact ⟨flowId, timestamp, record, rfl, rfl, rfl, rfl, rfl⟩
    · rintro ⟨-, -, -, -, rfl, -, -, rfl⟩
      exact ⟨rfl, rfl⟩
  · rintro (⟨hworked, -⟩ | ⟨now, -, hblocked⟩)
    · exact absurd hworked (by simp [SensorMove.workedAt])
    · exact not_blocked_nil tuple now hblocked

/-- Taking something in, while nothing is left to do, asks nothing of the store. -/
theorem takes_tellsBlocks {s s' : Sensor R A T} {enforcement : Enforcement} {move : SensorMove}
    (hprevention : s.prevention = some enforcement) (hprevention' : s'.prevention = s.prevention)
    (hmove : move.workedAt = none) (hnew : NoneResolved s'.pending) :
    let next := if s.pending = [] then (s', []) else (s, [])
    ∃ calls, CallsStore enforcement move calls next.1.prevention ∧
      TellsBlocks s move calls next := by
  intro next
  by_cases hpending : s.pending = []
  · have hnext : next = (s', []) := if_pos hpending
    have hidle : NoneResolved s.pending := by simp [NoneResolved, hpending]
    rw [hnext]
    exact ⟨[], Or.inl ⟨hprevention'.trans hprevention, rfl⟩,
      tellsBlocks_aside (Or.inl hmove) not_blocked_nil fun tuple =>
        iff_of_false (hnew.not_about tuple) (hidle.not_about tuple)⟩
  · have hnext : next = (s, []) := if_neg hpending
    rw [hnext]
    exact ⟨[], Or.inl ⟨hprevention, rfl⟩,
      tellsBlocks_aside (Or.inl hmove) not_blocked_nil fun _ => Iff.rfl⟩

theorem step_tellsBlocks (E : Decode.Etherparse) {s : Sensor R A T} {enforcement : Enforcement}
    (hprevention : s.prevention = some enforcement) (hplain : PlainEvents s.pending)
    (hresolved : NoneResolved s.pending.tail) (move : SensorMove) :
    ∃ calls, CallsStore enforcement move calls (s.step E move).1.prevention ∧
      TellsBlocks s move calls (s.step E move) := by
  cases move with
  | packet walks again sets interface packet =>
    exact takes_tellsBlocks hprevention rfl rfl
      (onPacket_noneResolved E s walks again sets interface packet)
  | flush order => exact takes_tellsBlocks hprevention rfl rfl (s.flush_noneResolved order)
  | serviceHost batch =>
    exact takes_tellsBlocks hprevention rfl rfl (s.serviceHost_noneResolved batch)
  | beside move hmove =>
    refine ⟨(enforcement.step move).2, Or.inr ⟨move, ?_, rfl, rfl⟩, tellsBlocks_aside (Or.inl rfl)
      (not_blocked_of_not_isBlock enforcement hmove) fun _ => Iff.rfl⟩
    change s.prevention.map _ = _
    rw [hprevention, Option.map_some]
  | report clocks =>
    cases hpending : s.pending with
    | nil =>
      simp only [step, hpending]
      exact ⟨[], Or.inl ⟨hprevention, rfl⟩, tellsBlocks_aside (Or.inr hpending) not_blocked_nil
        fun _ => Iff.rfl⟩
    | cons report rest =>
      have hrest : NoneResolved rest := by
        rw [hpending] at hresolved
        exact hresolved
      simp only [step, hpending]
      cases report with
      | alert flowId u timestamp record => exact work_alert_tellsBlocks hprevention clocks hpending
      | resolved flowId u timestamp record action =>
        exact ⟨[], Or.inl ⟨hprevention, rfl⟩, work_resolved_tellsBlocks clocks hpending hrest⟩
      | offer timestamp record =>
        refine ⟨[], Or.inl ⟨(correlate_prevention _ _ _ _ _ _ _).trans hprevention, rfl⟩,
          tellsBlocks_other hpending (by simp)
            (fun tuple => correlate_not_blocked _ _ _ _ _ _ _ tuple) ?_ clocks⟩
        exact (congrArg NoneResolved (correlate_pending _ _ _ _ _ _ _)).mpr hrest
      | event event =>
        refine ⟨[], Or.inl ⟨hprevention, rfl⟩, tellsBlocks_other hpending (by simp)
          (fun tuple e he => ?_) hrest clocks⟩
        rw [List.mem_singleton.1 he]
        exact hplain.not_saysBlocked (hpending ▸ List.mem_cons_self) tuple
      | overflow =>
        refine ⟨[], Or.inl ⟨hprevention, rfl⟩, tellsBlocks_other hpending (by simp)
          (fun tuple e he => ?_) hrest clocks⟩
        rw [List.mem_singleton.1 he]
        rintro ⟨hnet, -⟩
        exact absurd hnet (by simp [overflowEvent])
      | finding finding =>
        refine ⟨[], Or.inl ⟨(reportFinding_prevention _ _ _).trans hprevention, rfl⟩,
          tellsBlocks_other hpending (by simp)
            (fun tuple => reportFinding_not_blocked _ _ _ tuple) ?_ clocks⟩
        exact (congrArg NoneResolved (reportFinding_pending _ _ _)).mpr hrest

theorem enforce_aside (s : Sensor R A T) (ruleBlocks : Bool) (tuple : NetTuple) (now : Instant) :
    let next := (s.enforce ruleBlocks tuple now).1
    next.toDetection = s.toDetection ∧ next.options = s.options ∧ next.decode = s.decode ∧
      next.hostAlerts = s.hostAlerts ∧ next.correlator = s.correlator := by
  simp only [enforce]
  split_ifs
  · exact ⟨rfl, rfl, rfl, rfl, rfl⟩
  · cases s.prevention with
    | none => exact ⟨rfl, rfl, rfl, rfl, rfl⟩
    | some enforcement => exact ⟨rfl, rfl, rfl, rfl, rfl⟩

/-- What is left of a piece of work: an alert that was resolved has still to be reported. -/
def leaves (s : Sensor R A T) (clocks : Clocks) : Report → List Report
  | .alert flowId tuple timestamp record =>
    [.resolved flowId tuple timestamp record (s.enforce record.blocks tuple clocks.now).2]
  | .resolved _ _ _ _ _ | .offer _ _ | .event _ | .overflow | .finding _ => []

theorem work_pending (s : Sensor R A T) (clocks : Clocks) (report : Report) :
    (s.work clocks report).1.pending = s.leaves clocks report ++ s.pending := by
  cases report with
  | alert flowId u timestamp record =>
    simp only [work, enforce, leaves]
    split_ifs
    · rfl
    · cases s.prevention <;> rfl
  | resolved flowId u timestamp record action => rfl
  | offer timestamp record => exact correlate_pending ..
  | event event => rfl
  | overflow => rfl
  | finding finding => exact s.reportFinding_pending finding clocks.wall

theorem leaves_readyMade (s : Sensor R A T) (clocks : Clocks) (report : Report)
    (event : SensorEvent) :
    Report.event event ∉ s.leaves clocks report := by
  cases report <;> simp [leaves]

theorem step_readyMade {P : SensorEvent → Prop} (hflow : ∀ ended : EndedFlow, P ended.event)
    (hanomaly : ∀ interface packet decoded flowId, P (anomalyEvent interface packet decoded flowId))
    (E : Decode.Etherparse) {s : Sensor R A T}
    (h : ∀ event, Report.event event ∈ s.pending → P event)
    (move : SensorMove) : ∀ event, Report.event event ∈ (s.step E move).1.pending → P event := by
  cases move with
  | packet walks again sets interface packet =>
    simp only [step]
    split_ifs
    · exact onPacket_readyMade hflow hanomaly E s walks again sets interface packet
    · exact h
  | flush order =>
    simp only [step]
    split_ifs
    · exact reports_readyMade hflow s.options _
    · exact h
  | serviceHost batch =>
    simp only [step]
    split_ifs
    · intro event hevent
      simp [serviceHost] at hevent
    · exact h
  | beside move hmove => exact h
  | report clocks =>
    cases hpending : s.pending with
    | nil =>
      simp only [step, hpending]
      exact hpending ▸ h
    | cons report rest =>
      simp only [step, hpending, work_pending]
      intro event hevent
      rcases List.mem_append.1 hevent with hevent | hevent
      · exact absurd hevent (leaves_readyMade _ clocks report event)
      · exact h event (hpending ▸ List.mem_cons_of_mem _ hevent)

theorem step_plain (E : Decode.Etherparse) {s : Sensor R A T} (hplain : PlainEvents s.pending)
    (move : SensorMove) : PlainEvents (s.step E move).1.pending :=
  step_readyMade (fun _ => Or.inl rfl) (fun _ _ _ _ => Or.inr rfl) E hplain move

theorem step_noneResolved (E : Decode.Etherparse) {s : Sensor R A T}
    (h : NoneResolved s.pending.tail) (move : SensorMove) :
    NoneResolved (s.step E move).1.pending.tail := by
  have htail {reports : List Report}
      (hreports : NoneResolved reports) : NoneResolved reports.tail :=
    fun _ _ _ _ _ hmem => hreports _ _ _ _ _ (List.mem_of_mem_tail hmem)
  cases move with
  | packet walks again sets interface packet =>
    simp only [step]
    split_ifs
    · exact htail (onPacket_noneResolved E s walks again sets interface packet)
    · exact h
  | flush order =>
    simp only [step]
    split_ifs
    · exact htail (s.flush_noneResolved order)
    · exact h
  | serviceHost batch =>
    simp only [step]
    split_ifs
    · exact htail (s.serviceHost_noneResolved batch)
    · exact h
  | beside move hmove => exact h
  | report clocks =>
    cases hpending : s.pending with
    | nil =>
      simp only [step, hpending]
      exact hpending ▸ h
    | cons report rest =>
      rw [hpending] at h
      simp only [step, hpending, work_pending]
      cases report with
      | alert flowId u timestamp record => exact h
      | resolved _ _ _ _ _ | offer _ _ | event _ | overflow | finding _ => exact htail h

/-! ### Whole runs -/

/-- The calls made on the store so far describe it, and their blocks are those that the events tell.
-/
structure Reported (settings : PreventionSettings) (incoming : List Received) (s : Sensor R A T)
    (history : List (SensorMove × List SensorEvent)) (enforcement : Enforcement) (calls : History) :
    Prop where
  prevention : s.prevention = some enforcement
  plain : PlainEvents s.pending
  resolved : NoneResolved s.pending.tail
  answers : Answers incoming enforcement
  follows : Follows settings enforcement.store.prevention calls
  instants : ∀ call ∈ calls, ∀ now ∈ call.1.instant, ∃ entry ∈ history, now ∈ entry.1.instant
  ordered : calls.Pairwise (fun x y => Prevent.NotBefore x.1 y.1)
  unexpired : ∀ now answer, (Op.expire now, answer) ∉ calls
  said : ∀ tuple now, Blocked calls tuple now ↔ SaidBlocked s history tuple now

theorem Reported.start (name : String) (options : PipelineOptions) (detection : Detection R A T)
    (correlation : Option Correlation.CorrelationSettings) (settings : PreventionSettings)
    (incoming : List Received) :
    Reported settings incoming
      (start name options detection correlation (some (settings, incoming))) []
      (.start settings incoming) [] where
  prevention := rfl
  plain := fun _ hevent => absurd hevent List.not_mem_nil
  resolved := fun _ _ _ _ _ hmem => absurd hmem List.not_mem_nil
  answers := Answers.start settings incoming
  follows := Follows.new settings
  instants := by simp
  ordered := List.Pairwise.nil
  unexpired := by simp
  said := by simp [Blocked, SaidBlocked, ReportedBlocked, lastWork]

/-- What is said once the step is made: what was said before, and what was blocked in it. -/
theorem TellsBlocks.saidBlocked_iff {s : Sensor R A T} {move : SensorMove} {calls : History}
    {next : Sensor R A T × List SensorEvent} (h : TellsBlocks s move calls next)
    (history : List (SensorMove × List SensorEvent)) (tuple : NetTuple) (now : Instant) :
    SaidBlocked next.1 (history ++ [(move, next.2)]) tuple now ↔
      SaidBlocked s history tuple now ∨ Blocked calls tuple now := by
  unfold SaidBlocked
  rw [reportedBlocked_concat, lastWork_concat, h.said, h.about]
  cases hworked : move.workedAt with
  | none =>
    have hnone : ¬ Blocked calls tuple now := fun hblocked =>
      absurd (hworked.symm.trans (h.blocked tuple now hblocked)) (by simp)
    simp [hnone]
  | some worked =>
    have hnow : Blocked calls tuple now → worked = now := fun hblocked =>
      Option.some.inj (hworked.symm.trans (h.blocked tuple now hblocked))
    simp only [Option.isSome_some, true_and, reduceCtorEq, false_and, false_or, Option.some_or,
      Option.some.injEq, exists_eq_left']
    refine or_congr_right ⟨?_, fun hblocked => ⟨hnow hblocked, (hnow hblocked).symm ▸ hblocked⟩⟩
    rintro ⟨rfl, hblocked⟩
    exact hblocked

theorem CallsStore.spec {settings : PreventionSettings} {incoming : List Received}
    {enforcement : Enforcement} {move : SensorMove} {before calls : History}
    {prevention : Option Enforcement} (h : CallsStore enforcement move calls prevention)
    (hanswers : Answers incoming enforcement)
    (hfollows : Follows settings enforcement.store.prevention before)
    (hpast : ∀ earlier ∈ before, ∀ a ∈ earlier.1.instant, ∀ b ∈ move.instant, a ≤ b) :
    ∃ enforcement', prevention = some enforcement' ∧ Answers incoming enforcement' ∧
      Follows settings enforcement'.store.prevention (before ++ calls) ∧
      (∀ call ∈ calls, ∀ now ∈ call.1.instant, now ∈ move.instant) ∧
      (∀ now answer, (Op.expire now, answer) ∉ calls) ∧
      calls.Pairwise (fun x y => Prevent.NotBefore x.1 y.1) := by
  rcases h with ⟨hprevention, rfl⟩ | ⟨m, hprevention, rfl, hinstant⟩
  · refine ⟨enforcement, hprevention, hanswers, ?_, by simp, by simp, List.Pairwise.nil⟩
    rw [List.append_nil]
    exact hfollows
  · refine ⟨(enforcement.step m).1, hprevention, hanswers.step m, ?_⟩
    rcases Prevent.step_store enforcement m with ⟨hcalls, hsame⟩ | ⟨op, hcalls, hstore, hop⟩
    · rw [hcalls, hsame, List.append_nil]
      exact ⟨hfollows, by simp, by simp, List.Pairwise.nil⟩
    · have hread : ∀ call ∈ (enforcement.step m).2, ∀ now ∈ call.1.instant, now ∈ move.instant := by
        intro call hcall now hnow
        rw [hcalls] at hcall
        rw [List.mem_singleton.1 hcall] at hnow
        exact hinstant ▸ hop now hnow
      refine ⟨?_, hread, step_unexpired enforcement m, ?_⟩
      · rw [hcalls] at hread ⊢
        rw [hstore]
        exact hfollows.step op fun earlier hearlier a ha b hb =>
          hpast earlier hearlier a ha b (hread _ (List.mem_singleton_self _) b hb)
      · rw [hcalls]
        exact List.pairwise_singleton _ _

/-- A step of the two threads adds its calls, made at the instant that the move may read. -/
theorem Reported.step {settings : PreventionSettings} {incoming : List Received} {s : Sensor R A T}
    {history : List (SensorMove × List SensorEvent)} {enforcement : Enforcement} {calls : History}
    (h : Reported settings incoming s history enforcement calls) (E : Decode.Etherparse)
    (move : SensorMove) (hpast : ∀ entry ∈ history, entry.1.NotBefore move) :
    ∃ enforcement' calls', Reported settings incoming (s.step E move).1
      (history ++ [(move, (s.step E move).2)]) enforcement' calls' := by
  obtain ⟨added, hstore, htold⟩ := step_tellsBlocks E h.prevention h.plain h.resolved move
  have hbefore : ∀ earlier ∈ calls, ∀ a ∈ earlier.1.instant, ∀ b ∈ move.instant, a ≤ b := by
    intro earlier hearlier a ha b hb
    obtain ⟨entry, hentry, hat⟩ := h.instants earlier hearlier a ha
    exact hpast entry hentry a hat b hb
  obtain ⟨enforcement', hprevention, hanswers, hfollows, hread, hunexpired, hpairs⟩ :=
    hstore.spec h.answers h.follows hbefore
  refine ⟨enforcement', calls ++ added, hprevention, step_plain E h.plain move,
    step_noneResolved E h.resolved move, hanswers, hfollows, ?_, ?_, ?_, fun tuple now => ?_⟩
  · intro call hcall now hnow
    rcases List.mem_append.1 hcall with hold | hnew
    · obtain ⟨entry, hentry, hinstant⟩ := h.instants call hold now hnow
      exact ⟨entry, List.mem_append_left _ hentry, hinstant⟩
    · exact ⟨(move, (s.step E move).2), by simp, hread call hnew now hnow⟩
  · refine List.pairwise_append.2 ⟨h.ordered, hpairs, fun earlier hearlier later hlater a ha b hb =>
      ?_⟩
    exact hbefore earlier hearlier a ha b (hread later hlater b hb)
  · intro now answer hmem
    rcases List.mem_append.1 hmem with hold | hnew
    · exact h.unexpired now answer hold
    · exact hunexpired now answer hnew
  · rw [blocked_append, h.said, htold.saidBlocked_iff]

/-- After any run, the store's calls and the blocks that the events tell agree. -/
theorem reported_run (E : Decode.Etherparse) {s : Sensor R A T} {settings : PreventionSettings}
    {incoming : List Received} {enforcement : Enforcement}
    (h : Reported settings incoming s [] enforcement []) {moves : List SensorMove}
    (hmoves : moves.Pairwise SensorMove.NotBefore) :
    let run := Runs.run (step E) s moves
    ∃ enforcement' calls,
      Reported settings incoming run.1 (moves.zip run.2) enforcement' calls := by
  intro run
  have hrun := Runs.history_invariant (step E)
    (fun s history => ∃ enforcement' calls, Reported settings incoming s history enforcement' calls)
    SensorMove.NotBefore
    (fun s history move ⟨enforcement', calls, hs⟩ hpast => hs.step E move hpast)
    ⟨enforcement, [], h⟩ (by simp) hmoves
  simpa using hrun

/-- What the alerts say was blocked is what is dropped. Whatever the interleaving, the packet in
hand is dropped exactly when the store is armed, neither of its endpoints is allow-listed, and an
alert that was offered to the log, or the one that is offered next, says that its conversation was
blocked, or says so of its source within the last `sourceBlock`. -/
theorem dropped_iff_alert_said_blocked (E : Decode.Etherparse) (name : String)
    (options : PipelineOptions) (detection : Detection R A T)
    (correlation : Option Correlation.CorrelationSettings) (settings : PreventionSettings)
    (incoming : List Received) (moves : List SensorMove) (readings : Readings)
    (hmoves : (moves ++ [SensorMove.beside (.verdict readings) rfl]).Pairwise SensorMove.NotBefore)
    (enforcement : Enforcement) (packet : QueuedPacket) :
    let run := Runs.run (step E)
      (start name options detection correlation (some (settings, incoming))) moves
    run.1.prevention = some enforcement → enforcement.phase = .judging packet →
      enforcement.poisoned = false →
        ∃ message verdict, enforcement.queue.unanswered = [message] ∧
          tupleFromIpPacket message.payload = some packet.tuple ∧
          (enforcement.verdict readings).1.queue.answered =
            enforcement.queue.answered ++ [(message, verdict)] ∧
          (verdict = .drop ↔ DropsByReport settings enforcement.store.prevention.settings.mode run.1
            (moves.zip run.2) packet.tuple readings.now) := by
  intro run hprevention hphase hpoisoned
  obtain ⟨hpairs, -, hlast⟩ := List.pairwise_append.1 hmoves
  obtain ⟨enforcement', calls, h⟩ := reported_run E
    (Reported.start name options detection correlation settings incoming) hpairs
  obtain rfl : enforcement' = enforcement := Option.some.inj (h.prevention.symm.trans hprevention)
  have hholds := h.answers.holds
  rw [hphase] at hholds
  obtain ⟨message, hinHand⟩ := hholds
  let decision := (Prevent.judge enforcement'.store.prevention packet readings.now).2
  have hanswered : (enforcement'.verdict readings).1.queue.answered =
      enforcement'.queue.answered ++ [(message, decision.verdict)] := by
    have hverdict : (enforcement'.verdict readings).1 = enforcement'.answer packet readings := by
      simp only [Enforcement.verdict, hphase, hpoisoned, Bool.false_eq_true, if_false]
    rw [hverdict]
    exact congrArg Prevent.KernelQueue.answered (hinHand.resolve decision)
  have hpast : ∀ call ∈ calls, Prevent.NotBefore call.1 (.decide packet.tuple readings.now) := by
    intro call hcall a ha b hb
    obtain ⟨entry, hentry, hat⟩ := h.instants call hcall a ha
    exact hlast entry.1 (List.of_mem_zip (a := entry.1) (b := entry.2) hentry).1 _
      (List.mem_singleton_self _) a hat b hb
  have hdrop : decision.isDrop = true ↔ DropsBy settings
      enforcement'.store.prevention.settings.mode calls packet.tuple readings.now :=
    h.follows.isDrop_iff hpast
  have hsame : DropsBy settings enforcement'.store.prevention.settings.mode calls packet.tuple
      readings.now ↔ DropsByReport settings enforcement'.store.prevention.settings.mode run.1
        (moves.zip run.2) packet.tuple readings.now := by
    unfold DropsBy DropsByReport
    rw [condemned_iff_blocked h.unexpired, source_iff_blocked h.ordered]
    simp only [h.said]
    rfl
  refine ⟨message, decision.verdict, hinHand.unanswered, hinHand.tuple, hanswered, ?_⟩
  rw [← hsame, ← hdrop]
  cases decision <;> simp [Prevent.Decision.verdict, Prevent.Decision.isDrop]

end Sensor

/-! ### A run in which a datagram is blocked -/

/-- The bytes `ab` in a UDP datagram from 192.0.2.1, port 51000, to 198.51.100.1, port 53. -/
def abDatagram : List UInt8 :=
  [0x45, 0, 0, 30, 0, 1, 0, 0, 64, 17, 0, 0, 192, 0, 2, 1, 198, 51, 100, 1,
    199, 56, 0, 53, 0, 10, 0, 0, 0x61, 0x62]

def abDatagramTuple : NetTuple := ⟨.v4 0xc0000201, some 51000, .v4 0xc6336401, some 53, .udp⟩

/-- A rule that asks for the traffic of `ab` datagrams to be dropped. -/
def abDropRule : Rules.Rule := { abRule with header := { action := .drop, protocol := .udp } }

/-- An inline sensor with that rule, which is going to queue the datagram for a verdict. -/
def inlineSensor : Sensor Regex.none AhoCorasick.exhaustive TextRegex.none :=
  Sensor.start "sensor" ⟨true, true⟩
    ⟨(PacketPipeline.new Regex.none AhoCorasick.exhaustive smallWindowConfig).arm
      (sampleEngine {} [abDropRule]), .new _ {} []⟩
    none (some ({ mode := .prevent }, [(.ok ⟨7, abDatagram⟩, 2)]))

def abCapture : RawPacket := ⟨linkToIpv4 ++ abDatagram, 44, 0⟩

/-- The datagram is captured and its conversation blocked while its successor waits for a verdict.
-/
def inlineMoves : List SensorMove :=
  [.beside (.verdict ⟨1, 1⟩) rfl, .beside (.verdict ⟨2, 2⟩) rfl,
    .packet PacketPipeline.sampleWalks PacketPipeline.sampleWalks (HashOrder.asStored _) "eth0"
      abCapture, .report ⟨3, 3⟩]

/-- The packet that waits is dropped, by a block that the next event is about to say. -/
theorem Sensor.dropped_iff_alert_said_blocked_datagram :
    let run := Runs.run (Sensor.step Decode.Etherparse.standard) inlineSensor inlineMoves
    ∃ enforcement, run.1.prevention = some enforcement ∧
      (enforcement.verdict ⟨4, 5⟩).1.queue.answered = [(⟨7, abDatagram⟩, .drop)] ∧
      DropsByReport { mode := .prevent } .prevent run.1
      (inlineMoves.zip run.2) abDatagramTuple 4 := by
  intro run
  have hphase : run.1.prevention.map Enforcement.phase =
      some (.judging ⟨7, abDatagramTuple, 2⟩) := by
    decide +kernel
  have hpoisoned : run.1.prevention.map Enforcement.poisoned = some false := by decide +kernel
  have hmode : run.1.prevention.map (fun e => e.store.prevention.settings.mode) =
      some .prevent := by
    decide +kernel
  have hanswers : run.1.prevention.map (fun e => (e.queue.answered, e.queue.unanswered,
      (e.verdict ⟨4, 5⟩).1.queue.answered)) =
        some ([], [⟨7, abDatagram⟩], [(⟨7, abDatagram⟩, .drop)]) := by
    decide +kernel
  cases hprevention : run.1.prevention with
  | none => simp [hprevention] at hphase
  | some enforcement =>
    rw [hprevention, Option.map_some, Option.some.injEq] at hphase hpoisoned hmode hanswers
    simp only [Prod.mk.injEq] at hanswers
    obtain ⟨hnone, -, hdropped⟩ := hanswers
    have hmoves : (inlineMoves ++ [SensorMove.beside (.verdict ⟨4, 5⟩) rfl]).Pairwise
        SensorMove.NotBefore := by
      simp [inlineMoves, SensorMove.NotBefore, SensorMove.instant, Prevent.Move.instant]
    obtain ⟨message, verdict, -, -, hanswered, hdrop⟩ :=
      Sensor.dropped_iff_alert_said_blocked Decode.Etherparse.standard "sensor" ⟨true, true⟩ _ none
        { mode := .prevent } [(.ok ⟨7, abDatagram⟩, 2)] inlineMoves ⟨4, 5⟩ hmoves enforcement
        ⟨7, abDatagramTuple, 2⟩ hprevention hphase hpoisoned
    rw [hmode] at hdrop
    refine ⟨enforcement, rfl, hdropped, hdrop.1 ?_⟩
    have hsame : [((⟨7, abDatagram⟩ : Prevent.Message), Prevent.Verdict.drop)] =
        enforcement.queue.answered ++ [(message, verdict)] := hdropped.symm.trans hanswered
    rw [hnone, List.nil_append] at hsame
    exact (congrArg Prod.snd (List.singleton_inj.1 hsame)).symm

end CyberSentinel
