import CyberSentinel.VerdictQueue

/-!
# The verdict thread beside the detection thread

The verdict thread checks for shutdown, receives, waits for the store, judges and answers, and goes
round again. Between any two of its steps the detection path may block a conversation, counters may
be published, the mode may be changed, shutdown may be asked for, and a panic elsewhere may poison
the store. Whatever the interleaving, no packet is left unanswered or answered twice.
-/

namespace CyberSentinel
namespace Prevent

open Tables

inductive Phase
  | checking
  | receiving
  /-- A packet is in hand, and the store is waited for. -/
  | judging (packet : QueuedPacket)
  | stopped
  deriving DecidableEq

structure Enforcement where
  store : VerdictStore
  /-- A thread panicked while it held the store. -/
  poisoned : Bool
  queue : KernelQueue
  phase : Phase
  shutdown : Bool

abbrev StoreCall := Op × Answer

inductive Move
  /-- The verdict thread takes its next step. -/
  | verdict (readings : Readings)
  /-- The detection path enforces an alert. -/
  | block (tuple : NetTuple) (now : Instant)
  /-- Counters are published, with what the kernel says about the queue. -/
  | publish (depth : Option QueueDepth)
  | setMode (mode : Mode)
  | shutdown
  | poison

def Move.instant : Move → Option Instant
  | .verdict readings => some readings.now
  | .block _ now => some now
  | .publish _ | .setMode _ | .shutdown | .poison => none

namespace Enforcement

/-- The verdict thread is started over what the queue is going to return. -/
def start (settings : PreventionSettings) (incoming : List Received) : Enforcement where
  store := VerdictStore.new settings
  poisoned := false
  queue := { incoming }
  phase := .checking
  shutdown := false

def receive (s : Enforcement) : Enforcement :=
  match s.queue.receive with
  | (.blocked, queue) => { s with queue }
  | (.again, queue) => { s with queue }
  | (.packet packet, queue) => { s with queue, phase := .judging packet }
  | (.finished, queue) => { s with queue, phase := .stopped }

def answer (s : Enforcement) (packet : QueuedPacket) (readings : Readings) : Enforcement :=
  let judged := judgeAndResolve s.queue s.store packet readings
  { s with queue := judged.1, store := judged.2.1, phase := .checking }

def verdict (s : Enforcement) (readings : Readings) : Enforcement × List StoreCall :=
  match s.phase with
  | .checking => ({ s with phase := if s.shutdown then .stopped else .receiving }, [])
  | .receiving => (s.receive, [])
  | .judging packet =>
    if s.poisoned then ({ s with phase := .stopped }, [])
    else
      (s.answer packet readings,
        [(.decide packet.tuple readings.now,
          .decide (judge s.store.prevention packet readings.now).2)])
  | .stopped => (s, [])

/-- A block from the detection path; with a poisoned store it only alerts. -/
def block (s : Enforcement) (tuple : NetTuple) (now : Instant) : Enforcement × List StoreCall :=
  if s.poisoned then (s, [])
  else
    let blocked := s.store.prevention.block tuple now
    ({ s with store := { s.store with prevention := blocked.1 } },
      [(.block tuple now, .block blocked.2)])

def publish (s : Enforcement) (depth : Option QueueDepth) : Enforcement :=
  if s.poisoned then s
  else { s with store := depth.elim s.store s.store.recordQueueDepth }

def setMode (s : Enforcement) (mode : Mode) : Enforcement × List StoreCall :=
  if s.poisoned then (s, [])
  else
    ({ s with store := { s.store with prevention := s.store.prevention.setMode mode } },
      [(.setMode mode, .none)])

def step (s : Enforcement) : Move → Enforcement × List StoreCall
  | .verdict readings => s.verdict readings
  | .block tuple now => s.block tuple now
  | .publish depth => (s.publish depth, [])
  | .setMode mode => s.setMode mode
  | .shutdown => ({ s with shutdown := true }, [])
  | .poison => ({ s with poisoned := true }, [])

end Enforcement

def KernelQueue.unanswered (q : KernelQueue) : List Message := q.inFlight.entries.map Sigma.snd

def messages (received : List Received) : List Message := received.filterMap (fun r => r.1.toOption)

def isRetry (received : Received) : Bool :=
  match received.1 with
  | .error kind => kind.recoverable
  | .ok _ => false

def Message.readable (message : Message) : Bool := (tupleFromIpPacket message.payload).isSome

structure InHand (q : KernelQueue) (packet : QueuedPacket) (message : Message) : Prop where
  inFlight : q.inFlight.entries = [⟨message.packetId, message⟩]
  id_eq : packet.id = message.packetId
  tuple : tupleFromIpPacket message.payload = some packet.tuple

def Phase.Holds (q : KernelQueue) (poisoned : Bool) : Phase → Prop
  | .checking | .receiving => q.inFlight = ∅
  | .judging packet => ∃ message, InHand q packet message
  | .stopped => q.inFlight = ∅ ∨ poisoned = true ∧ ∃ packet message, InHand q packet message

def Prevention.packetCounts (p : Prevention) : ℕ × ℕ :=
  (p.stats.packetsJudged, p.stats.packetsDropped)

theorem block_packetCounts (p : Prevention) (t : NetTuple) (now : Instant) :
    (p.block t now).1.packetCounts = p.packetCounts := by
  unfold Prevention.block
  cases p.armed with
  | false => rfl
  | true =>
    cases [t.srcIp, t.destIp].find? p.isAllowListed with
    | some address => rfl
    | none =>
      dsimp only
      by_cases hfull : p.settings.maxBlockedFlows ≤ size p.flows ∨
          p.settings.maxBlockedSources ≤ size p.sources
      · rw [if_pos hfull]
        rfl
      · rw [if_neg hfull]
        rfl

theorem decide_packetCounts (p : Prevention) (t : NetTuple) (now : Instant) :
    (p.decide t now).1.packetCounts =
      (p.stats.packetsJudged + 1,
        p.stats.packetsDropped + (p.decide t now).2.isDrop.toNat) := by
  simp only [Prevention.decide, Prevention.decideSource]
  split_ifs
  · rfl
  · rfl
  · rfl
  · split
    · rfl
    · split_ifs
      · rfl
      · rfl

/-- A receive that gives no packet to judge: a message that cannot be read, accepted at once, or an
error. -/
structure Skips (first : Received) (answers : List (Message × Verdict)) (q q' : KernelQueue) :
    Prop where
  incoming : q.incoming = first :: q'.incoming
  answered : q'.answered = q.answered ++ answers
  messages : messages [first] = answers.map Prod.fst
  inFlight : q'.inFlight = q.inFlight
  retries : q'.retries = q.retries + [first].countP isRetry
  unparsed : q'.unparsed = q.unparsed + answers.length
  unreadable : ∀ answer ∈ answers, answer.1.readable = false ∧ answer.2 = .accept

inductive Receives (q : KernelQueue) : Turn → KernelQueue → Prop
  | blocked (incoming : q.incoming = []) : Receives q .blocked q
  | again {q' : KernelQueue} {first : Received} {answers : List (Message × Verdict)}
      (skips : Skips first answers q q') (fatal : q'.fatal = q.fatal) : Receives q .again q'
  | finished {q' : KernelQueue} {first : Received} (skips : Skips first [] q q') :
      Receives q .finished q'
  | packet {message : Message} {tuple : NetTuple} {received : Instant} {rest : List Received}
      (incoming : q.incoming = (.ok message, received) :: rest)
      (readable : tupleFromIpPacket message.payload = some tuple) :
      Receives q (.packet ⟨message.packetId, tuple, received⟩)
        { q with incoming := rest, inFlight := q.inFlight.insert message.packetId message }

theorem receive_receives (q : KernelQueue) : Receives q q.receive.1 q.receive.2 := by
  cases hincoming : q.incoming with
  | nil =>
    rw [KernelQueue.receive_nil hincoming]
    exact .blocked hincoming
  | cons first rest =>
    obtain ⟨result, received⟩ := first
    cases result with
    | error kind =>
      cases hkind : kind.recoverable with
      | true =>
        rw [KernelQueue.receive_recoverable hincoming hkind]
        refine .again ⟨hincoming, (List.append_nil _).symm, rfl, rfl, ?_, rfl, by simp⟩ rfl
        simp [isRetry, hkind]
      | false =>
        rw [KernelQueue.receive_fatal hincoming hkind]
        refine .finished ⟨hincoming, (List.append_nil _).symm, rfl, rfl, ?_, rfl, by simp⟩
        simp [isRetry, hkind]
    | ok message =>
      cases htuple : tupleFromIpPacket message.payload with
      | none =>
        rw [KernelQueue.receive_unreadable hincoming htuple]
        refine .again ⟨hincoming, rfl, rfl, rfl, rfl, rfl, ?_⟩ rfl
        simp [Message.readable, htuple]
      | some tuple =>
        rw [KernelQueue.receive_readable hincoming htuple]
        exact .packet hincoming htuple

structure Counted (s : Enforcement) : Prop where
  unparsed_eq : s.queue.unparsed = s.queue.answered.countP (fun a => !a.1.readable)
  judged_eq : s.store.prevention.stats.packetsJudged = s.queue.answered.countP (fun a =>
    a.1.readable)
  dropped_eq : s.store.prevention.stats.packetsDropped = s.queue.answered.countP (fun a =>
    a.2 = .drop)

/-- The verdict thread has answered what it received, but for the packet in hand. -/
structure Answers (incoming : List Received) (s : Enforcement) : Prop where
  received : ∃ consumed, incoming = consumed ++ s.queue.incoming ∧
    messages consumed = s.queue.answered.map Prod.fst ++ s.queue.unanswered ∧
    s.queue.retries = consumed.countP isRetry
  holds : s.phase.Holds s.queue s.poisoned
  unreadable : ∀ answer ∈ s.queue.answered, answer.1.readable = false → answer.2 = .accept
  counted : Counted s
  fatal : s.queue.fatal.isSome → s.phase = .stopped

theorem unanswered_of_idle {q : KernelQueue} (h : q.inFlight = ∅) : q.unanswered = [] := by
  rw [KernelQueue.unanswered, h]
  rfl

theorem InHand.unanswered {q : KernelQueue} {packet : QueuedPacket} {message : Message}
    (h : InHand q packet message) : q.unanswered = [message] := by
  rw [KernelQueue.unanswered, h.inFlight]
  rfl

theorem InHand.resolve {q : KernelQueue} {packet : QueuedPacket} {message : Message}
    (h : InHand q packet message) (decision : Decision) :
    q.resolve packet decision =
      { q with inFlight := ∅, answered := q.answered ++ [(message, decision.verdict)] } := by
  have hlookup : q.inFlight.lookup packet.id = some message := by
    rw [AList.lookup, h.inFlight, h.id_eq, List.dlookup_cons_eq]
  have herase : q.inFlight.erase packet.id = ∅ := by
    apply AList.ext
    change q.inFlight.entries.kerase packet.id = []
    rw [h.inFlight, h.id_eq]
    exact List.kerase_cons_eq rfl
  rw [KernelQueue.resolve, hlookup, herase]

namespace Answers

variable {incoming : List Received} {s : Enforcement}

theorem start (settings : PreventionSettings) (incoming : List Received) :
    Answers incoming (.start settings incoming) where
  received := ⟨[], rfl, rfl, rfl⟩
  holds := rfl
  unreadable := by simp [Enforcement.start]
  counted := ⟨rfl, rfl, rfl⟩
  fatal := by simp [Enforcement.start]

/-- A move of another thread: the queue and the counts of packets are as before. -/
theorem aside (h : Answers incoming s) {s' : Enforcement} (hqueue : s'.queue = s.queue)
    (hphase : s'.phase = s.phase)
    (hcounts : s'.store.prevention.packetCounts = s.store.prevention.packetCounts)
    (hpoisoned : s.poisoned = true → s'.poisoned = true) : Answers incoming s' := by
  obtain ⟨hjudged, hdropped⟩ := Prod.mk.inj hcounts
  constructor
  · rw [hqueue]
    exact h.received
  · have hholds := h.holds
    rw [hqueue, hphase]
    cases hp : s.phase with
    | checking =>
      rw [hp] at hholds
      exact hholds
    | receiving =>
      rw [hp] at hholds
      exact hholds
    | judging packet =>
      rw [hp] at hholds
      exact hholds
    | stopped =>
      rw [hp] at hholds
      exact hholds.imp_right (fun hold => ⟨hpoisoned hold.1, hold.2⟩)
  · rw [hqueue]
    exact h.unreadable
  · constructor
    · rw [hqueue]
      exact h.counted.unparsed_eq
    · rw [hqueue, hjudged]
      exact h.counted.judged_eq
    · rw [hqueue, hdropped]
      exact h.counted.dropped_eq
  · rw [hqueue, hphase]
    exact h.fatal

theorem skipped (h : Answers incoming s) (hphase : s.phase = .receiving) {queue : KernelQueue}
    {phase : Phase} {first : Received} {answers : List (Message × Verdict)}
    (hskips : Skips first answers s.queue queue) (hstands : phase = .receiving ∨ phase = .stopped)
    (hfatal : queue.fatal.isSome → phase = .stopped) :
    Answers incoming { s with queue, phase } := by
  have hwas : s.queue.inFlight = ∅ := by
    have hholds := h.holds
    rw [hphase] at hholds
    exact hholds
  have hidle : queue.inFlight = ∅ := hskips.inFlight.trans hwas
  constructor
  · obtain ⟨consumed, hsplit, hall, hretried⟩ := h.received
    rw [unanswered_of_idle hwas, List.append_nil] at hall
    refine ⟨consumed ++ [first], ?_, ?_, ?_⟩
    · rw [hsplit, hskips.incoming, List.append_assoc, List.singleton_append]
    · rw [unanswered_of_idle hidle, List.append_nil, hskips.answered, List.map_append, ← hall,
        ← hskips.messages]
      exact List.filterMap_append
    · rw [List.countP_append, ← hretried]
      exact hskips.retries
  · rcases hstands with hstands | hstands
    · rw [hstands]
      exact hidle
    · rw [hstands]
      exact Or.inl hidle
  · intro answer hmem hread
    rw [hskips.answered, List.mem_append] at hmem
    rcases hmem with hmem | hmem
    · exact h.unreadable answer hmem hread
    · exact (hskips.unreadable answer hmem).2
  · have hall : answers.countP (fun a => !a.1.readable) = answers.length :=
      List.countP_eq_length.2 (fun a ha => by rw [(hskips.unreadable a ha).1]; rfl)
    have hnone : answers.countP (fun a => a.1.readable) = 0 :=
      List.countP_eq_zero.2 (fun a ha => by
        rw [(hskips.unreadable a ha).1]; exact Bool.false_ne_true)
    have hpassed : answers.countP (fun a => decide (a.2 = .drop)) = 0 :=
      List.countP_eq_zero.2 (fun a ha => by rw [(hskips.unreadable a ha).2]; decide)
    constructor
    · rw [hskips.answered, List.countP_append, ← h.counted.unparsed_eq, hall]
      exact hskips.unparsed
    · rw [hskips.answered, List.countP_append, hnone]
      exact h.counted.judged_eq
    · rw [hskips.answered, List.countP_append, hpassed]
      exact h.counted.dropped_eq
  · exact hfatal

theorem receive (h : Answers incoming s) (hphase : s.phase = .receiving) :
    Answers incoming s.receive := by
  have hholds := h.holds
  rw [hphase] at hholds
  have hrunning : s.queue.fatal.isSome → s.phase = .stopped := h.fatal
  rw [hphase] at hrunning
  unfold Enforcement.receive
  have hreceives := receive_receives s.queue
  rcases hreceive : s.queue.receive with ⟨turn, queue⟩
  rw [hreceive] at hreceives
  cases hreceives with
  | blocked hincoming => exact h
  | again hskips hfatal =>
    apply h.skipped hphase hskips (Or.inl hphase)
    rw [hfatal, hphase]
    exact hrunning
  | finished hskips => exact h.skipped hphase hskips (Or.inr rfl) (fun _ => rfl)
  | @packet message tuple received rest hincoming hreadable =>
    have hinHand : InHand
        { s.queue with
          incoming := rest
          inFlight := s.queue.inFlight.insert message.packetId message }
        ⟨message.packetId, tuple, received⟩ message := by
      refine ⟨?_, rfl, hreadable⟩
      change (s.queue.inFlight.insert message.packetId message).entries = _
      rw [show s.queue.inFlight = ∅ from hholds]
      rfl
    constructor
    · obtain ⟨consumed, hsplit, hall, hretried⟩ := h.received
      rw [unanswered_of_idle hholds, List.append_nil] at hall
      refine ⟨consumed ++ [(.ok message, received)], ?_, ?_, ?_⟩
      · rw [hsplit, hincoming, List.append_assoc, List.singleton_append]
      · rw [hinHand.unanswered, ← hall]
        exact List.filterMap_append
      · rw [List.countP_append, ← hretried]
        rfl
    · exact ⟨message, hinHand⟩
    · exact h.unreadable
    · exact ⟨h.counted.unparsed_eq, h.counted.judged_eq, h.counted.dropped_eq⟩
    · exact fun hfatal => absurd (hrunning hfatal) (by simp)

theorem answer (h : Answers incoming s) {packet : QueuedPacket} (hphase : s.phase = .judging packet)
    (readings : Readings) : Answers incoming (s.answer packet readings) := by
  have hholds := h.holds
  rw [hphase] at hholds
  obtain ⟨message, hinHand⟩ := hholds
  have hreadable : message.readable = true := by
    rw [Message.readable, hinHand.tuple]
    rfl
  let decision := (judge s.store.prevention packet readings.now).2
  have hqueue : (s.answer packet readings).queue =
      { s.queue with
        inFlight := ∅
        answered := s.queue.answered ++ [(message, decision.verdict)] } := hinHand.resolve decision
  have hcounts := decide_packetCounts s.store.prevention packet.tuple readings.now
  obtain ⟨hjudged, hdropped⟩ := Prod.mk.inj hcounts
  constructor
  · obtain ⟨consumed, hsplit, hall, hretried⟩ := h.received
    rw [hinHand.unanswered] at hall
    refine ⟨consumed, ?_, ?_, ?_⟩
    · rw [hqueue]
      exact hsplit
    · rw [hqueue, unanswered_of_idle rfl, List.append_nil, List.map_append]
      exact hall
    · rw [hqueue]
      exact hretried
  · change (s.answer packet readings).queue.inFlight = ∅
    rw [hqueue]
  · intro answer hmem hread
    rw [hqueue, List.mem_append, List.mem_singleton] at hmem
    rcases hmem with hmem | hmem
    · exact h.unreadable answer hmem hread
    · rw [hmem, hreadable] at hread
      exact absurd hread (by simp)
  · constructor
    · rw [hqueue, List.countP_append, ← h.counted.unparsed_eq]
      simp [hreadable]
    · rw [hqueue, List.countP_append, ← h.counted.judged_eq]
      refine hjudged.trans (congrArg _ ?_)
      simp [hreadable]
    · rw [hqueue, List.countP_append, ← h.counted.dropped_eq]
      refine hdropped.trans (congrArg _ ?_)
      change decision.isDrop.toNat = _
      cases decision <;> rfl
  · intro hfatal
    rw [hqueue] at hfatal
    have hstopped := h.fatal hfatal
    rw [hphase] at hstopped
    exact absurd hstopped (by simp)

theorem verdict (h : Answers incoming s) (readings : Readings) :
    Answers incoming (s.verdict readings).1 := by
  have hholds := h.holds
  unfold Enforcement.verdict
  cases hphase : s.phase with
  | checking =>
    rw [hphase] at hholds
    have hfatal : s.queue.fatal.isSome → False := fun hsome => by
      have hstopped := h.fatal hsome
      rw [hphase] at hstopped
      exact absurd hstopped (by simp)
    refine ⟨h.received, ?_, h.unreadable, ⟨h.counted.1, h.counted.2, h.counted.3⟩,
      fun hsome => (hfatal hsome).elim⟩
    cases s.shutdown with
    | true => exact Or.inl hholds
    | false => exact hholds
  | receiving => exact h.receive hphase
  | judging packet =>
    dsimp only
    split_ifs with hpoisoned
    · rw [hphase] at hholds
      exact ⟨h.received, Or.inr ⟨hpoisoned, packet, hholds⟩, h.unreadable,
        ⟨h.counted.1, h.counted.2, h.counted.3⟩, fun _ => rfl⟩
    · exact h.answer hphase readings
  | stopped => exact h

theorem step (h : Answers incoming s) (move : Move) : Answers incoming (s.step move).1 := by
  cases move with
  | verdict readings => exact h.verdict readings
  | block tuple now =>
    change Answers incoming (s.block tuple now).1
    unfold Enforcement.block
    split_ifs
    · exact h
    · exact h.aside rfl rfl (block_packetCounts s.store.prevention tuple now) id
  | publish depth =>
    change Answers incoming (s.publish depth)
    unfold Enforcement.publish
    split_ifs
    · exact h
    · cases depth <;> exact h.aside rfl rfl rfl id
  | setMode mode =>
    change Answers incoming (s.setMode mode).1
    unfold Enforcement.setMode
    split_ifs
    · exact h
    · exact h.aside rfl rfl rfl id
  | shutdown => exact h.aside rfl rfl rfl id
  | poison => exact h.aside rfl rfl rfl (fun _ => rfl)

end Answers

/-- Whatever the kernel's queue returns and however the other threads interleave: the packets
received are, in order, those that were answered, and at most one that is waiting for its answer.
None waits once the verdict thread has stopped, unless a poisoned store stopped it. A packet whose
header cannot be read is accepted, and the counters say how many of each kind there were. -/
theorem received_packets_answered_once (settings : PreventionSettings) (incoming : List Received)
    (moves : List Move) :
    let s := (Runs.run Enforcement.step (.start settings incoming) moves).1
    (∃ consumed, incoming = consumed ++ s.queue.incoming ∧
      messages consumed = s.queue.answered.map Prod.fst ++ s.queue.unanswered ∧
      s.queue.retries = consumed.countP isRetry) ∧
    s.queue.unanswered.length ≤ 1 ∧
    (s.phase = .stopped → s.poisoned = false → s.queue.unanswered = []) ∧
    (∀ answer ∈ s.queue.answered, answer.1.readable = false → answer.2 = .accept) ∧
    s.queue.unparsed = s.queue.answered.countP (fun a => !a.1.readable) ∧
    s.store.prevention.stats.packetsJudged = s.queue.answered.countP (fun a => a.1.readable) ∧
    s.store.prevention.stats.packetsDropped = s.queue.answered.countP (fun a => a.2 = .drop) := by
  intro s
  have h : Answers incoming s :=
    Runs.invariant Enforcement.step (Answers incoming) (fun s move hs => hs.step move)
      (Answers.start settings incoming) moves
  have hholds := h.holds
  refine ⟨h.received, ?_, ?_, h.unreadable, h.counted.unparsed_eq, h.counted.judged_eq,
    h.counted.dropped_eq⟩
  · cases hphase : s.phase with
    | checking | receiving =>
      rw [hphase] at hholds
      rw [unanswered_of_idle hholds]
      exact Nat.zero_le _
    | judging packet =>
      rw [hphase] at hholds
      obtain ⟨message, hinHand⟩ := hholds
      rw [hinHand.unanswered]
      exact le_rfl
    | stopped =>
      rw [hphase] at hholds
      rcases hholds with hidle | ⟨-, packet, message, hinHand⟩
      · rw [unanswered_of_idle hidle]
        exact Nat.zero_le _
      · rw [hinHand.unanswered]
        exact le_rfl
  · intro hphase hpoisoned
    rw [hphase] at hholds
    rcases hholds with hidle | ⟨hpoison, -⟩
    · exact unanswered_of_idle hidle
    · rw [hpoisoned] at hpoison
      exact absurd hpoison Bool.false_ne_true

/-- The history has the packet dropped: the store is armed, neither endpoint is allow-listed, and
the conversation is condemned or the source still blocked. -/
def DropsBy (settings : PreventionSettings) (mode : Mode) (history : History) (t : NetTuple)
    (now : Instant) : Prop :=
  mode = .prevent ∧ settings.isAllowListed t.srcIp = false ∧
    settings.isAllowListed t.destIp = false ∧
    ((∃ blockedAt, CondemnedAt settings.sourceBlock history t blockedAt) ∨
      ∃ blockedAt, LatestSource history t.srcIp blockedAt ∧ now < blockedAt + settings.sourceBlock)

namespace Follows

variable {settings : PreventionSettings} {p : Prevention} {history : History}

theorem condemned_iff (h : Follows settings p history) (t : NetTuple) :
    FlowKey.fromTuple t ∈ p.flows ↔
      ∃ blockedAt, CondemnedAt settings.sourceBlock history t blockedAt := by
  rw [← AList.lookup_isSome, Option.isSome_iff_exists]
  exact exists_congr (fun blockedAt => h.flow_iff t blockedAt)

theorem blocked_iff (h : Follows settings p history) {t : NetTuple} {now : Instant}
    (hpast : ∀ e ∈ history, NotBefore e.1 (.decide t now)) :
    (∃ expiry, p.sources.lookup t.srcIp = some expiry ∧ now < expiry) ↔
      ∃ blockedAt, LatestSource history t.srcIp blockedAt ∧
        now < blockedAt + settings.sourceBlock := by
  constructor
  · rintro ⟨expiry, hlookup, hlive⟩
    obtain ⟨blockedAt, hlatest, heq⟩ := h.source_latest t.srcIp expiry hlookup
    exact ⟨blockedAt, hlatest, heq ▸ hlive⟩
  · rintro ⟨blockedAt, hlatest, hlive⟩
    cases hlookup : p.sources.lookup t.srcIp with
    | none =>
      obtain ⟨e, he, earlier, hearlier, hlapsed⟩ :=
        h.source_lapsed t.srcIp blockedAt hlatest hlookup
      have hle : earlier ≤ now := hpast e he earlier hearlier now rfl
      exact absurd hlive (not_lt.2 (hlapsed.trans hle))
    | some expiry =>
      obtain ⟨blockedAt', hlatest', heq⟩ := h.source_latest t.srcIp expiry hlookup
      rw [hlatest.unique hlatest', ← heq] at hlive
      exact ⟨expiry, rfl, hlive⟩

theorem isDrop_iff (h : Follows settings p history) {t : NetTuple} {now : Instant}
    (hpast : ∀ e ∈ history, NotBefore e.1 (.decide t now)) :
    (p.decide t now).2.isDrop = true ↔ DropsBy settings p.settings.mode history t now := by
  rw [decide_isDrop_iff, h.isAllowListed_eq, h.isAllowListed_eq, h.condemned_iff,
    h.blocked_iff hpast]
  rfl

end Follows

/-- A move makes no call on the store, or one, at the instant it may read. -/
theorem step_store (s : Enforcement) (move : Move) :
    ((s.step move).2 = [] ∧ (s.step move).1.store.prevention = s.store.prevention) ∨
      ∃ op, (s.step move).2 = [(op, (s.store.prevention.step op).2)] ∧
        (s.step move).1.store.prevention = (s.store.prevention.step op).1 ∧
        ∀ now ∈ op.instant, now ∈ move.instant := by
  cases move with
  | verdict readings =>
    simp only [Enforcement.step, Enforcement.verdict]
    cases s.phase with
    | checking => exact Or.inl ⟨rfl, rfl⟩
    | receiving =>
      refine Or.inl ⟨rfl, ?_⟩
      simp only [Enforcement.receive]
      rcases s.queue.receive with ⟨_ | _ | _ | _, queue⟩ <;> rfl
    | judging packet =>
      dsimp only
      split_ifs
      · exact Or.inl ⟨rfl, rfl⟩
      · exact Or.inr ⟨.decide packet.tuple readings.now, rfl, rfl, fun _ h => h⟩
    | stopped => exact Or.inl ⟨rfl, rfl⟩
  | block tuple now =>
    simp only [Enforcement.step, Enforcement.block]
    split_ifs
    · exact Or.inl ⟨rfl, rfl⟩
    · exact Or.inr ⟨.block tuple now, rfl, rfl, fun _ h => h⟩
  | publish depth =>
    refine Or.inl ⟨rfl, ?_⟩
    simp only [Enforcement.step, Enforcement.publish]
    split_ifs
    · rfl
    · cases depth <;> rfl
  | setMode mode =>
    simp only [Enforcement.step, Enforcement.setMode]
    split_ifs
    · exact Or.inl ⟨rfl, rfl⟩
    · refine Or.inr ⟨.setMode mode, rfl, rfl, ?_⟩
      rintro now ⟨⟩
  | shutdown => exact Or.inl ⟨rfl, rfl⟩
  | poison => exact Or.inl ⟨rfl, rfl⟩

def Move.NotBefore (i j : Move) : Prop := ∀ a ∈ i.instant, ∀ b ∈ j.instant, a ≤ b

/-- The calls made so far describe the store, each made at the instant of its move. -/
structure Recorded (settings : PreventionSettings) (s : Enforcement)
    (history : List (Move × List StoreCall)) : Prop where
  follows : Follows settings s.store.prevention (history.flatMap Prod.snd)
  instants : ∀ e ∈ history, ∀ call ∈ e.2, ∀ now ∈ call.1.instant, now ∈ e.1.instant

theorem Recorded.past {settings : PreventionSettings} {s : Enforcement}
    {history : List (Move × List StoreCall)} (h : Recorded settings s history)
    {move : Move} {op : Op}
    (hop : ∀ now ∈ op.instant, now ∈ move.instant) (hpast : ∀ e ∈ history, e.1.NotBefore move) :
    ∀ call ∈ history.flatMap Prod.snd, NotBefore call.1 op := by
  intro call hcall a ha b hb
  obtain ⟨e, he, hmem⟩ := List.mem_flatMap.1 hcall
  exact hpast e he a (h.instants e he call hmem a ha) b (hop b hb)

theorem Recorded.step {settings : PreventionSettings} {s : Enforcement}
    {history : List (Move × List StoreCall)} (h : Recorded settings s history) (move : Move)
    (hpast : ∀ e ∈ history, e.1.NotBefore move) :
    Recorded settings (s.step move).1 (history ++ [(move, (s.step move).2)]) := by
  rcases step_store s move with ⟨hcalls, hsame⟩ | ⟨op, hcalls, hstore, hinstant⟩
  · rw [hcalls]
    constructor
    · rw [hsame, List.flatMap_append]
      simpa using h.follows
    · intro e he
      rcases List.mem_append.1 he with he | he
      · exact h.instants e he
      · rw [List.mem_singleton.1 he]
        simp
  · rw [hcalls]
    constructor
    · rw [hstore, List.flatMap_append]
      simpa using h.follows.step op (h.past hinstant hpast)
    · intro e he
      rcases List.mem_append.1 he with he | he
      · exact h.instants e he
      · rw [List.mem_singleton.1 he]
        simpa using hinstant

theorem recorded_run (settings : PreventionSettings) (incoming : List Received) {moves : List Move}
    (hmoves : moves.Pairwise Move.NotBefore) :
    let run := Runs.run Enforcement.step (.start settings incoming) moves
    Recorded settings run.1 (moves.zip run.2) := by
  intro run
  have hstart : Recorded settings (.start settings incoming) [] := ⟨Follows.new settings, by simp⟩
  have hinv := Runs.history_invariant Enforcement.step (Recorded settings) Move.NotBefore
    (fun s history move hs hpast => hs.step move hpast) hstart (by simp) hmoves
  simpa using hinv

theorem flatMap_snd_zip {α β : Type*} (xs : List α) (ys : List (List β))
    (h : ys.length = xs.length) :
    (xs.zip ys).flatMap Prod.snd = ys.flatten := by
  rw [List.flatMap_def, List.map_snd_zip h.le]

/-- Whatever the interleaving, the packet in hand is dropped exactly when the calls made on the
store so far have it dropped, and its verdict goes to the message it came with. -/
theorem verdict_drops_iff_history (settings : PreventionSettings) (incoming : List Received)
    (moves : List Move) (readings : Readings) (packet : QueuedPacket)
    (hmoves : (moves ++ [Move.verdict readings]).Pairwise Move.NotBefore) :
    let run := Runs.run Enforcement.step (.start settings incoming) moves
    run.1.phase = .judging packet → run.1.poisoned = false →
      ∃ message verdict, run.1.queue.unanswered = [message] ∧
        tupleFromIpPacket message.payload = some packet.tuple ∧
        (run.1.step (.verdict readings)).1.queue.answered =
          run.1.queue.answered ++ [(message, verdict)] ∧
        (verdict = .drop ↔
          DropsBy settings run.1.store.prevention.settings.mode run.2.flatten packet.tuple
            readings.now) := by
  intro run hphase hpoisoned
  obtain ⟨hpairs, _, hlast⟩ := List.pairwise_append.1 hmoves
  have hrecorded : Recorded settings run.1 (moves.zip run.2) :=
    recorded_run settings incoming hpairs
  have hanswers : Answers incoming run.1 :=
    Runs.invariant Enforcement.step (Answers incoming) (fun s move hs => hs.step move)
      (Answers.start settings incoming) moves
  have hholds := hanswers.holds
  rw [hphase] at hholds
  obtain ⟨message, hinHand⟩ := hholds
  let decision := (judge run.1.store.prevention packet readings.now).2
  have hstep : run.1.step (.verdict readings) = (run.1.answer packet readings,
      [(.decide packet.tuple readings.now, .decide decision)]) := by
    change run.1.verdict readings = _
    simp only [Enforcement.verdict, hphase, hpoisoned, Bool.false_eq_true, if_false]
    rfl
  have hanswered : (run.1.answer packet readings).queue.answered =
      run.1.queue.answered ++ [(message, decision.verdict)] :=
    congrArg KernelQueue.answered (hinHand.resolve decision)
  refine ⟨message, decision.verdict, hinHand.unanswered, hinHand.tuple, ?_, ?_⟩
  · rw [hstep]
    exact hanswered
  · have hpast : ∀ e ∈ moves.zip run.2, e.1.NotBefore (.verdict readings) :=
      fun e he => hlast e.1 (List.of_mem_zip (a := e.1) (b := e.2) he).1 _ (by simp)
    have hcalls := flatMap_snd_zip moves run.2 (Runs.length_run _ _ _)
    have hinstant : ∀ now ∈ (Op.decide packet.tuple readings.now).instant,
        now ∈ (Move.verdict readings).instant := fun _ h => h
    have hdrop := hrecorded.follows.isDrop_iff (hrecorded.past hinstant hpast)
    rw [hcalls] at hdrop
    rw [← hdrop]
    change decision.verdict = .drop ↔ decision.isDrop = true
    cases decision <;> simp [Decision.verdict, Decision.isDrop]

/-- A TCP packet from 10.0.0.1 port 1024 to 10.0.0.2 port 80, as far as its ports. -/
def shortPacket : Message :=
  ⟨7, [0x45, 0, 0, 24, 0, 0, 0, 0, 64, 6, 0, 0, 10, 0, 0, 1, 10, 0, 0, 2, 4, 0, 0, 80]⟩

/-- The reply direction is blocked at time three, after the packet was received at time two. -/
theorem verdict_drops_iff_history_reply :
    let request : NetTuple := ⟨.v4 0x0a000001, some 1024, .v4 0x0a000002, some 80, .tcp⟩
    let settings : PreventionSettings := { mode := .prevent }
    let moves := [.verdict ⟨1, 1⟩, .verdict ⟨2, 2⟩, Move.block request.reverse 3]
    let run := Runs.run Enforcement.step (.start settings [(.ok shortPacket, 2)]) moves
    (run.1.step (.verdict ⟨4, 5⟩)).1.queue.answered = [(shortPacket, .drop)] ∧
      DropsBy settings .prevent run.2.flatten request 4 := by
  intro request settings moves run
  have hmoves : (moves ++ [Move.verdict ⟨4, 5⟩]).Pairwise Move.NotBefore := by
    simp [moves, Move.NotBefore, Move.instant]
  obtain ⟨message, verdict, hwaiting, -, hanswered, hdrop⟩ :=
    verdict_drops_iff_history settings [(.ok shortPacket, 2)] moves ⟨4, 5⟩ ⟨7, request, 2⟩ hmoves
      (by decide +kernel) rfl
  have hanswer : (run.1.step (.verdict ⟨4, 5⟩)).1.queue.answered = [(shortPacket, .drop)] := by
    decide +kernel
  refine ⟨hanswer, hdrop.1 ?_⟩
  have hsame : [(shortPacket, Verdict.drop)] = run.1.queue.answered ++ [(message, verdict)] :=
    hanswer.symm.trans hanswered
  have hnone : run.1.queue.answered = [] := by decide +kernel
  rw [hnone, List.nil_append] at hsame
  exact (congrArg Prod.snd (List.singleton_inj.1 hsame)).symm

end Prevent
end CyberSentinel
