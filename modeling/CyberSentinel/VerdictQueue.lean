import CyberSentinel.Conversations

/-!
# The verdict queue

Packets come from a source, verdicts go back to it. The verdict loop is written against any source;
there are two, the netfilter queue of the kernel and a queue that replays packets from memory. The
netfilter queue is described by what it is going to return: a packet, or an error. A packet whose
header cannot be read is accepted without being judged.
-/

namespace CyberSentinel
namespace Prevent

open Tables

structure QueueDepth where
  queueNum : UInt16
  /-- Packets queued at this instant. -/
  queued : UInt32 := 0
  /-- Packets the kernel dropped because the queue was full. -/
  queueDropped : UInt32 := 0
  /-- Packets dropped because they could not be delivered to userspace. -/
  userDropped : UInt32 := 0
  idSequence : UInt32 := 0
  deriving DecidableEq, Repr

def QueueDepth.unjudged (d : QueueDepth) : ℕ := d.queueDropped.toNat + d.userDropped.toNat

/-- What verdicts cost, in microseconds, and what the kernel says about the queue. -/
structure PathStats where
  verdictLatencyUsTotal : ℕ := 0
  verdictLatencyUsMax : ℕ := 0
  verdictLatencyOver1ms : ℕ := 0
  verdictLatencyOver10ms : ℕ := 0
  queueDepth : ℕ := 0
  queueDepthMax : ℕ := 0
  queueUnjudged : ℕ := 0
  deriving DecidableEq, Repr

structure VerdictStore where
  prevention : Prevention
  path : PathStats

namespace VerdictStore

def new (settings : PreventionSettings) : VerdictStore := ⟨Prevention.new settings, {}⟩

def recordLatency (s : VerdictStore) (micros : ℕ) : VerdictStore :=
  { s with
    path := { s.path with
      verdictLatencyUsTotal := s.path.verdictLatencyUsTotal + micros
      verdictLatencyUsMax := max s.path.verdictLatencyUsMax micros
      verdictLatencyOver1ms := s.path.verdictLatencyOver1ms + if 1000 < micros then 1 else 0
      verdictLatencyOver10ms := s.path.verdictLatencyOver10ms + if 10000 < micros then 1 else 0 } }

def recordQueueDepth (s : VerdictStore) (depth : QueueDepth) : VerdictStore :=
  { s with
    path := { s.path with
      queueDepth := depth.queued.toNat
      queueDepthMax := max s.path.queueDepthMax depth.queued.toNat
      queueUnjudged := depth.unjudged } }

end VerdictStore

structure QueuedPacket where
  /-- The kernel's handle for this packet, echoed back with the verdict. -/
  id : UInt32
  tuple : NetTuple
  /-- When the packet came out of the kernel. -/
  received : Instant
  deriving DecidableEq, Repr

/-- A source of packets awaiting a verdict. `remaining` is what it has left to return. -/
class VerdictSource (σ : Type) where
  /-- Wait for the next packet; none when the source is finished. -/
  nextPacket : σ → Option QueuedPacket × σ
  /-- Hand back the answer. -/
  resolve : σ → QueuedPacket → Decision → σ
  remaining : σ → ℕ
  remaining_nextPacket (s s' : σ) (packet : QueuedPacket) :
    nextPacket s = (some packet, s') → remaining s' < remaining s
  remaining_resolve (s : σ) (packet : QueuedPacket) (decision : Decision) :
    remaining (resolve s packet decision) = remaining s

export VerdictSource (nextPacket resolve)

/-- The two instants read while a packet is judged: for the decision, and after the verdict has gone
back. -/
structure Readings where
  now : Instant
  resolved : Instant
  deriving DecidableEq, Repr

variable {σ : Type} [VerdictSource σ]

def judge (prevention : Prevention) (packet : QueuedPacket) (now : Instant) :
    Prevention × Decision :=
  prevention.decide packet.tuple now

def judgeAndResolve (source : σ) (store : VerdictStore) (packet : QueuedPacket)
    (readings : Readings) : σ × VerdictStore × Decision :=
  let judged := judge store.prevention packet readings.now
  let store := { store with prevention := judged.1 }
  (resolve source packet judged.2,
    store.recordLatency (elapsed readings.resolved packet.received / 1000), judged.2)

structure RunSummary where
  accepted : ℕ := 0
  dropped : ℕ := 0
  deriving DecidableEq, Repr

def RunSummary.count (summary : RunSummary) : Decision → RunSummary
  | .accept => { summary with accepted := summary.accepted + 1 }
  | .drop _ => { summary with dropped := summary.dropped + 1 }

/-- Run a source, judging everything it produces. The clock is read per packet. -/
def runFrom (summary : RunSummary) (source : σ) (store : VerdictStore) (clock : ℕ → Readings) :
    σ × VerdictStore × RunSummary :=
  match hnext : nextPacket source with
  | (none, source) => (source, store, summary)
  | (some packet, source') =>
    let judged := judgeAndResolve source' store packet (clock 0)
    runFrom (summary.count judged.2.2) judged.1 judged.2.1 (fun n => clock (n + 1))
termination_by VerdictSource.remaining source
decreasing_by
  rw [judgeAndResolve, VerdictSource.remaining_resolve]
  exact VerdictSource.remaining_nextPacket source source' packet hnext

def run (source : σ) (store : VerdictStore) (clock : ℕ → Readings) :
    σ × VerdictStore × RunSummary :=
  runFrom {} source store clock

structure OfflineQueue where
  pending : List QueuedPacket
  /-- What was decided, in order. -/
  verdicts : List (UInt32 × Decision) := []

instance OfflineQueue.verdictSource : VerdictSource OfflineQueue where
  nextPacket q :=
    match q.pending with
    | [] => (none, q)
    | packet :: rest => (some packet, { q with pending := rest })
  resolve q packet decision := { q with verdicts := q.verdicts ++ [(packet.id, decision)] }
  remaining q := q.pending.length
  remaining_nextPacket := by
    rintro ⟨pending, verdicts⟩ s' packet h
    cases pending with
    | nil => simp at h
    | cons first rest =>
      simp only [Prod.mk.injEq, Option.some.injEq] at h
      rw [← h.2]
      exact Nat.lt_succ_self _
  remaining_resolve _ _ _ := rfl

structure Message where
  packetId : UInt32
  payload : List UInt8
  deriving DecidableEq, Repr

inductive Verdict
  | accept
  | drop
  deriving DecidableEq, Repr

def Decision.verdict : Decision → Verdict
  | .accept => .accept
  | .drop _ => .drop

inductive ErrorKind
  | interrupted
  | wouldBlock
  | other
  deriving DecidableEq, Repr

def ErrorKind.recoverable : ErrorKind → Bool
  | .interrupted | .wouldBlock => true
  | .other => false

abbrev Received := Except ErrorKind Message × Instant

structure KernelQueue where
  /-- What the receives are going to return, in order. -/
  incoming : List Received
  /-- The verdicts that were handed over, in order. What the hand-over returns is ignored, so that a
  verdict stands here even if the kernel did not take it. -/
  answered : List (Message × Verdict) := []
  /-- Packets received but not yet answered, by kernel id. -/
  inFlight : Table UInt32 Message := ∅
  /-- Packets accepted without judgement because their header was unreadable. -/
  unparsed : ℕ := 0
  /-- Recoverable receive errors that were retried. -/
  retries : ℕ := 0
  /-- The error that ended the loop, if one did. -/
  fatal : Option ErrorKind := none

inductive Turn
  /-- Nothing has arrived, and the receive blocks. -/
  | blocked
  /-- The loop goes round again. -/
  | again
  | packet (packet : QueuedPacket)
  | finished
  deriving DecidableEq

namespace KernelQueue

def receive (q : KernelQueue) : Turn × KernelQueue :=
  match q.incoming with
  | [] => (.blocked, q)
  | (.ok message, received) :: rest =>
    match tupleFromIpPacket message.payload with
    | some tuple =>
      (.packet ⟨message.packetId, tuple, received⟩,
        { q with incoming := rest, inFlight := q.inFlight.insert message.packetId message })
    | none =>
      -- an unreadable header: accept it and move on
      (.again,
        { q with
          incoming := rest
          unparsed := q.unparsed + 1
          answered := q.answered ++ [(message, .accept)] })
  | (.error kind, _) :: rest =>
    if kind.recoverable then (.again, { q with incoming := rest, retries := q.retries + 1 })
    else (.finished, { q with incoming := rest, fatal := some kind })

theorem incoming_receive_lt {q q' : KernelQueue} {turn : Turn} (h : q.receive = (turn, q'))
    (hturn : turn ≠ .blocked) : q'.incoming.length < q.incoming.length := by
  unfold receive at h
  split at h
  · rw [← (Prod.mk.inj h).1] at hturn
    exact absurd rfl hturn
  next message received rest heq =>
    split at h
    · rw [← (Prod.mk.inj h).2, heq]
      exact Nat.lt_succ_self _
    · rw [← (Prod.mk.inj h).2, heq]
      exact Nat.lt_succ_self _
  next kind received rest heq =>
    split at h
    · rw [← (Prod.mk.inj h).2, heq]
      exact Nat.lt_succ_self _
    · rw [← (Prod.mk.inj h).2, heq]
      exact Nat.lt_succ_self _

def nextPacket (q : KernelQueue) : Option QueuedPacket × KernelQueue :=
  match _hturn : q.receive with
  | (.blocked, q') => (none, q')
  | (.again, q') => q'.nextPacket
  | (.packet packet, q') => (some packet, q')
  | (.finished, q') => (none, q')
termination_by q.incoming.length
decreasing_by exact incoming_receive_lt _hturn (by simp)

def resolve (q : KernelQueue) (packet : QueuedPacket) (decision : Decision) : KernelQueue :=
  match q.inFlight.lookup packet.id with
  | none => q
  | some message =>
    { q with
      inFlight := q.inFlight.erase packet.id
      answered := q.answered ++ [(message, decision.verdict)] }

@[simp] theorem incoming_resolve (q : KernelQueue) (packet : QueuedPacket) (decision : Decision) :
    (q.resolve packet decision).incoming = q.incoming := by
  unfold resolve
  split
  · rfl
  · rfl

theorem incoming_nextPacket_lt {q q' : KernelQueue} {packet : QueuedPacket}
    (h : q.nextPacket = (some packet, q')) : q'.incoming.length < q.incoming.length := by
  induction q using nextPacket.induct with
  | case1 q q₁ hturn =>
    rw [nextPacket, hturn] at h
    simp at h
  | case2 q q₁ hturn ih =>
    rw [nextPacket, hturn] at h
    exact (ih h).trans (incoming_receive_lt hturn (by simp))
  | case3 q p q₁ hturn =>
    rw [nextPacket, hturn] at h
    rw [← (Prod.mk.inj h).2]
    exact incoming_receive_lt hturn (by simp)
  | case4 q q₁ hturn =>
    rw [nextPacket, hturn] at h
    simp at h

instance verdictSource : VerdictSource KernelQueue where
  nextPacket := nextPacket
  resolve := resolve
  remaining q := q.incoming.length
  remaining_nextPacket _ _ _ := incoming_nextPacket_lt
  remaining_resolve q packet decision := by rw [incoming_resolve]

end KernelQueue

def toJudge : List Received → List QueuedPacket
  | [] => []
  | (.ok message, received) :: rest =>
    ((tupleFromIpPacket message.payload).map (⟨message.packetId, ·, received⟩)).toList ++
    toJudge rest
  | (.error kind, _) :: rest => if kind.recoverable then toJudge rest else []

def receivable : List Received → List Message
  | [] => []
  | (.ok message, _) :: rest => message :: receivable rest
  | (.error kind, _) :: rest => if kind.recoverable then receivable rest else []

def judgedAnswer (answer : Message × Verdict) : Option (UInt32 × Verdict) :=
  (tupleFromIpPacket answer.1.payload).map (fun _ => (answer.1.packetId, answer.2))

theorem runFrom_of_none {source source' : σ} (h : nextPacket source = (none, source'))
    (summary : RunSummary) (store : VerdictStore) (clock : ℕ → Readings) :
    runFrom summary source store clock = (source', store, summary) := by
  rw [runFrom]
  split
  next s hs =>
    rw [h] at hs
    rw [(Prod.mk.inj hs).2]
  next packet s hs =>
    rw [h] at hs
    simp at hs

theorem runFrom_of_some {source source' : σ} {packet : QueuedPacket}
    (h : nextPacket source = (some packet, source')) (summary : RunSummary) (store : VerdictStore)
    (clock : ℕ → Readings) :
    runFrom summary source store clock =
      let judged := judgeAndResolve source' store packet (clock 0)
      runFrom (summary.count judged.2.2) judged.1 judged.2.1 (fun n => clock (n + 1)) := by
  rw [runFrom]
  split
  next s hs =>
    rw [h] at hs
    simp at hs
  next p s hs =>
    rw [h] at hs
    obtain ⟨hp, hs⟩ := Prod.mk.inj hs
    rw [Option.some.inj hp, hs]

theorem runFrom_congr {source source' : σ} (h : nextPacket source = nextPacket source')
    (summary : RunSummary) (store : VerdictStore) (clock : ℕ → Readings) :
    runFrom summary source store clock = runFrom summary source' store clock := by
  rcases hnext : nextPacket source' with ⟨_ | packet, s⟩
  · rw [runFrom_of_none (h.trans hnext), runFrom_of_none hnext]
  · rw [runFrom_of_some (h.trans hnext), runFrom_of_some hnext]

namespace KernelQueue

section Receive

variable {q : KernelQueue} {received : Instant} {rest : List Received}

theorem receive_nil (h : q.incoming = []) : q.receive = (.blocked, q) := by
  rw [receive, h]

theorem receive_unreadable {message : Message} (h : q.incoming = (.ok message, received) :: rest)
    (htuple : tupleFromIpPacket message.payload = none) :
    q.receive = (.again,
      { q with
        incoming := rest
        unparsed := q.unparsed + 1
        answered := q.answered ++ [(message, .accept)] }) := by
  rw [receive, h]
  simp only [htuple]

theorem receive_readable {message : Message} {tuple : NetTuple}
    (h : q.incoming = (.ok message, received) :: rest)
    (htuple : tupleFromIpPacket message.payload = some tuple) :
    q.receive = (.packet ⟨message.packetId, tuple, received⟩,
      { q with incoming := rest, inFlight := q.inFlight.insert message.packetId message }) := by
  rw [receive, h]
  simp only [htuple]

theorem receive_recoverable {kind : ErrorKind} (h : q.incoming = (.error kind, received) :: rest)
    (hkind : kind.recoverable = true) :
    q.receive = (.again, { q with incoming := rest, retries := q.retries + 1 }) := by
  rw [receive, h]
  exact if_pos hkind

theorem receive_fatal {kind : ErrorKind} (h : q.incoming = (.error kind, received) :: rest)
    (hkind : kind.recoverable = false) :
    q.receive = (.finished, { q with incoming := rest, fatal := some kind }) := by
  rw [receive, h]
  exact if_neg (by rw [hkind]; exact Bool.false_ne_true)

end Receive

section NextPacket

variable {q q' : KernelQueue}

theorem nextPacket_of_blocked (h : q.receive = (.blocked, q')) : q.nextPacket = (none, q') := by
  rw [nextPacket, h]

theorem nextPacket_of_again (h : q.receive = (.again, q')) : q.nextPacket = q'.nextPacket := by
  rw [nextPacket, h]

theorem nextPacket_of_packet {packet : QueuedPacket} (h : q.receive = (.packet packet, q')) :
    q.nextPacket = (some packet, q') := by
  rw [nextPacket, h]

theorem nextPacket_of_finished (h : q.receive = (.finished, q')) : q.nextPacket = (none, q') := by
  rw [nextPacket, h]

end NextPacket

theorem resolve_received (q : KernelQueue) (message : Message) (packet : QueuedPacket)
    (hid : packet.id = message.packetId) (hidle : q.inFlight = ∅) (decision : Decision) :
    ({ q with inFlight := q.inFlight.insert message.packetId message }).resolve packet decision =
      { q with answered := q.answered ++ [(message, decision.verdict)] } := by
  have herase : ((∅ : Table UInt32 Message).insert message.packetId message).erase
      message.packetId =
      ∅ := by
    apply AList.ext
    exact List.kerase_cons_eq rfl
  rw [resolve, hid, hidle]
  simp only [AList.lookup_insert, herase]

end KernelQueue

/-- What a run over the netfilter queue has in common with one over the packets it has to judge. -/
structure SameVerdicts (q : KernelQueue) (verdicts : List (UInt32 × Decision))
    (kernel : KernelQueue × VerdictStore × RunSummary)
    (offline : OfflineQueue × VerdictStore × RunSummary) : Prop where
  same : kernel.2 = offline.2
  answered : ∃ answers, kernel.1.answered = q.answered ++ answers ∧
    answers.map Prod.fst = receivable q.incoming ∧
    verdicts.map (fun v => (v.1, v.2.verdict)) ++ answers.filterMap judgedAnswer =
      offline.1.verdicts.map (fun v => (v.1, v.2.verdict))

/-- An unreadable packet or an error between the packets does not matter. -/
theorem SameVerdicts.skip {q q' : KernelQueue} {verdicts : List (UInt32 × Decision)}
    {kernel : KernelQueue × VerdictStore × RunSummary}
    {offline : OfflineQueue × VerdictStore × RunSummary}
    (h : SameVerdicts q' verdicts kernel offline)
    {unread : List (Message × Verdict)} (hanswered : q'.answered = q.answered ++ unread)
    (hreceivable : receivable q.incoming = unread.map Prod.fst ++ receivable q'.incoming)
    (hunread : unread.filterMap judgedAnswer = []) : SameVerdicts q verdicts kernel offline := by
  obtain ⟨answers, hkernel, hmessages, hverdicts⟩ := h.answered
  refine ⟨h.same, unread ++ answers, ?_, ?_, ?_⟩
  · rw [hkernel, hanswered, List.append_assoc]
  · rw [List.map_append, hmessages, hreceivable]
  · rw [List.filterMap_append, hunread, List.nil_append, hverdicts]

theorem runFrom_kernelQueue (incoming : List Received) (q : KernelQueue)
    (hq : q.incoming = incoming)
    (hidle : q.inFlight = ∅) (summary : RunSummary) (store : VerdictStore) (clock : ℕ → Readings)
    (verdicts : List (UInt32 × Decision)) :
    SameVerdicts q verdicts (runFrom summary q store clock)
      (runFrom summary (⟨toJudge incoming, verdicts⟩ : OfflineQueue) store clock) := by
  induction incoming generalizing q summary store clock verdicts with
  | nil =>
    have hnext : nextPacket q = (none, q) :=
      KernelQueue.nextPacket_of_blocked (KernelQueue.receive_nil hq)
    rw [runFrom_of_none hnext, runFrom_of_none (by rfl)]
    refine ⟨rfl, [], ?_⟩
    simp [hq, receivable]
  | cons first rest ih =>
    obtain ⟨result, received⟩ := first
    cases result with
    | error kind =>
      cases hkind : kind.recoverable with
      | true =>
        have hnext := KernelQueue.nextPacket_of_again (KernelQueue.receive_recoverable hq hkind)
        rw [runFrom_congr hnext, toJudge, if_pos hkind]
        refine (ih { q with incoming := rest, retries := q.retries + 1 } rfl hidle
          summary store clock
          verdicts).skip (List.append_nil _).symm ?_ rfl
        rw [hq, receivable, if_pos hkind]
        rfl
      | false =>
        have hnext := KernelQueue.nextPacket_of_finished (KernelQueue.receive_fatal hq hkind)
        rw [runFrom_of_none hnext, toJudge, if_neg (by simp [hkind]), runFrom_of_none (by rfl)]
        refine ⟨rfl, [], ?_⟩
        simp [hq, receivable, hkind]
    | ok message =>
      cases htuple : tupleFromIpPacket message.payload with
      | none =>
        have hnext := KernelQueue.nextPacket_of_again (KernelQueue.receive_unreadable hq htuple)
        rw [runFrom_congr hnext, toJudge, htuple]
        let skipped : KernelQueue :=
          { q with
            incoming := rest
            unparsed := q.unparsed + 1
            answered := q.answered ++ [(message, .accept)] }
        refine (ih skipped rfl hidle summary store clock verdicts).skip rfl ?_ ?_
        · rw [hq, receivable]
          rfl
        · simp [judgedAnswer, htuple]
      | some tuple =>
        have hnext := KernelQueue.nextPacket_of_packet (KernelQueue.receive_readable hq htuple)
        have hoffline : nextPacket
            (⟨⟨message.packetId, tuple, received⟩ :: toJudge rest, verdicts⟩ : OfflineQueue) =
            (some ⟨message.packetId, tuple, received⟩, ⟨toJudge rest, verdicts⟩) := rfl
        rw [runFrom_of_some hnext, toJudge, htuple, Option.map_some, Option.toList_some,
          List.singleton_append, runFrom_of_some hoffline]
        let packet : QueuedPacket := ⟨message.packetId, tuple, received⟩
        let judged := judge store.prevention packet (clock 0).now
        let store' := { store with prevention := judged.1 }.recordLatency
          (elapsed (clock 0).resolved received / 1000)
        let waiting : KernelQueue := { q with incoming := rest }
        let answering : KernelQueue :=
          { waiting with answered := q.answered ++ [(message, judged.2.verdict)] }
        have hresolve : ({ waiting with
            inFlight := q.inFlight.insert message.packetId message }).resolve packet judged.2 =
            answering := waiting.resolve_received message packet rfl hidle judged.2
        change SameVerdicts q verdicts
          (runFrom (summary.count judged.2) (KernelQueue.resolve _ packet judged.2) store' _)
          (runFrom (summary.count judged.2)
            (⟨toJudge rest, verdicts ++ [(message.packetId, judged.2)]⟩ : OfflineQueue) store' _)
        rw [hresolve]
        have hrest := ih answering rfl hidle (summary.count judged.2) store' (fun n =>
          clock (n + 1))
          (verdicts ++ [(message.packetId, judged.2)])
        obtain ⟨answers, hanswers, hmessages, hverdicts⟩ := hrest.answered
        refine ⟨hrest.same, (message, judged.2.verdict) :: answers, ?_, ?_, ?_⟩
        · rw [hanswers, List.append_assoc, List.singleton_append]
        · rw [List.map_cons, hmessages, hq, receivable]
        · rw [← hverdicts, List.map_append, List.append_assoc]
          simp [judgedAnswer, htuple]

/-- The verdict path cannot tell the two queues apart: over the netfilter queue it decides as over
the packets replayed from memory, with the same store, whatever the errors and the unreadable
packets in between. Every message received before a fatal error is answered once, in order. -/
theorem run_kernelQueue_eq_offline (incoming : List Received) (store : VerdictStore)
    (clock : ℕ → Readings) :
    let kernel := run ({ incoming := incoming } : KernelQueue) store clock
    let offline := run ({ pending := toJudge incoming } : OfflineQueue) store clock
    kernel.2 = offline.2 ∧ kernel.1.answered.map Prod.fst = receivable incoming ∧
      kernel.1.answered.filterMap judgedAnswer =
        offline.1.verdicts.map (fun v => (v.1, v.2.verdict)) := by
  intro kernel offline
  have hsame := runFrom_kernelQueue incoming { incoming := incoming } rfl rfl {} store clock []
  obtain ⟨answers, hanswers, hmessages, hverdicts⟩ := hsame.answered
  refine ⟨hsame.same, ?_, ?_⟩
  · exact (congrArg (List.map Prod.fst) hanswers).trans hmessages
  · exact (congrArg (List.filterMap judgedAnswer) hanswers).trans hverdicts

end Prevent
end CyberSentinel
