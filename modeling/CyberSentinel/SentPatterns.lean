import CyberSentinel.Detection
import CyberSentinel.FlowEnds
import CyberSentinel.StreamInvariant

/-!
# From the sender to the alert

A message is sent over TCP in segments that arrive in any order, overlap and repeat, among any other
traffic. Once the receiver has acknowledged an offset, everything the sender has sent before it has
been delivered; what is delivered is handed to the engine for the conversation's flow; and the
delivery that completes a pattern raises its rule's alert. So a pattern in the message is alerted
once it has been sent and acknowledged, whatever else passes the sensor.
-/

namespace CyberSentinel

open Spans Tables Detect Bytes Rules

/-- The push acknowledges the message of a direction up to offset `k`, which lies near the base. -/
structure Acknowledges (isn : UInt32) (toServer : Bool) (p : StreamPair) (q : Push)
    (k : ℕ) : Prop where
  other : q.toServer ≠ toServer
  ack : q.segment.has Flags.ack = true
  acknowledgment_eq : q.segment.acknowledgment = wireSequence isn k
  behind : -2 ^ 31 ≤ (k : ℤ) - (p.side toServer).buffer.base
  ahead : (k : ℤ) - (p.side toServer).buffer.base < 2 ^ 31

/-- Some push of the run acknowledges offset `k`, in the state it is made in. -/
def AcknowledgedIn (isn : UInt32) (toServer : Bool) (p : StreamPair) (pushes : List Push) (k : ℕ) :
    Prop :=
  ∃ before q after, pushes = before ++ q :: after ∧
    Acknowledges isn toServer (Runs.run StreamPair.step p before).1 q k

namespace Stream

@[simp] theorem store_acknowledgedUpto (s : Stream) (sequence : UInt32) (payload : List UInt8)
    (policy : OverlapPolicy) :
    (s.store sequence payload policy).acknowledgedUpto = s.acknowledgedUpto := by
  rw [store_eq]

theorem push_acknowledgedUpto (s : Stream) (segment : TcpSegment) (policy : OverlapPolicy) :
    (s.push segment policy).acknowledgedUpto = s.acknowledgedUpto := by
  have hestablish : (s.establish segment).acknowledgedUpto = s.acknowledgedUpto := by
    unfold establish
    split_ifs <;> rfl
  rw [push_eq]
  split_ifs
  · rw [noteFin_eq, take]
    split_ifs
    · exact hestablish
    · rw [store_eq, countSegment_eq]
      exact hestablish
  · rfl

theorem le_receive_acknowledgedUpto (s : Stream) (toServer : Bool) (q : Push) :
    s.acknowledgedUpto ≤ (s.receive toServer q).acknowledgedUpto := by
  unfold receive
  split_ifs
  · rw [push_acknowledgedUpto]
  · simp only [acknowledge]
    split_ifs
    · exact le_rfl
    · exact le_max_left _ _
    · exact le_rfl
  · exact le_rfl

end Stream

section Acknowledged

variable {m : List UInt8} {isn : UInt32} {toServer : Bool}

theorem le_step_acknowledgedUpto (p : StreamPair) (q : Push) (toServer : Bool) :
    (p.side toServer).acknowledgedUpto ≤ ((p.step q).1.side toServer).acknowledgedUpto := by
  rw [(step_side p q toServer).1]
  exact (p.side toServer).le_receive_acknowledgedUpto toServer q

theorem le_run_acknowledgedUpto (p : StreamPair) (pushes : List Push) (toServer : Bool) :
    (p.side toServer).acknowledgedUpto ≤
      ((Runs.run StreamPair.step p pushes).1.side toServer).acknowledgedUpto :=
  Runs.invariant StreamPair.step
    (fun p' => (p.side toServer).acknowledgedUpto ≤ (p'.side toServer).acknowledgedUpto)
    (fun p' q h => h.trans (le_step_acknowledgedUpto p' q toServer)) le_rfl pushes

theorem Acknowledges.le {p : StreamPair} {q : Push} {k : ℕ} (h : Acknowledges isn toServer p q k)
    (hest : (p.side toServer).established = true)
    (hanchor : (p.side toServer).baseSequence = wireSequence isn (p.side toServer).buffer.base) :
    k ≤ ((p.step q).1.side toServer).acknowledgedUpto := by
  rw [(step_side p q toServer).1]
  change k ≤ ((p.side toServer).receive toServer q).acknowledgedUpto
  have habs := absolute_wireSequence (p.side toServer) isn k hanchor h.behind h.ahead
  simp only [Stream.receive, if_neg h.other, if_pos h.ack, Stream.acknowledge, hest, Bool.not_true,
    Bool.false_eq_true, if_false, h.acknowledgment_eq, habs]
  split_ifs with hpos
  · exact le_max_right _ _
  · change k ≤ (p.side toServer).acknowledgedUpto
    omega

/-- After a run in which the message is tracked, everything acknowledged in it is noted. -/
theorem run_acknowledged (hlen : m.length < 2 ^ 63) {p : StreamPair} {out : List UInt8}
    {offered : Set ℕ} (h : Tracks m isn (p.side toServer) out offered) {pushes : List Push}
    (ha : Runs.Along StreamPair.step (PushArrives m isn toServer) p pushes) {k : ℕ}
    (hk : AcknowledgedIn isn toServer p pushes k) :
    k ≤ ((Runs.run StreamPair.step p pushes).1.side toServer).acknowledgedUpto := by
  obtain ⟨before, q, after, rfl, hack⟩ := hk
  have hbefore := run_tracks hlen h ((Runs.along_append _ _ _ _ _).1 ha).1
  rw [Runs.run_append, Runs.run_cons]
  exact (hack.le hbefore.established hbefore.anchor).trans
    (le_run_acknowledgedUpto _ after toServer)

/-- Once the direction has settled, every acknowledged offset that was offered is delivered. -/
theorem Tracks.take_prefix {s : Stream} {out : List UInt8} {offered : Set ℕ}
    (h : Tracks m isn s out offered) (hsettled : s.Settled) {k : ℕ} (hack : k ≤ s.acknowledgedUpto)
    (hoffered : ∀ x < k, x ∈ offered) : m.take k <+: out ∧ out <+: m := by
  have hend : k ≤ s.buffer.contiguousEnd := by
    by_contra hshort
    rcases h.kept s.buffer.contiguousEnd (hoffered _ (by omega)) with hlt | hcov
    · have := h.wf.base_le_contiguousEnd
      omega
    · exact firstHole_not_mem h.wf.separated h.wf.start_ge hcov
  have hbase : k ≤ s.buffer.base := (le_min hack hend).trans hsettled.acknowledged
  rw [h.out_eq]
  exact ⟨List.take_prefix_take_left hbase, List.take_prefix _ _⟩

theorem run_map_push (p : StreamPair) (pushes : List Push) :
    Runs.run StreamPair.act p (pushes.map PairOp.push) = Runs.run StreamPair.step p pushes := by
  induction pushes generalizing p with
  | nil => rfl
  | cons q rest ih =>
    rw [List.map_cons, Runs.run_cons, Runs.run_cons, StreamPair.act, ih]

theorem run_settled (config : ReassemblyConfig) (pushes : List Push) (toServer : Bool) :
    ((Runs.run StreamPair.step (StreamPair.new config) pushes).1.side toServer).Settled := by
  have hafter := (after_sound config (pushes.map PairOp.push) toServer).2
  rwa [StreamPair.after, run_map_push] at hafter

/-- A sender opens a direction with a SYN and then sends bytes of one message only, and the window
cuts none of them off; what comes before the SYN travels the other way. -/
structure Sends (config : ReassemblyConfig) (m : Message) (toServer : Bool) (before : List Push)
    (syn : Push) (after : List Push) : Prop where
  before_other : ∀ q ∈ before, q.toServer ≠ toServer
  syn_side : syn.toServer = toServer
  syn_flag : syn.segment.has Flags.syn = true
  arrives : Runs.Along StreamPair.step (PushArrives m.bytes syn.segment.sequence toServer)
    (Runs.run StreamPair.step (StreamPair.new config) before).1 (syn :: after)

theorem Sends.syn_tracks {config : ReassemblyConfig} {m : Message} {before after : List Push}
    {syn : Push} (h : Sends config m toServer before syn after) :
    let start := (Runs.run StreamPair.step (StreamPair.new config) before).1
    delivered toServer (Runs.run StreamPair.step (StreamPair.new config) before).2 = [] ∧
      Tracks m.bytes syn.segment.sequence ((start.step syn).1.side toServer)
        ((start.step syn).2.side toServer)
        {x | Offers m.bytes syn.segment.sequence toServer start syn x} := by
  intro start
  obtain ⟨byteLimit, flushBytes, hlimit, hflush, hnew⟩ := side_new config toServer
  obtain ⟨hstart, hnone⟩ := run_before_syn hflush hnew h.before_other
  refine ⟨hnone, ?_⟩
  obtain ⟨hstate, hready⟩ := step_side start syn toServer
  have htracks := establish_tracks m.bytes byteLimit flushBytes hlimit h.syn_flag
  rw [← hstart] at htracks
  have hreceive := htracks.receive m.length_lt toServer syn
    (by rw [Stream.establish_buffer]; exact h.arrives.1.1)
    (by rw [Stream.establish_buffer, Stream.establish_windowEnd]; exact h.arrives.1.2)
  rw [← receive_establish h.syn_side h.syn_flag, Stream.establish_buffer,
    Set.empty_union] at hreceive
  have hdelivered := (hreceive.deliver false).1
  rw [List.nil_append] at hdelivered
  rw [hstate, hready]
  exact hdelivered

theorem Sends.tracks {config : ReassemblyConfig} {m : Message} {before after : List Push}
    {syn : Push} (h : Sends config m toServer before syn after) :
    let start := (Runs.run StreamPair.step (StreamPair.new config) before).1
    let run := Runs.run StreamPair.step (StreamPair.new config) (before ++ syn :: after)
    Tracks m.bytes syn.segment.sequence (run.1.side toServer) (delivered toServer run.2)
      {x | OfferedIn m.bytes syn.segment.sequence toServer start (syn :: after) x} := by
  intro start run
  obtain ⟨hnone, hsyn⟩ := h.syn_tracks
  have hall := run_tracks m.length_lt hsyn h.arrives.2
  have hrun : run = (_, _) := Runs.run_append _ _ _ _
  have hout : delivered toServer run.2 = (start.step syn).2.side toServer ++
      delivered toServer (Runs.run StreamPair.step (start.step syn).1 after).2 := by
    rw [hrun, delivered, List.flatMap_append, Runs.run_cons, List.flatMap_cons]
    exact (congrArg (· ++ _) hnone).trans (List.nil_append _)
  have hstate : run.1 = (Runs.run StreamPair.step (start.step syn).1 after).1 := by rw [hrun]; rfl
  rw [hout, hstate]
  apply hall.mono
  exact fun x hx => (offeredIn_cons hx).elim Or.inl Or.inr

theorem Sends.acknowledged {config : ReassemblyConfig} {m : Message} {before after : List Push}
    {syn : Push} (h : Sends config m toServer before syn after) {k : ℕ}
    (hoffered : ∀ x < k, OfferedIn m.bytes syn.segment.sequence toServer
      (Runs.run StreamPair.step (StreamPair.new config) before).1 (syn :: after) x)
    (hack : AcknowledgedIn syn.segment.sequence toServer
      ((Runs.run StreamPair.step (StreamPair.new config) before).1.step syn).1 after k) :
    let run := Runs.run StreamPair.step (StreamPair.new config) (before ++ syn :: after)
    m.bytes.take k <+: delivered toServer run.2 ∧ delivered toServer run.2 <+: m.bytes := by
  intro run
  have hnoted := run_acknowledged m.length_lt h.syn_tracks.2 h.arrives.2 hack
  have hstate : run.1 = (Runs.run StreamPair.step
      ((Runs.run StreamPair.step (StreamPair.new config) before).1.step syn).1 after).1 := by
    rw [show run = (_, _) from Runs.run_append _ _ _ _]
    rfl
  rw [← hstate] at hnoted
  exact h.tracks.take_prefix (run_settled config _ toServer) hnoted hoffered

end Acknowledged

/-- Somewhere in a list the bytes of its entries reach the `n`-th one. -/
theorem exists_reaching {ε : Type*} (bytes : ε → List UInt8) {entries : List ε} {n : ℕ} (hn : 0 < n)
    (h : n ≤ (entries.flatMap bytes).length) :
    ∃ before e after, entries = before ++ e :: after ∧ (before.flatMap bytes).length < n ∧
      n ≤ (before.flatMap bytes ++ bytes e).length := by
  induction entries generalizing n with
  | nil =>
    rw [List.flatMap_nil, List.length_nil] at h
    omega
  | cons first rest ih =>
    by_cases hfirst : n ≤ (bytes first).length
    · exact ⟨[], first, rest, rfl, hn, hfirst⟩
    · rw [List.flatMap_cons, List.length_append] at h
      obtain ⟨before, e, after, rfl, hbefore, he⟩ :=
        ih (n := n - (bytes first).length) (by omega) (by omega)
      refine ⟨first :: before, e, after, rfl, ?_, ?_⟩
      · rw [List.flatMap_cons, List.length_append]
        omega
      · rw [List.flatMap_cons, List.append_assoc, List.length_append]
        omega

/-- A pattern of the inspected bytes is completed by one of the events. -/
theorem exists_completing {flowId : UInt64} {toServer : Bool} {trace : List Event}
    {c : ContentMatch}
    {i : ℕ} (hc : c.pattern ≠ [])
    (hoccurs : Search.OccursAt (sameByte c.nocase) c.pattern
    (inspectedBytes flowId toServer trace) i) :
    ∃ before event after, trace = before ++ event :: after ∧
      event.inspected flowId toServer ≠ [] ∧
      Completes c (inspectedBytes flowId toServer before) (event.inspected flowId toServer) := by
  have hpos := List.length_pos_of_ne_nil hc
  obtain ⟨before, event, after, rfl, hbefore, hevent⟩ := exists_reaching
    (Event.inspected flowId toServer) (show 0 < i + c.pattern.length by omega)
    (hoccurs.le_length hc)
  refine ⟨before, event, after, rfl, ?_, i, ?_, hbefore⟩
  · intro hnone
    rw [hnone, List.append_nil] at hevent
    omega
  · have hslice := hoccurs.slice (Nat.zero_le i) hevent
    rw [Nat.sub_zero, slice, List.drop_zero, inspectedBytes, List.flatMap_append, List.flatMap_cons,
      ← List.append_assoc, List.take_left'] at hslice
    · exact hslice
    · rfl

/-- A rule of the set whose only option is a content without position, and that always alerts. -/
structure SinglePattern (resolve : HeaderResolver) (rules : List Rule) (rule : Rule)
    (c : ContentMatch)
    (header : CompiledHeader) : Prop where
  sids : (rules.map Rule.sid).Nodup
  mem : rule ∈ rules
  evaluable : rule.isEvaluable = true
  resolves : resolve rule.header = .ok header
  options : rule.options = [.content c]
  plain : Plain c
  threshold : rule.threshold = none
  noAlert : rule.noAlert = false

variable {R : Regex} {A : AhoCorasick}

theorem SinglePattern.length_le {resolve : HeaderResolver} {rules : List Rule} {rule : Rule}
    {c : ContentMatch} {header : CompiledHeader} (h : SinglePattern resolve rules rule c header)
    (R : Regex) (A : AhoCorasick) (limits : EngineLimits) :
    c.pattern.length ≤ (Engine.new R A resolve limits rules).1.longestPattern := by
  obtain ⟨entry, harmed, -, hentryOptions⟩ :=
    exists_armed_of_contents R limits.compile [c] h.evaluable h.resolves h.options
  exact le_longestPatternOf (mem_new_rules h.mem
    (by simp [Rule.isHostRuleByOptions, h.options, RuleOption.hostEventKind]) harmed)
    (by simp [hentryOptions])

/-- A delivery raises the alert exactly when the region it is evaluated on holds the pattern. -/
theorem SinglePattern.alerts_iff {resolve : HeaderResolver} {limits : EngineLimits}
    {rules : List Rule}
    {rule : Rule} {c : ContentMatch} {header : CompiledHeader}
    (h : SinglePattern resolve rules rule c header) {before : List Call} (order : HashOrder UInt64)
    {flowId : UInt64} {tuple : NetTuple} {toServer : Bool} {bytes : List UInt8}
    (timestamp : Instant)
    (hheader : header.matches tuple = true) (hne : bytes ≠ [])
    (hkept : Runs.Along Engine.step (Engine.KeepsFlow flowId)
      (Engine.new R A resolve limits rules).1
      (before ++ [.stream order flowId tuple toServer bytes timestamp])) :
    let e := (Engine.new R A resolve limits rules).1
    alertsFor rule.sid ((Runs.run Engine.step e before).1.step
      (.stream order flowId tuple toServer bytes timestamp)).2.alerts ≠ [] ↔
        Search.Occurs (sameByte c.nocase) c.pattern (expectedScan limits.inspectionWindow
          (e.longestPattern - 1) (deliveries flowId toServer before).flatten bytes).region := by
  intro e
  obtain ⟨entry, harmed, hentryHeader, hentryOptions⟩ :=
    exists_armed_of_contents R limits.compile [c] h.evaluable h.resolves h.options
  have hsid := (armed_spec harmed).1
  have hentry : entry ∈ e.ruleset.rules :=
    mem_new_rules h.mem
      (by simp [Rule.isHostRuleByOptions, h.options, RuleOption.hostEventKind]) harmed
  have hcontents : ∀ c' ∈ [c], Plain c' := fun c' hc' => List.mem_singleton.1 hc' ▸ h.plain
  obtain ⟨hbefore, hlast, -⟩ := (Runs.along_append _ _ _ _ _).1 hkept
  have hparams := Engine.run_params e before
  have hwindow :=
    (Engine.run_follows (Engine.new_follows resolve limits rules flowId toServer) hbefore).1
  rw [List.nil_append, ← Engine.limits_of_params hparams] at hwindow
  -- request heads have no payload, so only the region counts
  have hquiet (requests : List HttpRequest) : Engine.matchedRequests entry tuple requests = [] := by
    rw [Engine.matchedRequests, List.filter_eq_nil_iff]
    intro request _ hsome
    have hoccurs := (evaluate_plain_iff hentryOptions hcontents _ _).1 hsome
    exact Search.not_occurs_nil h.plain.pattern (hoccurs.2 c (by simp))
  have halerts := Engine.inspectStream_alertsFor (Runs.run Engine.step e before).1
    (Engine.run_armed resolve limits rules before) (h.sids.sublist (List.filter_sublist.map _))
    (by rw [Engine.ruleset_of_params hparams]; exact hentry)
    (loud_of_armed harmed h.noAlert h.threshold)
    (fun input bits => evaluate_congr_bits entry input (by
      simp [CompiledRule.flowbitNames, hentryOptions, CompiledOption.flowbit]))
    order tuple hwindow hne timestamp hlast.1
  rw [Engine.limits_of_params hparams, Engine.longestPattern_of_params hparams, hsid, hquiet,
    List.map_nil, ite_self, List.append_nil] at halerts
  have hmatch := evaluate_plain_iff hentryOptions hcontents
    ⟨tuple, true, toServer, { payload := (expectedScan e.limits.inspectionWindow
      (e.longestPattern - 1) (deliveries flowId toServer before).flatten bytes).region }⟩ {}
  rw [hentryHeader, List.forall_mem_singleton] at hmatch
  constructor
  · intro hsome
    by_contra hnot
    exact hsome (halerts.trans (if_neg (fun hsome => hnot (hmatch.1 hsome).2)))
  · intro hoccurs hnone
    exact List.cons_ne_nil _ _ ((if_pos (hmatch.2 ⟨hheader, hoccurs⟩)).symm.trans
      (halerts.symm.trans hnone))

theorem step_stream_nil (e : Engine R A) (order : HashOrder UInt64) (flowId : UInt64)
    (tuple : NetTuple) (toServer : Bool) (timestamp : Instant) :
    (e.step (.stream order flowId tuple toServer [] timestamp)).2 = {} := by
  rw [Engine.step, Engine.inspectStream, if_pos rfl]

/-- The bytes a trace hands over are those of the deliveries among its calls. -/
theorem inspectedBytes_eq (flowId : UInt64) (toServer : Bool) (trace : List Event) :
    inspectedBytes flowId toServer trace =
      (deliveries flowId toServer ((callsOf trace).map Prod.fst)).flatten := by
  induction trace with
  | nil => rfl
  | cons event rest ih =>
    have hcons : inspectedBytes flowId toServer (event :: rest) =
        event.inspected flowId toServer ++ inspectedBytes flowId toServer rest := List.flatMap_cons
    rw [hcons, ih]
    cases event with
    | delivered id ready => rfl
    | ended e => rfl
    | call engineCall output =>
      have hcalls : callsOf (Event.call engineCall output :: rest) =
          (engineCall, output) :: callsOf rest := rfl
      rw [hcalls, List.map_cons, deliveries, deliveries, List.map_cons]
      by_cases hempty : engineCall.delivery flowId toServer = []
      · rw [List.filter_cons_of_neg (by simp [hempty])]
        change engineCall.delivery flowId toServer ++ _ = _
        rw [hempty, List.nil_append]
      · rw [List.filter_cons_of_pos (by simpa using hempty), List.flatten_cons]
        rfl

/-- A call of the trace, in the state it is made in, with what it came to. -/
theorem mem_trace_of_call {e : Engine R A} {trace : List Event} {before after : List Call}
    {call : Call}
    (houtputs : (callsOf trace).map Prod.snd =
      (Runs.run Engine.step e ((callsOf trace).map Prod.fst)).2)
    (hcalls : (callsOf trace).map Prod.fst = before ++ call :: after) :
    Event.call call ((Runs.run Engine.step e before).1.step call).2 ∈ trace := by
  have hzip : callsOf trace =
      ((callsOf trace).map Prod.fst).zip ((callsOf trace).map Prod.snd) := by
    rw [List.zip_map']
    exact (List.map_id _).symm
  have hmem : (call, ((Runs.run Engine.step e before).1.step call).2) ∈ callsOf trace := by
    rw [hzip, houtputs, hcalls, Runs.run_append, Runs.run_cons,
      List.zip_append (Runs.length_run Engine.step e before).symm]
    exact List.mem_append_right _ List.mem_cons_self
  obtain ⟨event, hevent, hcall⟩ := List.mem_filterMap.1 hmem
  cases event with
  | delivered id ready => exact absurd hcall (by simp [Event.call?])
  | ended e => exact absurd hcall (by simp [Event.call?])
  | call engineCall output =>
    obtain ⟨rfl, rfl⟩ := Prod.mk.inj (Option.some.inj hcall)
    exact hevent

/-- What an event shows a call to come to is what it comes to in the state it is made in. -/
theorem output_eq {e : Engine R A} {trace before after : List Event} {call : Call} {output : Output}
    (houtputs : (callsOf trace).map Prod.snd =
      (Runs.run Engine.step e ((callsOf trace).map Prod.fst)).2)
    (hsplit : trace = before ++ .call call output :: after) :
    output = ((Runs.run Engine.step e ((callsOf before).map Prod.fst)).1.step call).2 := by
  have hcalls : callsOf trace = callsOf before ++ (call, output) :: callsOf after := by
    rw [hsplit, callsOf_append]
    rfl
  rw [hcalls, List.map_append, List.map_append, Runs.run_append, List.map_cons, List.map_cons,
    Runs.run_cons] at houtputs
  have hlength : ((callsOf before).map Prod.snd).length =
      (Runs.run Engine.step e ((callsOf before).map Prod.fst)).2.length := by
    rw [Runs.length_run, List.length_map, List.length_map]
  exact (List.cons.inj (List.append_inj houtputs hlength).2).1

/-- A flow's end among the calls before a delivery is an event before it. -/
theorem exists_flowEnd {flowId : UInt64} {call : Call} (hends : call.Ends flowId)
    {before : List Event}
    {order : HashOrder UInt64} {id : UInt64} {tuple : NetTuple} {toServer : Bool}
    {bytes : List UInt8}
    {timestamp : Instant} (h : call ∈ (callsOf before).map Prod.fst ++
      [.stream order id tuple toServer bytes timestamp]) :
    ∃ event ∈ before, event.flowEndId = some flowId := by
  cases call with
  | packet order id tuple toServer payload timestamp => exact False.elim hends
  | stream order id tuple toServer delivered timestamp => exact False.elim hends
  | flowEnd id =>
    obtain rfl : id = flowId := hends
    rcases List.mem_append.1 h with hmem | hmem
    · obtain ⟨⟨call, output⟩, hcall, rfl⟩ := List.mem_map.1 hmem
      obtain ⟨event, hevent, hsome⟩ := List.mem_filterMap.1 hcall
      refine ⟨event, hevent, ?_⟩
      cases event with
      | delivered id ready => exact absurd hsome (by simp [Event.call?])
      | ended e => exact absurd hsome (by simp [Event.call?])
      | call engineCall output' =>
        obtain ⟨rfl, -⟩ := Prod.mk.inj (Option.some.inj hsome)
        rfl
    · exact absurd (List.mem_singleton.1 hmem) (by simp)

/-- The packets of a conversation send a message in one direction, and offset `k` of it has been
reached: all offsets before it have been offered, in some segments, and the receiver has
acknowledged it. -/
def SentUpTo (config : ReassemblyConfig) (policy : IpAddr → OverlapPolicy)
    (packets : List PacketSummary) (m : Message) (toServer : Bool) (k : ℕ) : Prop :=
  ∃ before syn after, pushesOf policy packets = before ++ syn :: after ∧
    Sends config m toServer before syn after ∧
    (∀ x < k, OfferedIn m.bytes syn.segment.sequence toServer
      (Runs.run StreamPair.step (StreamPair.new config) before).1 (syn :: after) x) ∧
    AcknowledgedIn syn.segment.sequence toServer
      ((Runs.run StreamPair.step (StreamPair.new config) before).1.step syn).1 after k

theorem SentUpTo.delivered {config : ReassemblyConfig} {policy : IpAddr → OverlapPolicy}
    {packets : List PacketSummary} {m : Message} {toServer : Bool} {k : ℕ}
    (h : SentUpTo config policy packets m toServer k) :
    let out := delivered toServer
      (Runs.run StreamPair.step (StreamPair.new config) (pushesOf policy packets)).2
    m.bytes.take k <+: out ∧ out <+: m.bytes := by
  obtain ⟨before, syn, after, hpushes, hsends, hoffered, hack⟩ := h
  rw [hpushes]
  exact hsends.acknowledged hoffered hack

def Alerted (rule : Rule) (flowId : UInt64) (toServer : Bool) (trace : List Event) : Prop :=
  ∃ order tuple bytes timestamp output,
    Event.call (.stream order flowId tuple toServer bytes timestamp) output ∈ trace ∧
      alertsFor rule.sid output.alerts ≠ []

/-- The detection state of the flow is never evicted, and each delivery to the direction fits the
inspection window together with the overlap. -/
structure Watched (limits : EngineLimits) (longest : ℕ) (flowId : UInt64) (toServer : Bool)
    (trace : List Event) : Prop where
  kept : ∀ call output, Event.call call output ∈ trace → flowId ∉ output.evicted
  fits : ∀ event ∈ trace,
    (event.inspected flowId toServer).length + (longest - 1) ≤ limits.inspectionWindow

section Trace

variable {resolve : HeaderResolver} {limits : EngineLimits} {rules : List Rule} {rule : Rule}
  {c : ContentMatch} {header : CompiledHeader} {flowId : UInt64} {toServer : Bool}
  {all : List Attribution} {trace : List Event} {p : PacketPipeline R A}

/-- The engine still has the flow's state when bytes of the flow are handed over. -/
theorem PacketPipeline.Told.keepsFlow {e : Engine R A}
    (htold : PacketPipeline.Told flowId all trace p)
    (hkept : ∀ call output, Event.call call output ∈ trace → flowId ∉ output.evicted)
    (houtputs : (callsOf trace).map Prod.snd =
      (Runs.run Engine.step e ((callsOf trace).map Prod.fst)).2) {order : HashOrder UInt64}
      {tuple : NetTuple}
    {bytes : List UInt8} {timestamp : Instant} {output : Output} {before after : List Event}
    (hsplit : trace =
      before ++ .call (.stream order flowId tuple toServer bytes timestamp) output :: after) :
    Runs.Along Engine.step (Engine.KeepsFlow flowId) e ((callsOf before).map Prod.fst ++
      [.stream order flowId tuple toServer bytes timestamp]) := by
  have hcalls : (callsOf trace).map Prod.fst = ((callsOf before).map Prod.fst ++
      [.stream order flowId tuple toServer bytes timestamp]) ++ (callsOf after).map Prod.fst := by
    rw [hsplit, callsOf_append, List.map_append, List.append_assoc]
    rfl
  rw [Runs.along_iff]
  intro earlier call later heq
  have hsub : (callsOf trace).map Prod.fst =
      earlier ++ call :: (later ++ (callsOf after).map Prod.fst) := by
    rw [hcalls, heq, List.append_assoc, List.cons_append]
  refine ⟨hkept _ _ (mem_trace_of_call houtputs hsub), ?_⟩
  intro hends
  have hmem : call ∈ (callsOf before).map Prod.fst ++
      [.stream order flowId tuple toServer bytes timestamp] := by
    rw [heq]
    exact List.mem_append_right _ List.mem_cons_self
  obtain ⟨told, htoldMem, hid⟩ := exists_flowEnd hends hmem
  have hsilent := htold.silent
  rw [hsplit, List.pairwise_append] at hsilent
  exact hsilent.2.2 told htoldMem _ List.mem_cons_self hid rfl

/-- The rule alerts on a direction exactly when what was inspected of it holds the pattern. -/
theorem SinglePattern.alerted_iff (hrule : SinglePattern resolve rules rule c header)
    (hwatched : Watched limits (Engine.new R A resolve limits rules).1.longestPattern
    flowId toServer
      trace)
    (houtputs : (callsOf trace).map Prod.snd = (Runs.run Engine.step
      (Engine.new R A resolve limits rules).1 ((callsOf trace).map Prod.fst)).2)
    (htold : PacketPipeline.Told flowId all trace p)
    (hheader : ∀ first ∈ openersOf flowId all,
      header.matches (first.tupleToward toServer) = true) :
    Alerted rule flowId toServer trace ↔
      Search.Occurs (sameByte c.nocase) c.pattern (inspectedBytes flowId toServer trace) := by
  constructor
  · rintro ⟨order, tuple, bytes, timestamp, output, hmem, halerts⟩
    obtain ⟨before, after, hsplit⟩ := List.append_of_mem hmem
    rw [output_eq houtputs hsplit] at halerts
    have hne : bytes ≠ [] := by
      rintro rfl
      rw [step_stream_nil] at halerts
      exact halerts rfl
    have hbytes : (Event.call (.stream order flowId tuple toServer bytes timestamp)
        output).inspected
        flowId toServer = bytes := if_pos ⟨rfl, rfl⟩
    obtain ⟨first, hfirst, _, _, _, _, heq⟩ := htold.tuple _ hmem toServer (by rwa [hbytes])
    have htuple : tuple = first.tupleToward toServer := by
      injection heq with hcall _
      injection hcall
    have hregion := (hrule.alerts_iff order timestamp (htuple ▸ hheader first hfirst) hne
      (htold.keepsFlow hwatched.kept houtputs hsplit)).1 halerts
    -- the region is a part of what was inspected by then
    obtain ⟨i, hi⟩ := hregion
    rw [expectedScan, ← inspectedBytes_eq] at hi
    refine ⟨_, hi.of_drop.extend ?_⟩
    have hcons : inspectedBytes flowId toServer
        (Event.call (.stream order flowId tuple toServer bytes
        timestamp) output :: after) = bytes ++ inspectedBytes flowId toServer after := by
      rw [inspectedBytes, List.flatMap_cons, hbytes]
      rfl
    rw [hsplit, inspectedBytes_append, hcons, ← List.append_assoc]
    exact List.prefix_append _ _
  · rintro ⟨i, hoccurs⟩
    obtain ⟨before, event, after, hsplit, hne, hcompletes⟩ :=
      exists_completing hrule.plain.pattern hoccurs
    have hevent : event ∈ trace := by
      rw [hsplit]
      exact List.mem_append_right _ List.mem_cons_self
    obtain ⟨first, hfirst, order, bytes, timestamp, output, rfl⟩ :=
      htold.tuple event hevent toServer hne
    have hbytes : (Event.call (.stream order flowId (first.tupleToward toServer) toServer bytes
        timestamp) output).inspected flowId toServer = bytes := if_pos ⟨rfl, rfl⟩
    rw [hbytes] at hne hcompletes
    have hfits := hwatched.fits _ hevent
    rw [hbytes] at hfits
    rw [inspectedBytes_eq] at hcompletes
    refine ⟨order, _, bytes, timestamp, output, hevent, ?_⟩
    rw [output_eq houtputs hsplit]
    exact (hrule.alerts_iff order timestamp (hheader first hfirst) hne
      (htold.keepsFlow hwatched.kept houtputs hsplit)).2
      (occurs_region_of_completes hrule.plain.pattern (hrule.length_le R A limits) hfits hcompletes)

end Trace

/-- Whatever else passes the sensor: of a TCP conversation whose flow is opened once and has an
identifier of its own, the rule alerts on a direction exactly when the bytes that the conversation's
own segments deliver there hold its pattern. No other traffic makes it alert, or keeps it from
alerting, as long as the detection state stays in the table and the deliveries fit the window. -/
theorem alerted_iff_delivered_alone (R : Regex) (A : AhoCorasick) (D : Decoder) (config : Config)
    (resolve : HeaderResolver) (limits : EngineLimits) (rules : List Rule) (rule : Rule)
    (c : ContentMatch) (header : CompiledHeader) (ops : List PipelineOp) (key : FlowKey)
    (flowId : UInt64) (toServer : Bool) (hrule : SinglePattern resolve rules rule c header)
    (htcp : key.protocol = tcpProtocol) :
    let engine := (Engine.new R A resolve limits rules).1
    let p := (PacketPipeline.new R A config).arm engine
    let all := p.attributed D ops
    let trace := (Runs.run (PacketPipeline.step D) p ops).2.flatten
    Sole key flowId all →
    (∀ first ∈ (packetsOf key all).head?, header.matches (first.tupleToward toServer) = true) →
    Watched limits engine.longestPattern flowId toServer trace →
    (Alerted rule flowId toServer trace ↔
      Search.Occurs (sameByte c.nocase) c.pattern (delivered toServer
        (Runs.run StreamPair.step (StreamPair.new config.reassembly)
          (pushesOf (PolicyResolver.ofConfig config.reassembly).forDestination
            (packetsOf key all))).2)) := by
  intro engine p all trace hsole hheader hwatched
  rw [← (PacketPipeline.isolates_run R A D config engine ops htcp hsole).inspected toServer]
  obtain ⟨hone, hopener⟩ := hsole.openers
  exact hrule.alerted_iff hwatched (PacketPipeline.run_drives D p ops engine rfl).2
    (PacketPipeline.told_run R A D config engine ops hone)
    (fun first hfirst => hheader first (hopener first hfirst))

/-- However the segments of a message are ordered, cut and repeated and whatever comes between them:
once a message that holds a rule's pattern has been sent and acknowledged past the pattern, the rule
has alerted. -/
theorem sent_pattern_alerts (R : Regex) (A : AhoCorasick) (D : Decoder) (config : Config)
    (resolve : HeaderResolver) (limits : EngineLimits) (rules : List Rule) (rule : Rule)
    (c : ContentMatch) (header : CompiledHeader) (ops : List PipelineOp) (key : FlowKey)
    (flowId : UInt64) (m : Message) (toServer : Bool) (i k : ℕ)
    (hrule : SinglePattern resolve rules rule c header) (htcp : key.protocol = tcpProtocol) :
    let engine := (Engine.new R A resolve limits rules).1
    let p := (PacketPipeline.new R A config).arm engine
    let all := p.attributed D ops
    let trace := (Runs.run (PacketPipeline.step D) p ops).2.flatten
    Sole key flowId all →
    (∀ first ∈ (packetsOf key all).head?, header.matches (first.tupleToward toServer) = true) →
    Watched limits engine.longestPattern flowId toServer trace →
    SentUpTo config.reassembly (PolicyResolver.ofConfig config.reassembly).forDestination
      (packetsOf key all) m toServer k →
    Search.OccursAt (sameByte c.nocase) c.pattern m.bytes i → i + c.pattern.length ≤ k →
    Alerted rule flowId toServer trace := by
  intro engine p all trace hsole hheader hwatched hsent hoccurs hk
  have hflow : PacketPipeline.Isolates _ _ key flowId all trace _ :=
    PacketPipeline.isolates_run R A D config engine ops htcp hsole
  obtain ⟨hone, hopener⟩ := hsole.openers
  refine (hrule.alerted_iff hwatched (PacketPipeline.run_drives D p ops engine rfl).2
    (PacketPipeline.told_run R A D config engine ops hone)
    (fun first hfirst => hheader first (hopener first hfirst))).2 ⟨i, ?_⟩
  rw [hflow.inspected toServer]
  exact (hoccurs.take hk).extend hsent.delivered.1

open PacketPipeline

deriving instance DecidableEq for Push

def clientPush (toServer : Bool) (sequence acknowledgment : UInt32) (flags : UInt8)
    (payload : List UInt8) : Push :=
  ⟨toServer, ⟨sequence, acknowledgment, flags, payload⟩, .first, .first⟩

def clientSyn : Push := clientPush true 6 0 Flags.syn []

def clientLate : Push := clientPush true 8 0 0 [0x62]

def clientEarly : Push := clientPush true 7 0 0 [0x61]

def serverAck : Push := clientPush false 1 9 Flags.ack []

def clientMessage : Message := ⟨[0x61, 0x62], by decide⟩

/-- The client's streams after the SYN, and with the second segment as well. -/
def clientOpened : StreamPair := ((StreamPair.new smallWindowConfig.reassembly).step clientSyn).1

def clientHalf : StreamPair := (clientOpened.step clientLate).1

theorem clientLate_carries :
    Carries clientMessage.bytes 6 (clientOpened.side true).buffer clientLate.segment 1 2 := by
  have hbuffer : (clientOpened.side true).buffer = ⟨0, [], [], 8, 256⟩ := by decide +kernel
  rw [hbuffer]
  exact .of_covered separated_nil (by decide) (by decide)

theorem clientEarly_carries :
    Carries clientMessage.bytes 6 (clientHalf.side true).buffer clientEarly.segment 0 1 := by
  have hbuffer : (clientHalf.side true).buffer = ⟨0, [0, 0x62], [⟨1, 2⟩], 8, 256⟩ := by
    decide +kernel
  rw [hbuffer]
  exact .of_covered (separated_cons.2 ⟨by decide, by simp, separated_nil⟩) (by decide) (by decide)

theorem clientMessage_sends : Sends smallWindowConfig.reassembly clientMessage true [] clientSyn
    [clientLate, clientEarly, serverAck] :=
  ⟨by simp, rfl, by decide,
    ⟨fun _ => ⟨by decide, fun h => absurd rfl h⟩, startsInWindow_of_lt (by decide +kernel)⟩,
    ⟨fun _ => ⟨by decide, fun _ => ⟨1, 2, clientLate_carries⟩⟩,
      startsInWindow_of_lt (by decide +kernel)⟩,
    ⟨fun _ => ⟨by decide, fun _ => ⟨0, 1, clientEarly_carries⟩⟩,
      startsInWindow_of_lt (by decide +kernel)⟩,
    ⟨fun h => absurd h (by decide), startsInWindow_of_lt (by decide +kernel)⟩, trivial⟩

/-- The message `ab` is sent in two segments, the second one first, and acknowledged. -/
theorem twoClients_sentUpTo :
    SentUpTo smallWindowConfig.reassembly
      (PolicyResolver.ofConfig smallWindowConfig.reassembly).forDestination
      (packetsOf (FlowKey.new 6 ⟨.v4 0xc0000201, 51000⟩ ⟨.v4 0xc6336401, 80⟩)
        (((PacketPipeline.new Regex.none AhoCorasick.exhaustive smallWindowConfig).arm
          (sampleEngine {} [abRule])).attributed plainDecoder twoClients)) clientMessage
          true 2 := by
  refine ⟨[], clientSyn, [clientLate, clientEarly, serverAck], by
    decide +kernel, clientMessage_sends,
    ?_, [clientLate, clientEarly], serverAck, [], rfl, by
      decide, by decide, by decide, by decide +kernel,
    by decide +kernel⟩
  intro x hx
  by_cases hfirst : x < 1
  · exact ⟨[clientSyn, clientLate], clientEarly, [serverAck], rfl, rfl, 0, 1, clientEarly_carries,
      by omega, by omega⟩
  · exact ⟨[clientSyn], clientLate, [clientEarly, serverAck], rfl, rfl, 1, 2, clientLate_carries,
      by omega, hx⟩

def twoClientsTrace : List Event :=
  (Runs.run (PacketPipeline.step plainDecoder)
    ((PacketPipeline.new Regex.none AhoCorasick.exhaustive smallWindowConfig).arm
      (sampleEngine {} [abRule])) twoClients).2.flatten

theorem twoClients_watched (flowId : UInt64)
    (hcalls : ∀ pair ∈ callsOf twoClientsTrace, flowId ∉ pair.2.evicted)
    (hfits : ∀ event ∈ twoClientsTrace, (event.inspected flowId true).length + 1 ≤ 64 * 2 ^ 10) :
    Watched {} 2 flowId true twoClientsTrace :=
  ⟨fun call output hmem => hcalls (call, output) (List.mem_filterMap.2 ⟨_, hmem, rfl⟩), hfits⟩

/-- Nothing of the second client's is delivered, and the first client's pattern does not count for
it. -/
theorem alerted_iff_delivered_alone_second_client : ¬ Alerted abRule (deriveFlowId
    (FlowKey.new 6 ⟨.v4 0xc0000201, 51001⟩ ⟨.v4 0xc6336401, 80⟩) 2) true twoClientsTrace := by
  have halone := alerted_iff_delivered_alone Regex.none AhoCorasick.exhaustive plainDecoder
    smallWindowConfig resolveAny {} [abRule] abRule abContent _ twoClients
    (FlowKey.new 6 ⟨.v4 0xc0000201, 51001⟩ ⟨.v4 0xc6336401, 80⟩)
    (deriveFlowId (FlowKey.new 6 ⟨.v4 0xc0000201, 51001⟩ ⟨.v4 0xc6336401, 80⟩) 2) true
    ⟨List.nodup_singleton _, List.mem_cons_self, rfl, rfl, rfl,
      ⟨by decide, rfl, rfl, rfl, rfl, rfl, rfl⟩, rfl, rfl⟩ (by decide)
    ⟨by decide +kernel, by decide +kernel⟩ (by decide +kernel)
    (twoClients_watched _ (by decide +kernel) (by decide +kernel))
  intro halerted
  have hoccurs := halone.1 halerted
  rw [show delivered true _ = [] by decide +kernel] at hoccurs
  exact Search.not_occurs_nil (by decide) hoccurs

theorem sent_pattern_alerts_two_clients : Alerted abRule sampleFlowId true twoClientsTrace := by
  refine sent_pattern_alerts Regex.none AhoCorasick.exhaustive plainDecoder
    smallWindowConfig resolveAny
    {} [abRule] abRule abContent _ twoClients
    (FlowKey.new 6 ⟨.v4 0xc0000201, 51000⟩ ⟨.v4 0xc6336401, 80⟩) sampleFlowId clientMessage true 0 2
    ⟨List.nodup_singleton _, List.mem_cons_self, rfl, rfl, rfl,
      ⟨by decide, rfl, rfl, rfl, rfl, rfl, rfl⟩, rfl, rfl⟩ (by decide)
    ⟨by decide +kernel, by decide +kernel⟩ (by decide +kernel) ?_ twoClients_sentUpTo ?_ (by decide)
  · exact twoClients_watched _ (by decide +kernel) (by decide +kernel)
  · exact (Search.all_zip_slice_iff (by decide)).1 (by decide)

end CyberSentinel
