import CyberSentinel.RespelledRequests
import CyberSentinel.SentPatterns

/-!
# From the client's request to the alert

A client sends requests over TCP, in segments that arrive in any order, overlap and repeat, among
any other traffic. Once the server has acknowledged them, the conversation's flow has raised the
alert of a rule about requests once for each request that the rule matches, in the order of the
requests. Which requests these are is read off the plain requests, however the client has spelled
them.
-/

namespace CyberSentinel

open Spans Tables Detect Rules

variable {R : Regex} {A : AhoCorasick}

/-- The alerts that carry the signature id among those that a trace shows for a flow. -/
def alertsIn (sid : UInt32) (flowId : UInt64) (trace : List Event) : List AlertRecord :=
  (callsOf trace).flatMap fun p =>
    if p.1.inspects = some flowId then alertsFor sid p.2.alerts else []

theorem flowAlerts_eq_alertsIn (sid : UInt32) (flowId : UInt64) (trace : List Event) :
    flowAlerts sid flowId ((callsOf trace).map Prod.fst) ((callsOf trace).map Prod.snd) =
      alertsIn sid flowId trace := by
  have hzip : ((callsOf trace).map Prod.fst).zip ((callsOf trace).map Prod.snd) =
      callsOf trace := by
    rw [List.zip_map']
    exact List.map_id _
  rw [flowAlerts, hzip, alertsIn]

theorem exists_event_of_calls {trace : List Event} {before after : List Call} {call : Call}
    (h : (callsOf trace).map Prod.fst = before ++ call :: after) :
    ∃ earlier output later, trace = earlier ++ .call call output :: later ∧
      (callsOf earlier).map Prod.fst = before := by
  induction trace generalizing before with
  | nil => exact absurd h (by simp [callsOf])
  | cons event rest ih =>
    cases hcall : event.call? with
    | none =>
      have hrest : callsOf (event :: rest) = callsOf rest := List.filterMap_cons_none hcall
      rw [hrest] at h
      obtain ⟨earlier, output, later, rfl, hbefore⟩ := ih h
      refine ⟨event :: earlier, output, later, rfl, ?_⟩
      rw [← hbefore]
      exact congrArg (List.map Prod.fst) (List.filterMap_cons_none hcall)
    | some pair =>
      have hrest : callsOf (event :: rest) = pair :: callsOf rest := List.filterMap_cons_some hcall
      have hevent : event = .call pair.1 pair.2 := by
        cases event with
        | delivered id ready => exact absurd hcall (by simp [Event.call?])
        | ended e => exact absurd hcall (by simp [Event.call?])
        | call engineCall output =>
          obtain rfl := Option.some.inj hcall
          rfl
      rw [hrest, List.map_cons] at h
      cases before with
      | nil =>
        obtain ⟨hfirst, -⟩ := List.cons.inj h
        exact ⟨[], pair.2, rest, by rw [hevent, hfirst]; rfl, rfl⟩
      | cons first others =>
        obtain ⟨hfirst, hothers⟩ := List.cons.inj h
        obtain ⟨earlier, output, later, rfl, hbefore⟩ := ih hothers
        refine ⟨event :: earlier, output, later, rfl, ?_⟩
        have hmore : callsOf (event :: earlier) = pair :: callsOf earlier :=
          List.filterMap_cons_some hcall
        rw [hmore, List.map_cons, hfirst, hbefore]

section Trace

variable {flowId : UInt64} {all : List Attribution} {trace : List Event} {p : PacketPipeline R A}
  {e : Engine R A}

/-- While the client's bytes are handed over, the engine has not been told of the flow's end. -/
theorem PacketPipeline.Told.keptWhileRead (htold : PacketPipeline.Told flowId all trace p)
    (hkept : ∀ call output, Event.call call output ∈ trace → flowId ∉ output.evicted)
    (houtputs : (callsOf trace).map Prod.snd =
      (Runs.run Engine.step e ((callsOf trace).map Prod.fst)).2) :
    KeptWhileRead flowId e ((callsOf trace).map Prod.fst) := by
  intro before call after hsplit hread
  obtain ⟨earlier, output, later, htrace, hbefore⟩ := exists_event_of_calls hsplit
  cases call with
  | packet order g t d payload timestamp => exact absurd rfl hread
  | stream order g t d bytes timestamp =>
    obtain ⟨rfl, rfl⟩ : flowId = g ∧ true = d := by
      by_contra hother
      exact hread (if_neg hother)
    rw [← hbefore]
    exact htold.keepsFlow hkept houtputs htrace
  | flowEnd g => exact absurd rfl hread

/-- The client's bytes are handed over with the tuple of the conversation. -/
theorem PacketPipeline.Told.between (htold : PacketPipeline.Told flowId all trace p)
    {tuple : NetTuple}
    (htuple : ∀ first ∈ openersOf flowId all, first.tupleToward true = tuple) :
    ∀ call ∈ (callsOf trace).map Prod.fst, call.Between flowId tuple := by
  intro call hcall
  cases call with
  | packet order g t d payload timestamp => exact trivial
  | stream order g t d bytes timestamp =>
    rintro rfl rfl hne
    obtain ⟨before, after, hsplit⟩ := List.append_of_mem hcall
    obtain ⟨earlier, output, later, rfl, -⟩ := exists_event_of_calls hsplit
    have hbytes : (Event.call (.stream order g t true bytes timestamp) output).inspected g true =
        bytes :=
      if_pos ⟨rfl, rfl⟩
    obtain ⟨first, hfirst, _, _, _, _, heq⟩ := htold.tuple _
      (List.mem_append_right _ List.mem_cons_self) true (by rwa [hbytes])
    injection heq with hsame _
    injection hsame with _ _ hto
    rw [hto, htuple first hfirst]
  | flowEnd g => exact trivial

end Trace

/-- Of a conversation opened once, with an identifier of its own: when the client's requests have
been sent, in whatever segments, and acknowledged, the flow has raised the rule's alert once for
each request that the rule matches. The alerts are those for the plain requests, however the client
has spelled them. -/
theorem sent_requests_alert (R : Regex) (A : AhoCorasick) (D : Decoder) (config : Config)
    (resolve : HeaderResolver) (limits : EngineLimits) (hrounds : limits.normalize.decodeRounds = 2)
    (hcollapse : limits.normalize.collapsePath = true)
    (hbackslash : limits.normalize.backslashIsSeparator = false) (rules : List Rule)
    (hsids : (rules.map Rule.sid).Nodup) (rule : Rule) (hmem : rule ∈ rules)
    (entry : CompiledRule R)
    (harmed : armed R resolve limits.compile rule = some entry) (hthreshold : rule.threshold = none)
    (hnoAlert : rule.noAlert = false) (habout : AboutRequests rule) (ops : List PipelineOp)
    (key : FlowKey) (flowId : UInt64) (tuple : NetTuple) (m : Message) (requests : List RequestText)
    (htcp : key.protocol = tcpProtocol) :
    let engine := (Engine.new R A resolve limits rules).1
    let p := (PacketPipeline.new R A config).arm engine
    let all := p.attributed D ops
    let trace := (Runs.run (PacketPipeline.step D) p ops).2.flatten
    let alertsOn (requests : List RequestText) :=
      (Engine.matchedRequests entry tuple (requests.map fun r => r.request limits.normalize)).map
        fun _ => entry.record
    Sole key flowId all →
    (∀ first ∈ (packetsOf key all).head?, first.tupleToward true = tuple) →
    (∀ call output, Event.call call output ∈ trace → flowId ∉ output.evicted) →
    SentUpTo config.reassembly (PolicyResolver.ofConfig config.reassembly).forDestination
      (packetsOf key all) m true m.bytes.length →
    SendsRequests limits.maxHttpHead requests m.bytes →
    alertsIn rule.sid flowId trace = alertsOn requests ∧
      ∀ plain, List.Forall₂ Respelled plain requests →
        alertsIn rule.sid flowId trace = alertsOn plain := by
  intro engine p all trace alertsOn hsole htuple hkept hsent hsends
  have hloud := loud_of_armed harmed hnoAlert hthreshold
  have houtputs := (PacketPipeline.run_drives D p ops engine rfl).2
  obtain ⟨hone, hopener⟩ := hsole.openers
  have htold : PacketPipeline.Told flowId all trace _ :=
    PacketPipeline.told_run R A D config engine ops hone
  have hflow : PacketPipeline.Isolates _ _ key flowId all trace _ :=
    PacketPipeline.isolates_run R A D config engine ops htcp hsole
  -- the whole message has been delivered, and nothing else
  have hstream : (deliveries flowId true ((callsOf trace).map Prod.fst)).flatten = m.bytes := by
    obtain ⟨hlow, hhigh⟩ := hsent.delivered
    rw [List.take_length] at hlow
    rw [← inspectedBytes_eq, hflow.inspected true]
    exact hhigh.eq_of_length_le hlow.length_le
  have hcarries : CarriesRequests engine flowId tuple requests ((callsOf trace).map Prod.fst) :=
    ⟨htold.between fun first hfirst => htuple first (hopener first hfirst),
      by rw [hstream]; exact hsends, htold.keptWhileRead hkept houtputs⟩
  have halerts : alertsIn rule.sid flowId trace = alertsOn requests := by
    rw [← flowAlerts_eq_alertsIn, houtputs]
    exact hcarries.flowAlerts_eq hsids hmem harmed hloud habout
  refine ⟨halerts, fun plain hplain => halerts.trans ?_⟩
  exact habout.map_matchedRequests harmed tuple
    (map_unspelled_request hrounds hcollapse hbackslash hplain)

open PacketPipeline

def requestMessage : Message := ⟨spelledPath.bytes, by decide⟩

def requestConfig : Config := { smallWindowConfig with reassembly := {} }

def requestLate : Push := clientPush true 16 0 0 (spelledPath.bytes.drop 9)

def requestEarly : Push := clientPush true 7 0 0 (spelledPath.bytes.take 9)

def requestAck : Push := clientPush false 1 40 Flags.ack []

/-- The client's streams after the SYN, and with the second segment as well. -/
def requestOpened : StreamPair := ((StreamPair.new requestConfig.reassembly).step clientSyn).1

def requestHalf : StreamPair := (requestOpened.step requestLate).1

theorem requestLate_carries :
    Carries requestMessage.bytes 6 (requestOpened.side true).buffer requestLate.segment 9 33 := by
  have hbuffer : (requestOpened.side true).buffer = ⟨0, [], [], 2 ^ 20, 256⟩ := by decide +kernel
  rw [hbuffer]
  exact .of_covered separated_nil (by decide) (by decide)

theorem requestEarly_carries :
    Carries requestMessage.bytes 6 (requestHalf.side true).buffer requestEarly.segment 0 9 := by
  have hbuffer : (requestHalf.side true).buffer =
      ⟨0, List.replicate 9 0 ++ spelledPath.bytes.drop 9, [⟨9, 33⟩], 2 ^ 20, 256⟩ := by
        decide +kernel
  rw [hbuffer]
  exact .of_covered (separated_cons.2 ⟨by decide, by simp, separated_nil⟩) (by decide) (by decide)

theorem requestMessage_sends : Sends requestConfig.reassembly requestMessage true [] clientSyn
    [requestLate, requestEarly, requestAck] :=
  ⟨by simp, rfl, by decide,
    ⟨fun _ => ⟨by decide, fun h => absurd rfl h⟩, startsInWindow_of_lt (by decide +kernel)⟩,
    ⟨fun _ => ⟨by decide, fun _ => ⟨9, 33, requestLate_carries⟩⟩,
      startsInWindow_of_lt (by decide +kernel)⟩,
    ⟨fun _ => ⟨by decide, fun _ => ⟨0, 9, requestEarly_carries⟩⟩,
      startsInWindow_of_lt (by decide +kernel)⟩,
    ⟨fun h => absurd h (by decide), startsInWindow_of_lt (by decide +kernel)⟩, trivial⟩

/-- The request in two segments, the second one first, with a segment of another client between
them, and then its acknowledgment. -/
def requestOps : List PipelineOp :=
  [frameOp 0 (segmentFrame true 51000 6 0 Flags.syn []),
    frameOp 1 (segmentFrame true 51000 16 0 0 (spelledPath.bytes.drop 9)),
    frameOp 2 (segmentFrame true 51001 7 0 0 [0x78]),
    frameOp 3 (segmentFrame true 51000 7 0 0 (spelledPath.bytes.take 9)),
    frameOp 4 (segmentFrame false 51000 1 40 Flags.ack [])]

def requestPipeline : PacketPipeline Regex.none AhoCorasick.exhaustive :=
  (PacketPipeline.new Regex.none AhoCorasick.exhaustive requestConfig).arm
    (sampleEngine {} [pathRule])

theorem requestOps_sentUpTo :
    SentUpTo requestConfig.reassembly
      (PolicyResolver.ofConfig requestConfig.reassembly).forDestination
      (packetsOf (FlowKey.new 6 ⟨.v4 0xc0000201, 51000⟩ ⟨.v4 0xc6336401, 80⟩)
        (requestPipeline.attributed plainDecoder requestOps)) requestMessage true 33 := by
  refine ⟨[], clientSyn, [requestLate, requestEarly, requestAck], by decide +kernel,
    requestMessage_sends, ?_, [requestLate, requestEarly], requestAck, [], rfl, by
      decide, by decide,
    by decide, by decide +kernel, by decide +kernel⟩
  intro x hx
  by_cases hfirst : x < 9
  · exact ⟨[clientSyn, requestLate], requestEarly, [requestAck], rfl, rfl, 0, 9,
      requestEarly_carries,
      by omega, hfirst⟩
  · exact ⟨[clientSyn], requestLate, [requestEarly, requestAck], rfl, rfl, 9, 33,
      requestLate_carries,
      by omega, hx⟩

/-- The request for `/a/b` is spelled `/x/.%2e/%2561//b`, sent in two segments and acknowledged. It
raises the one alert that the plain request for `/a/b` stands for. -/
theorem sent_requests_alert_sample :
    (alertsIn pathRule.sid sampleFlowId
      (Runs.run (PacketPipeline.step plainDecoder) requestPipeline requestOps).2.flatten).length =
      1 := by
  have hcalls : ∀ pair ∈ callsOf (Runs.run (PacketPipeline.step plainDecoder) requestPipeline
      requestOps).2.flatten, sampleFlowId ∉ pair.2.evicted := by decide +kernel
  have halerts := sent_requests_alert Regex.none AhoCorasick.exhaustive plainDecoder requestConfig
    resolveAny {} rfl rfl rfl [pathRule]
    (List.nodup_singleton _) pathRule List.mem_cons_self _ rfl rfl
    rfl aboutRequests_pathRule requestOps
    (FlowKey.new 6 ⟨.v4 0xc0000201, 51000⟩ ⟨.v4 0xc6336401, 80⟩) sampleFlowId
    ⟨.v4 0xc0000201, some 51000, .v4 0xc6336401, some 80, .tcp⟩ requestMessage [spelledPath]
      (by decide)
    ⟨by decide +kernel, by decide +kernel⟩ (by decide +kernel)
    (fun call output hmem => hcalls (call, output) (List.mem_filterMap.2 ⟨_, hmem, rfl⟩))
    requestOps_sentUpTo
    ⟨List.forall_mem_singleton.2 wellFormed_spelledPath, List.forall_mem_singleton.2 (by decide),
      (List.append_nil _).symm⟩
  refine (congrArg List.length (halerts.2 [plainPath] (.cons respelled_samples .nil))).trans ?_
  rw [List.length_map]
  decide +kernel

end CyberSentinel
