import CyberSentinel.Cuts
import CyberSentinel.FlowEffects
import CyberSentinel.HttpRequests
import CyberSentinel.PathSpelling
import CyberSentinel.SpanningRules

/-!
# Requests that are written differently

A rule that asks for something in a request is silent on payloads, so in any traffic a flow raises
its alert once for each request it completes that the rule matches. The rule reads the path as it is
normalized. A client that escapes bytes of the path, sends it on detours, pads the headers, ends the
lines otherwise or cuts the stream elsewhere raises the alerts that the plain request raises.
-/

namespace CyberSentinel.Detect

open Rules Tables

variable {R : Regex} {A : AhoCorasick}

/-- The rule asks for a content of a request, and neither for a bit of the flow nor for the way in
which the request was written. -/
structure AboutRequests (rule : Rule) : Prop where
  content : ∃ c, RuleOption.content c ∈ rule.options ∧ c.buffer ≠ .payload ∧ c.negated = false
  unflagged : ∀ condition, RuleOption.normalized condition ∉ rule.options
  flowbit : ∀ option ∈ rule.options, optionFlowbit option = none

theorem mem_of_mem_compileOptions {limits : CompileLimits} {options : List RuleOption}
    {compiled : List (CompiledOption R)} (h : compileOptions R limits options = .ok compiled)
    {condition : NormalizationCondition} (hmem : CompiledOption.normalized condition ∈ compiled) :
    RuleOption.normalized condition ∈ options := by
  induction options generalizing compiled with
  | nil =>
    rw [← Except.ok.inj h] at hmem
    exact absurd hmem List.not_mem_nil
  | cons option rest ih =>
    obtain ⟨first, others, hfirst, hrest, rfl⟩ := compileOptions_cons h
    rcases List.mem_cons.1 hmem with rfl | hmem
    · cases option with
      | normalized other =>
        obtain rfl := CompiledOption.normalized.inj (Except.ok.inj hfirst)
        exact List.mem_cons_self
      | pcre p =>
        rw [compileOption] at hfirst
        split at hfirst
        · exact absurd (Except.ok.inj hfirst) (by simp)
        · exact absurd hfirst (by simp)
      | host host => exact absurd hfirst (by simp [compileOption])
      | _ => exact absurd (Except.ok.inj hfirst) (by simp)
    · exact List.mem_cons_of_mem _ (ih hrest hmem)

/-- A rule that asks for something of a host is not compiled into the network's rules. -/
theorem not_hostRule_of_armed {resolve : HeaderResolver} {limits : CompileLimits} {rule : Rule}
    {entry : CompiledRule R} (harmed : armed R resolve limits rule = some entry) :
    rule.isHostRuleByOptions = false := by
  obtain ⟨-, -, -, -, hcompiled⟩ := armed_spec harmed
  rw [Rule.isHostRuleByOptions]
  generalize entry.options = compiled at hcompiled
  generalize rule.options = options at hcompiled
  induction options generalizing compiled with
  | nil => rfl
  | cons option rest ih =>
    obtain ⟨first, others, hfirst, hrest, -⟩ := compileOptions_cons hcompiled
    rw [List.any_cons, ih others hrest, Bool.or_false]
    cases option with
    | host host => exact absurd hfirst (by simp [compileOption])
    | _ => rfl

theorem armed_needsHttp {resolve : HeaderResolver} {limits : CompileLimits} {rule : Rule}
    {entry : CompiledRule R} (harmed : armed R resolve limits rule = some entry) :
    entry.needsHttp = rule.needsHttp := by
  unfold armed at harmed
  split at harmed
  · next found hfound =>
    obtain rfl := Option.some.inj harmed
    unfold compileRule at hfound
    split_ifs at hfound
    split at hfound
    · exact absurd hfound (by simp)
    · split at hfound
      · exact absurd hfound (by simp)
      · rw [← Except.ok.inj hfound]
  · exact absurd harmed (by simp)

namespace AboutRequests

variable {resolve : HeaderResolver} {limits : CompileLimits} {rule : Rule} {entry : CompiledRule R}

theorem evaluate_bits (h : AboutRequests rule) (harmed : armed R resolve limits rule = some entry)
    (input : MatchInput) (bits : FlowBits) :
    evaluate entry input bits = evaluate entry input {} := by
  obtain ⟨-, -, -, -, hcompiled⟩ := armed_spec harmed
  have hnames : entry.flowbitNames = [] := by
    rw [CompiledRule.flowbitNames, compileOptions_flowbits hcompiled, List.filterMap_eq_nil_iff]
    exact h.flowbit
  apply evaluate_congr_bits
  rw [hnames]
  exact fun name hname => absurd hname List.not_mem_nil

theorem evaluate_payload (h : AboutRequests rule)
    (harmed : armed R resolve limits rule = some entry)
    (tuple : NetTuple) (established toServer : Bool) (bytes : List UInt8) (bits : FlowBits) :
    evaluate entry ⟨tuple, established, toServer, { payload := bytes }⟩ bits = none := by
  obtain ⟨-, -, -, -, hcompiled⟩ := armed_spec harmed
  obtain ⟨c, hc, hbuffer, hpositive⟩ := h.content
  rw [← Option.not_isSome_iff_eq_none]
  intro hmatched
  obtain ⟨haystack, hget, -⟩ :=
    occurs_of_evaluate hmatched (mem_compileOptions hcompiled hc) hpositive
  exact hbuffer (get_payload_buffers hget)

theorem needsHttp (h : AboutRequests rule) (harmed : armed R resolve limits rule = some entry) :
    entry.needsHttp = true := by
  obtain ⟨c, hc, hbuffer, -⟩ := h.content
  have hneeds : rule.needsHttp = true := by
    have hmem : c.buffer ∈ rule.buffers :=
      (Search.mem_sortDedup _ _).2 (List.mem_filterMap.2 ⟨.content c, hc, rfl⟩)
    have hany : rule.buffers.any Buffer.isHttp = true :=
      List.any_eq_true.2 ⟨c.buffer, hmem, bne_iff_ne.2 hbuffer⟩
    rw [Rule.needsHttp, hany, Bool.or_true]
  rw [armed_needsHttp harmed, hneeds]

theorem ruleset_needsHttp (h : AboutRequests rule)
    (harmed : armed R resolve limits rule = some entry)
    {s : CompiledRuleset R A} (hmem : entry ∈ s.rules) : s.needsHttp = true := by
  rw [CompiledRuleset.needsHttp, List.any_eq_true.2 ⟨entry, hmem, h.needsHttp harmed⟩, Bool.or_true]

end AboutRequests

/-- A request without what a rule about requests leaves out: the target as it was written, the
version, and how the path was spelled. -/
def unspelled (request : HttpRequest) : HttpRequest :=
  { request with rawUri := [], version := [], normalization := {} }

theorem get_unflagged (b : Buffers) (flags : NormalizationFlags) (buffer : Buffer) :
    ({ b with normalization := flags } : Buffers).get buffer = b.get buffer := by
  cases buffer <;> rfl

theorem evalOption_unflagged (input : MatchInput) (flags : NormalizationFlags) (bits : FlowBits)
    (p : Progress) {option : CompiledOption R} (h : ∀ condition, option ≠ .normalized condition) :
    evalOption { input with buffers := { input.buffers with normalization := flags } }
      bits p option =
      evalOption input bits p option := by
  cases option with
  | normalized condition => exact absurd rfl (h condition)
  | flowBits op => cases op <;> rfl
  | flow flow => rfl
  | _ => simp only [evalOption, get_unflagged]

theorem AboutRequests.evaluate_unspelled {resolve : HeaderResolver} {limits : CompileLimits}
    {rule : Rule}
    {entry : CompiledRule R} (h : AboutRequests rule)
    (harmed : armed R resolve limits rule = some entry)
    (tuple : NetTuple) (request : HttpRequest) (bits : FlowBits) :
    evaluate entry ⟨tuple, true, true, Engine.requestBuffers (unspelled request)⟩ bits =
      evaluate entry ⟨tuple, true, true, Engine.requestBuffers request⟩ bits := by
  obtain ⟨-, -, -, -, hcompiled⟩ := armed_spec harmed
  have hfold (options : List (CompiledOption R)) (hsub : ∀ o ∈ options, o ∈ entry.options)
      (p : Progress) :
      options.foldlM (evalOption
        ⟨tuple, true, true, Engine.requestBuffers (unspelled request)⟩ bits) p =
        options.foldlM (evalOption ⟨tuple, true, true, Engine.requestBuffers request⟩ bits) p := by
    induction options generalizing p with
    | nil => rfl
    | cons option rest ih =>
      have hreads : ∀ condition, option ≠ .normalized condition := by
        rintro condition rfl
        exact h.unflagged condition
          (mem_of_mem_compileOptions hcompiled (hsub _ List.mem_cons_self))
      have hoption := evalOption_unflagged
        ⟨tuple, true, true, Engine.requestBuffers request⟩ {} bits p
        hreads
      rw [List.foldlM_cons, List.foldlM_cons]
      exact (congrArg (· >>= _) hoption).trans
        (bind_congr fun next => ih (fun o ho => hsub o (List.mem_cons_of_mem _ ho)) next)
  unfold evaluate
  rw [hfold entry.options (fun _ ho => ho)]

/-- The alerts that a rule about requests raises for them do not depend on how they were written. -/
theorem AboutRequests.map_matchedRequests {resolve : HeaderResolver} {limits : CompileLimits}
    {rule : Rule} {entry : CompiledRule R} (h : AboutRequests rule)
    (harmed : armed R resolve limits rule = some entry) (tuple : NetTuple)
    {requests requests' : List HttpRequest}
    (hsame : requests'.map unspelled = requests.map unspelled) :
    (Engine.matchedRequests entry tuple requests').map (fun _ => entry.record) =
      (Engine.matchedRequests entry tuple requests).map (fun _ => entry.record) := by
  have hmap (requests : List HttpRequest) :
      (Engine.matchedRequests entry tuple requests).map (fun _ => entry.record) =
        (Engine.matchedRequests entry tuple (requests.map unspelled)).map (fun _ =>
        entry.record) := by
    have hmatched : Engine.matchedRequests entry tuple (requests.map unspelled) =
        (Engine.matchedRequests entry tuple requests).map unspelled := by
      rw [Engine.matchedRequests, List.filter_map]
      simp only [Function.comp_def, h.evaluate_unspelled harmed, Engine.matchedRequests]
    rw [hmatched, List.map_map]
    rfl
  rw [hmap requests', hsame, ← hmap requests]

/-- The alerts that carry the signature id among those of the flow's inspections. -/
def flowAlerts (sid : UInt32) (flowId : UInt64) (calls : List Call) (outputs : List Output) :
    List AlertRecord :=
  (calls.zip outputs).flatMap fun p =>
    if p.1.inspects = some flowId then alertsFor sid p.2.alerts else []

def Call.Between (flowId : UInt64) (tuple : NetTuple) : Call → Prop
  | .stream _ g t d bytes _ => g = flowId → d = true → bytes ≠ [] → t = tuple
  | _ => True

/-- The engine keeps the flow's state for as long as bytes of its client are delivered. -/
def KeptWhileRead (flowId : UInt64) (e : Engine R A) (calls : List Call) : Prop :=
  ∀ before call after, calls = before ++ call :: after → call.delivery flowId true ≠ [] →
    Runs.Along Engine.step (Engine.KeepsFlow flowId) e (before ++ [call])

theorem keptWhileRead_of_along {flowId : UInt64} {e : Engine R A} {calls : List Call}
    (h : Runs.Along Engine.step (Engine.KeepsFlow flowId) e calls) :
    KeptWhileRead flowId e calls := by
  rintro before call after rfl -
  rw [List.append_cons, Runs.along_append] at h
  exact h.1

theorem KeptWhileRead.tail {flowId : UInt64} {e : Engine R A} {call : Call} {rest : List Call}
    (h : KeptWhileRead flowId e (call :: rest)) : KeptWhileRead flowId (e.step call).1 rest := by
  intro before next after hsplit hread
  exact (h (call :: before) next after (by rw [hsplit]; rfl) hread).2

theorem KeptWhileRead.head {flowId : UInt64} {e : Engine R A} {call : Call} {rest : List Call}
    (h : KeptWhileRead flowId e (call :: rest)) {next : Call} (hmem : next ∈ call :: rest)
    (hread : next.delivery flowId true ≠ []) : e.KeepsFlow flowId call := by
  obtain ⟨before, after, hsplit⟩ := List.append_of_mem hmem
  have halong := h before next after hsplit hread
  cases before with
  | nil =>
    obtain ⟨rfl, -⟩ := List.cons.inj hsplit
    exact halong.1
  | cons first others =>
    obtain ⟨rfl, -⟩ := List.cons.inj hsplit
    exact halong.1

namespace Engine

/-- The parser of a flow reads what the client sends, and nothing else. -/
theorem step_parserOf {e : Engine R A} (hneeds : e.ruleset.needsHttp = true) {call : Call}
    {flowId : UInt64} (hkept : e.KeepsFlow flowId call) :
    (e.step call).1.parserOf flowId =
      if call.delivery flowId true = [] then e.parserOf flowId
      else ((e.parserOf flowId).push (call.delivery flowId true) e.limits.normalize).1 := by
  have hlimits := limits_of_params (step_params e call)
  obtain ⟨hevicted, hends⟩ := hkept
  cases call with
  | packet order g tuple d payload timestamp =>
    have hcontext : (e.step (.packet order g tuple d payload timestamp)).1.contextOf flowId =
        e.contextOf flowId :=
          inspectBuffers_contextOf e order g tuple d false _ _ timestamp hevicted
    simp only [parserOf, hcontext, hlimits, Call.delivery, if_true]
  | stream order g tuple d delivered timestamp =>
    by_cases hne : delivered = []
    · subst hne
      have hstep : (e.step (.stream order g tuple d [] timestamp)).1 = e := by
        simp [step, inspectStream]
      rw [hstep, if_pos (by simp [Call.delivery])]
    have hcontext : (e.step (.stream order g tuple d delivered timestamp)).1.contextOf flowId = _ :=
      inspectStream_contextOf e order g tuple d delivered timestamp hne hevicted
    rw [parserOf, hcontext, hlimits]
    by_cases hflow : flowId = g
    · cases d with
      | true =>
        simp only [Call.delivery, hflow, hneeds, hne, Bool.and_self, and_self, if_true, if_false,
          Option.getD_some]
      | false =>
        simp only [Call.delivery, hflow, hneeds, Bool.false_and, Bool.false_eq_true,
          if_true, if_false]
        rfl
    · simp only [Call.delivery, hflow, false_and, if_true, if_false, parserOf]
  | flowEnd g =>
    have hflow : flowId ≠ g := fun heq => hends heq.symm
    simp only [step, Call.delivery, if_true, parserOf, contextOf, stateOf, onFlowEnd]
    rw [AList.lookup_erase_ne hflow]

section Alerts

variable {resolve : HeaderResolver} {limits : CompileLimits} {rules : List Rule} {rule : Rule}
  {entry : CompiledRule R} {flowId : UInt64} {tuple : NetTuple}

/-- A call that delivers nothing of the client raises no alert of a rule about requests. -/
theorem step_alertsFor_nil {e : Engine R A} (he : e.Armed resolve limits rules)
    (hsids : (rules.map Rule.sid).Nodup) (habout : AboutRequests rule)
    (harmed : armed R resolve limits rule = some entry) (hmem : entry ∈ e.ruleset.rules)
    (hloud : Loud entry) {call : Call} (hnone : call.delivery flowId true = []) :
    (if call.inspects = some flowId then alertsFor entry.sid (e.step call).2.alerts else []) =
    [] := by
  have hpayload (e : Engine R A) (he : e.Armed resolve limits rules)
      (hmem : entry ∈ e.ruleset.rules)
      (order : HashOrder UInt64) (g : UInt64) (t : NetTuple) (d established : Bool)
      (bytes : List UInt8) (timestamp : Instant) : alertsFor entry.sid
        (e.inspectBuffers order g t d established { payload := bytes }
        [.payload] timestamp).2.alerts =
          [] := by
    refine (inspectBuffers_alertsFor e he hsids hmem hloud (habout.evaluate_bits harmed) order g t d
      established (.payload bytes) timestamp).trans (if_neg ?_)
    rw [Inspected.buffers, habout.evaluate_payload harmed]
    exact Bool.false_ne_true
  cases call with
  | packet order g t d payload timestamp =>
    rw [step, inspectPacket, hpayload e he hmem, ite_self]
  | stream order g t d delivered timestamp =>
    by_cases hflow : g = flowId
    · subst hflow
      by_cases hne : delivered = []
      · simp [step, inspectStream, hne, alertsFor]
      have hclient : ¬ (d && e.ruleset.needsHttp) = true := by
        intro hhttp
        exact hne ((if_pos ⟨rfl, (Bool.and_eq_true_iff.1 hhttp).1.symm⟩).symm.trans hnone)
      have hparams : ((e.makeRoom order).1.extendWindow g d delivered timestamp).1.params =
          e.params :=
        (extendWindow_params ..).trans (makeRoom_params ..)
      rw [step, inspectStream_of_not_http e order g t timestamp hne hclient]
      refine (if_pos rfl).trans ?_
      exact hpayload _ (he.of_params hparams)
        (by rwa [ruleset_of_params hparams]) order g t d true _
        timestamp
    · exact if_neg fun h => hflow (Option.some.inj h)
  | flowEnd g => rfl

/-- A call raises the rule's alert in a flow once for each head it completes that the rule matches.
-/
theorem step_alertsFor {e : Engine R A} (he : e.Armed resolve limits rules)
    (hsids : (rules.map Rule.sid).Nodup) (habout : AboutRequests rule)
    (harmed : armed R resolve limits rule = some entry) (hmem : entry ∈ e.ruleset.rules)
    (hloud : Loud entry) {stream : List UInt8}
    (hwindow : Follows e.limits.inspectionWindow stream (e.windowOf flowId true)) {call : Call}
    (hbetween : call.Between flowId tuple) (hread : call.delivery flowId true ≠ [])
    (hkept : e.KeepsFlow flowId call) :
    (if call.inspects = some flowId then alertsFor entry.sid (e.step call).2.alerts else []) =
      (matchedRequests entry tuple (e.requestsOf flowId (call.delivery flowId true))).map
        (fun _ => entry.record) := by
  cases call with
  | packet order g t d payload timestamp => exact absurd rfl hread
  | stream order g t d delivered timestamp =>
    obtain ⟨rfl, rfl⟩ : flowId = g ∧ true = d := by
      by_contra hother
      exact hread (if_neg hother)
    have hdelivery : (Call.stream order flowId t true delivered timestamp).delivery flowId true =
        delivered := if_pos ⟨rfl, rfl⟩
    rw [hdelivery] at hread ⊢
    obtain rfl := hbetween rfl rfl hread
    have halerts := inspectStream_alertsFor e he hsids hmem hloud
      (habout.evaluate_bits harmed) order t
      hwindow hread timestamp hkept.1
    rw [habout.evaluate_payload harmed, Option.isSome_none, if_neg Bool.false_ne_true,
      List.nil_append,
      habout.ruleset_needsHttp harmed hmem, Bool.and_true, if_pos rfl] at halerts
    exact (if_pos rfl).trans halerts
  | flowEnd g => exact absurd rfl hread

theorem run_flowAlerts_nil {e : Engine R A} (he : e.Armed resolve limits rules)
    (hsids : (rules.map Rule.sid).Nodup) (habout : AboutRequests rule)
    (harmed : armed R resolve limits rule = some entry) (hmem : entry ∈ e.ruleset.rules)
    (hloud : Loud entry) {calls : List Call}
    (hnone : ∀ call ∈ calls, call.delivery flowId true = []) :
    flowAlerts entry.sid flowId calls (Runs.run Engine.step e calls).2 = [] := by
  induction calls generalizing e with
  | nil => rfl
  | cons call rest ih =>
    obtain ⟨hfirst, hrest⟩ := List.forall_mem_cons.1 hnone
    have hparams := step_params e call
    have hcall := step_alertsFor_nil he hsids habout harmed hmem hloud hfirst
    have hlater := ih (he.of_params hparams) (by rwa [ruleset_of_params hparams]) hrest
    rw [flowAlerts, Runs.run_cons, List.zip_cons_cons, List.flatMap_cons, List.append_eq_nil_iff]
    exact ⟨hcall, hlater⟩

/-- In any traffic, a flow raises the alert of a rule about requests once for each head that the
client completes and the rule matches. -/
theorem run_flowAlerts {e : Engine R A} (he : e.Armed resolve limits rules)
    (hsids : (rules.map Rule.sid).Nodup) (habout : AboutRequests rule)
    (harmed : armed R resolve limits rule = some entry) (hmem : entry ∈ e.ruleset.rules)
    (hloud : Loud entry) {stream : List UInt8}
    (hwindow : Follows e.limits.inspectionWindow stream (e.windowOf flowId true))
    {calls : List Call}
    (hbetween : ∀ call ∈ calls, call.Between flowId tuple) (hkept : KeptWhileRead flowId e calls) :
    flowAlerts entry.sid flowId calls (Runs.run Engine.step e calls).2 =
      (matchedRequests entry tuple (completedRequests e.limits.normalize (e.parserOf flowId)
        (deliveries flowId true calls))).map (fun _ => entry.record) := by
  induction calls generalizing e stream with
  | nil => rfl
  | cons call rest ih =>
    obtain ⟨hfirst, hrest⟩ := List.forall_mem_cons.1 hbetween
    have hparams := step_params e call
    have hsplit : flowAlerts entry.sid flowId (call :: rest)
          (Runs.run Engine.step e (call :: rest)).2 =
        (if call.inspects = some flowId then alertsFor entry.sid (e.step call).2.alerts else []) ++
          flowAlerts entry.sid flowId rest (Runs.run Engine.step (e.step call).1 rest).2 := rfl
    by_cases hread : ∃ next ∈ call :: rest, next.delivery flowId true ≠ []
    · obtain ⟨next, hnext, hbytes⟩ := hread
      have hkeeps := hkept.head hnext hbytes
      have hafter := step_follows hwindow hkeeps
      rw [← limits_of_params hparams] at hafter
      have hlater := ih (he.of_params hparams) (by rwa [ruleset_of_params hparams]) hafter hrest
        hkept.tail
      rw [limits_of_params hparams,
        step_parserOf (habout.ruleset_needsHttp harmed hmem) hkeeps] at hlater
      rw [hsplit, hlater]
      by_cases hempty : call.delivery flowId true = []
      · have hdeliveries : deliveries flowId true (call :: rest) = deliveries flowId true rest := by
          simp [deliveries, hempty]
        rw [step_alertsFor_nil he hsids habout harmed hmem hloud hempty, if_pos hempty, hdeliveries,
          List.nil_append]
      · have hdeliveries : deliveries flowId true (call :: rest) =
            call.delivery flowId true :: deliveries flowId true rest := by
          simp [deliveries, hempty]
        -- the heads that this delivery completes, and those of the rest
        have hcompleted : completedRequests e.limits.normalize (e.parserOf flowId)
            (call.delivery flowId true :: deliveries flowId true rest) =
            e.requestsOf flowId (call.delivery flowId true) ++ completedRequests e.limits.normalize
              ((e.parserOf flowId).push (call.delivery flowId true) e.limits.normalize).1
              (deliveries flowId true rest) := rfl
        rw [step_alertsFor he hsids habout harmed hmem hloud hwindow hfirst hempty hkeeps,
          if_neg hempty, hdeliveries, hcompleted, matchedRequests_append, List.map_append]
    · -- nothing of the client is delivered any more
      have hnone (next : Call) (hmem : next ∈ call :: rest) : next.delivery flowId true = [] := by
        by_contra hbytes
        exact hread ⟨next, hmem, hbytes⟩
      have hdeliveries : deliveries flowId true (call :: rest) = [] := by
        rw [deliveries, List.filter_eq_nil_iff]
        intro bytes hbytes
        obtain ⟨next, hnext, rfl⟩ := List.mem_map.1 hbytes
        simp [hnone next hnext]
      rw [run_flowAlerts_nil he hsids habout harmed hmem hloud hnone, hdeliveries]
      rfl

end Alerts
end Engine

/-- The target spells the path, on detours and with escapes, and the query stands as it is. -/
inductive SpellsTarget (path query : List UInt8) : List UInt8 → Prop
  | written {detoured : List (List UInt8)} {text : SpelledText}
      (hdetoured : Detoured (path.splitOn slash) detoured)
      (hbytes : text.bytes = absolutePath detoured)
      (hspells : ∀ e ∈ text, e.2.Spells e.1) (hmark : questionMark ∉ text.written) :
      SpellsTarget path query (text.written ++ query)

/-- Two texts of one request: the same method, the same headers but for the blanks around them, and
two targets that spell the same path in front of the same query. -/
structure Respelled (r r' : RequestText) : Prop where
  method : r'.method = r.method
  headers : r'.headers.map Http.trim = r.headers.map Http.trim
  target : ∃ path query, percentSign ∉ path ∧ (query = [] ∨ query.head? = some questionMark) ∧
    SpellsTarget path query r.target ∧ SpellsTarget path query r'.target

section Spelled

variable {options : NormalizeConfig} (hrounds : options.decodeRounds = 2)
  (hcollapse : options.collapsePath = true) (hbackslash : options.backslashIsSeparator = false)

include hrounds hcollapse hbackslash

/-- However the path of a target is spelled, its URI is the collapsed path and the query. -/
theorem SpellsTarget.uri_eq {path query target : List UInt8} (h : SpellsTarget path query target)
    (hpercent : percentSign ∉ path) (hquery : query = [] ∨ query.head? = some questionMark) :
    (normalizePath (target.takeWhile (fun byte => byte != questionMark)) options).bytes ++
        target.dropWhile (fun byte => byte != questionMark) =
      (collapsePath (absolutePath (path.splitOn slash)) false).1 ++ query := by
  cases h with
  | @written detoured text hdetoured hbytes hspells hmark =>
    have hclean : Clean (path.splitOn slash) := fun part hpart =>
      ⟨fun hin => (Lines.mem_of_mem_splitOn hpart hin).2 rfl,
        fun hin => hpercent (Lines.mem_of_mem_splitOn hpart hin).1⟩
    have hvalid := SpelledText.valid_of_bytes (not_mem_absolutePath (hdetoured.clean hclean)) hbytes
      hspells
    have hbefore : ∀ byte ∈ text.written, (byte != questionMark) = true := by
      intro byte hbyte
      exact bne_iff_ne.2 fun heq => hmark (heq ▸ hbyte)
    have htake : query.takeWhile (fun byte => byte != questionMark) = [] := by
      rcases hquery with rfl | hhead
      · rfl
      · obtain ⟨rest, rfl⟩ := List.head?_eq_some_iff.1 hhead
        exact List.takeWhile_cons_of_neg (by simp)
    have hdrop : query.dropWhile (fun byte => byte != questionMark) = query := by
      rcases hquery with rfl | hhead
      · rfl
      · obtain ⟨rest, rfl⟩ := List.head?_eq_some_iff.1 hhead
        exact List.dropWhile_cons_of_neg (by simp)
    rw [List.takeWhile_append_of_pos hbefore, List.dropWhile_append_of_pos hbefore, htake, hdrop,
      List.append_nil, normalizePath_bytes hrounds hcollapse hbackslash hvalid, hbytes,
      hdetoured.collapsePath_eq (List.splitOn_ne_nil _ _) hclean]

theorem Respelled.unspelled_request {r r' : RequestText} (h : Respelled r r') :
    unspelled (r'.request options) = unspelled (r.request options) := by
  obtain ⟨path, query, hpercent, hquery, hspells, hspells'⟩ := h.target
  have huri := hspells.uri_eq hrounds hcollapse hbackslash hpercent hquery
  have huri' := hspells'.uri_eq hrounds hcollapse hbackslash hpercent hquery
  simp only [unspelled, RequestText.request, h.method, h.headers, huri, huri']

theorem map_unspelled_request {requests requests' : List RequestText}
    (h : List.Forall₂ Respelled requests requests') :
    (requests'.map fun r => r.request options).map unspelled =
      (requests.map fun r => r.request options).map unspelled := by
  induction h with
  | nil => rfl
  | cons hfirst _ ih =>
    rw [List.map_cons, List.map_cons, List.map_cons, List.map_cons, ih,
      hfirst.unspelled_request hrounds hcollapse hbackslash]

end Spelled

structure SendsRequests (maxHead : ℕ) (requests : List RequestText)
    (stream : List UInt8) : Prop where
  wellFormed : ∀ r ∈ requests, r.WellFormed
  fits : ∀ r ∈ requests, r.bytes.length ≤ (HttpParser.new maxHead).maxHead
  bytes : stream = requests.flatMap RequestText.bytes

/-- However the stream is cut, the parser completes the requests that are sent. -/
theorem SendsRequests.completedRequests_eq {maxHead : ℕ} {requests : List RequestText}
    {pieces : List (List UInt8)} (h : SendsRequests maxHead requests pieces.flatten)
    (options : NormalizeConfig) :
    completedRequests options (HttpParser.new maxHead) pieces =
      requests.map fun r => r.request options := by
  have hsplit : Frames.Split EndsHead ((HttpParser.new maxHead).buffer ++ pieces.flatten)
      (requests.map RequestText.bytes) [] := by
    refine ⟨?_, ?_, HttpParser.new_buffer_incomplete maxHead⟩
    · rw [h.bytes, List.append_nil, List.flatMap_def]
      rfl
    · intro head hhead
      obtain ⟨r, hr, rfl⟩ := List.mem_map.1 hhead
      exact (h.wellFormed r hr).isFrame
  have hheads : ∀ head ∈ requests.map RequestText.bytes,
      head.length ≤ (HttpParser.new maxHead).maxHead := by
    intro head hhead
    obtain ⟨r, hr, rfl⟩ := List.mem_map.1 hhead
    exact h.fits r hr
  refine (HttpParser.pushAll_requests options rfl (HttpParser.new_buffer_incomplete maxHead) hsplit
    hheads (Nat.zero_le _)).trans ?_
  rw [List.filterMap_map, ← List.filterMap_eq_map]
  exact List.filterMap_congr fun r hr => (h.wellFormed r hr).parseHead_bytes options

/-- In this traffic the flow's client sends the requests, and the engine keeps the flow's state. -/
structure CarriesRequests (e : Engine R A) (flowId : UInt64) (tuple : NetTuple)
    (requests : List RequestText) (calls : List Call) : Prop where
  between : ∀ call ∈ calls, call.Between flowId tuple
  sends : SendsRequests e.limits.maxHttpHead requests (deliveries flowId true calls).flatten
  kept : KeptWhileRead flowId e calls

/-- The flow raises the rule's alert once for each request that it matches. -/
theorem CarriesRequests.flowAlerts_eq {resolve : HeaderResolver} {limits : EngineLimits}
    {rules : List Rule} (hsids : (rules.map Rule.sid).Nodup) {rule : Rule} (hmem : rule ∈ rules)
    {entry : CompiledRule R} (harmed : armed R resolve limits.compile rule = some entry)
    (hloud : Loud entry)
    (habout : AboutRequests rule) {flowId : UInt64} {tuple : NetTuple} {requests : List RequestText}
    {calls : List Call}
    (h : CarriesRequests (Engine.new R A resolve limits rules).1 flowId tuple requests calls) :
    flowAlerts rule.sid flowId calls
        (Runs.run Engine.step (Engine.new R A resolve limits rules).1 calls).2 =
      (Engine.matchedRequests entry tuple (requests.map fun r => r.request limits.normalize)).map
        (fun _ => entry.record) := by
  have hparser : (Engine.new R A resolve limits rules).1.parserOf flowId =
      HttpParser.new limits.maxHttpHead := rfl
  have hcompleted := h.sends.completedRequests_eq limits.normalize
  have hrun := Engine.run_flowAlerts (Engine.new_armed resolve limits rules)
    (hsids.sublist (List.filter_sublist.map _)) habout harmed
    (mem_new_rules hmem (not_hostRule_of_armed harmed) harmed) hloud
    (Engine.new_follows resolve limits rules flowId true) h.between h.kept
  rw [← (armed_spec harmed).1, hrun, hparser]
  exact congrArg (fun heads => (Engine.matchedRequests entry tuple heads).map fun _ => entry.record)
    hcompleted

/-- Whatever other traffic there is, a rule about requests alerts in a flow once for each request of
the client that it matches. A client that writes each request otherwise, spells the paths otherwise
and cuts its stream otherwise raises the same alerts. -/
theorem respelled_requests_alert_alike (R : Regex) (A : AhoCorasick) (resolve : HeaderResolver)
    (limits : EngineLimits) (hrounds : limits.normalize.decodeRounds = 2)
    (hcollapse : limits.normalize.collapsePath = true)
    (hbackslash : limits.normalize.backslashIsSeparator = false) (rules : List Rule)
    (hsids : (rules.map Rule.sid).Nodup) (rule : Rule) (hmem : rule ∈ rules)
    (entry : CompiledRule R)
    (harmed : armed R resolve limits.compile rule = some entry) (hthreshold : rule.threshold = none)
    (hnoAlert : rule.noAlert = false) (habout : AboutRequests rule) (tuple : NetTuple)
    (requests requests' : List RequestText) (hrespelled : List.Forall₂ Respelled requests requests')
    (flowId flowId' : UInt64) (calls calls' : List Call)
    (hcarries : CarriesRequests (Engine.new R A resolve limits rules).1 flowId tuple requests calls)
    (hcarries' : CarriesRequests (Engine.new R A resolve limits rules).1 flowId' tuple
    requests' calls') :
    let e := (Engine.new R A resolve limits rules).1
    flowAlerts rule.sid flowId calls (Runs.run Engine.step e calls).2 =
        (Engine.matchedRequests entry tuple (requests.map fun r => r.request limits.normalize)).map
          (fun _ => entry.record) ∧
      flowAlerts rule.sid flowId' calls' (Runs.run Engine.step e calls').2 =
        flowAlerts rule.sid flowId calls (Runs.run Engine.step e calls).2 := by
  intro e
  have hloud := loud_of_armed harmed hnoAlert hthreshold
  have hplain := hcarries.flowAlerts_eq hsids hmem harmed hloud habout
  have hspelled := hcarries'.flowAlerts_eq hsids hmem harmed hloud habout
  refine ⟨hplain, ?_⟩
  rw [hspelled, hplain]
  exact habout.map_matchedRequests harmed tuple
    (map_unspelled_request hrounds hcollapse hbackslash hrespelled)

/-- `http.uri; content:"/a/b"`. -/
def pathRule : Rule :=
  contentRule 2 [{ pattern := [slash, 0x61, slash, 0x62], buffer := .httpUri }]

theorem aboutRequests_pathRule : AboutRequests pathRule where
  content := ⟨_, List.mem_cons_self, by decide, rfl⟩
  unflagged condition hmem := absurd (List.mem_singleton.1 hmem) (by simp)
  flowbit option hoption := by
    obtain rfl := List.mem_singleton.1 hoption
    rfl

/-- `GET /a/b H` with the header `A:x`, the lines ended by LF. -/
def plainPath : RequestText :=
  ⟨[0x47, 0x45, 0x54], [slash, 0x61, slash, 0x62], [0x48], [[0x41, 0x3a, 0x78]], false⟩

/-- `GET /x/.%2e/%2561//b I` with the header ` A:x `, the lines ended by CR LF. -/
def spelledPath : RequestText :=
  ⟨[0x47, 0x45, 0x54], spelledSample.written, [0x49], [[0x20, 0x41, 0x3a, 0x78, 0x20]], true⟩

theorem wellFormed_plainPath : plainPath.WellFormed :=
  ⟨by decide, List.all_eq_true.1 rfl, by decide, Http.eq_false_of_any rfl, by decide,
    Http.eq_false_of_any rfl, by decide, by decide, by decide⟩

theorem wellFormed_spelledPath : spelledPath.WellFormed :=
  ⟨by decide, List.all_eq_true.1 rfl, by decide, Http.eq_false_of_any rfl, by decide,
    Http.eq_false_of_any rfl, by decide, by decide, by decide⟩

theorem respelled_samples : Respelled plainPath spelledPath := by
  refine ⟨rfl, by decide, [0x61, slash, 0x62], [], by decide, Or.inl rfl, ?_, ?_⟩
  · have hplain : SpellsTarget [0x61, slash, 0x62] []
        ((SpelledText.plain [slash, 0x61, slash, 0x62]).written ++ []) :=
      .written .none (by decide) (SpelledText.spells_plain _) (by decide)
    exact hplain
  · have hinner : Detoured [[0x61], [0x62]] ([[0x61]] ++ [[]] ++ [[0x62]]) :=
      .insert .none (List.cons_ne_nil _ _) .empty
    have hback : Detour [[0x78], [dot, dot]] :=
      .back (by decide) (by decide) (by decide) (by decide) (by decide)
    have hdetoured : Detoured [[0x61], [0x62]]
        ([] ++ [[0x78], [dot, dot]] ++ [[0x61], [], [0x62]]) :=
      .insert hinner (List.cons_ne_nil _ _) hback
    have hspells : ∀ e ∈ spelledSample, e.2.Spells e.1 := by
      simp only [spelledSample, List.forall_mem_cons, List.not_mem_nil, false_imp_iff,
        forall_true_iff]
      exact ⟨trivial, trivial, trivial, trivial, ⟨2, 14, rfl, rfl, rfl⟩, trivial,
        ⟨6, 1, rfl, rfl, rfl⟩,
        trivial, trivial, trivial, trivial⟩
    have hwritten : SpellsTarget [0x61, slash, 0x62] [] (spelledSample.written ++ []) :=
      .written hdetoured rfl hspells (by decide)
    rwa [List.append_nil] at hwritten

/-- The plain request in one delivery, and the spelled one in two. -/
theorem respelled_requests_alert_alike_sample :
    let e := (Engine.new Regex.none AhoCorasick.exhaustive resolveAny {} [pathRule]).1
    let pieces := [sampleDelivery (spelledPath.bytes.take 9),
      sampleDelivery (spelledPath.bytes.drop 9)]
    flowAlerts pathRule.sid 7 pieces (Runs.run Engine.step e pieces).2 =
        flowAlerts pathRule.sid 7 [sampleDelivery plainPath.bytes]
          (Runs.run Engine.step e [sampleDelivery plainPath.bytes]).2 ∧
      (flowAlerts pathRule.sid 7 pieces (Runs.run Engine.step e pieces).2).length = 1 := by
  intro e pieces
  have hbetween (bytes : List UInt8) : (sampleDelivery bytes).Between 7 sampleTuple :=
    fun _ _ _ => rfl
  have hcarries : CarriesRequests e 7 sampleTuple [plainPath] [sampleDelivery plainPath.bytes] :=
    ⟨List.forall_mem_singleton.2 (hbetween _), ⟨List.forall_mem_singleton.2 wellFormed_plainPath,
      List.forall_mem_singleton.2 (by decide), by decide +kernel⟩,
      keptWhileRead_of_along ⟨⟨by decide +kernel, id⟩, trivial⟩⟩
  have hcarries' : CarriesRequests e 7 sampleTuple [spelledPath] pieces :=
    ⟨List.forall_mem_cons.2 ⟨hbetween _, List.forall_mem_singleton.2 (hbetween _)⟩,
      ⟨List.forall_mem_singleton.2 wellFormed_spelledPath, List.forall_mem_singleton.2 (by decide),
        by decide +kernel⟩,
      keptWhileRead_of_along ⟨⟨by decide +kernel, id⟩, ⟨by decide +kernel, id⟩, trivial⟩⟩
  have halike := respelled_requests_alert_alike Regex.none AhoCorasick.exhaustive
    resolveAny {} rfl rfl
    rfl [pathRule] (List.nodup_singleton _) pathRule List.mem_cons_self _ rfl rfl rfl
    aboutRequests_pathRule
    sampleTuple
    [plainPath] [spelledPath] (.cons respelled_samples .nil) 7 7 _ _ hcarries hcarries'
  refine ⟨halike.2, ?_⟩
  rw [halike.2, halike.1, List.length_map]
  decide +kernel

end CyberSentinel.Detect
