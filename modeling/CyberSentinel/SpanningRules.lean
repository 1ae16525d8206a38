import CyberSentinel.Detection
import CyberSentinel.HttpStream
import CyberSentinel.PassRules

/-!
# Rules that span payload and request

A rule may ask for contents of the payload and, after a sticky keyword, for contents of a request.
It is compiled and counted as armed like any other. The bytes of a stream are inspected without the
buffers of a request and a request without any payload, so no inspection holds all that the rule
asks for.
-/

namespace CyberSentinel.Detect

open Rules Tables

variable {R : Regex} {A : AhoCorasick}

structure Unplaced (c : ContentMatch) : Prop where
  pattern : c.pattern ≠ []
  negated : c.negated = false
  offset : c.offset = none
  depth : c.depth = none
  distance : c.distance = none
  within : c.within = none

/-- The options are contents, some on the payload and some on the buffers of a request. -/
structure Spanning (rule : Rule) : Prop where
  contents : ∀ option ∈ rule.options, ∃ c, option = .content c ∧ Unplaced c
  payload : ∃ c, .content c ∈ rule.options ∧ c.buffer = .payload
  request : ∃ c, .content c ∈ rule.options ∧ c.buffer ≠ .payload

theorem Spanning.positive {rule : Rule} (h : Spanning rule) {c : ContentMatch}
    (hc : .content c ∈ rule.options) : c.negated = false := by
  obtain ⟨content, heq, hunplaced⟩ := h.contents _ hc
  obtain rfl := RuleOption.content.inj heq
  exact hunplaced.negated

/-- All that the rule asks for is there: a stream that fits into the window, a head in it, and every
content in the stream or in the buffers of that head. -/
structure Served (limits : EngineLimits) (rule : Rule) (stream : List UInt8)
    (request : HttpRequest) :
    Prop where
  fits : stream.length ≤ limits.inspectionWindow
  head : ((HttpParser.new limits.maxHttpHead).push stream limits.normalize).2 = [request]
  occurs : ∀ c, .content c ∈ rule.options → ∃ haystack,
    ({ Engine.requestBuffers request with payload := stream } : Buffers).get c.buffer =
    some haystack ∧
      Search.Occurs (sameByte c.nocase) c.pattern haystack

theorem get_payload_buffers {bytes haystack : List UInt8} {buffer : Buffer}
    (h : (Inspected.payload bytes).buffers.get buffer = some haystack) : buffer = .payload := by
  cases buffer with
  | payload => rfl
  | _ => exact absurd h (by simp [Inspected.buffers, Buffers.get])

/-- A compiled rule with contents on both sides matches nothing that is inspected. -/
theorem evaluate_of_both {entry : CompiledRule R} {c d : ContentMatch}
    (hc : CompiledOption.content c ∈ entry.options) (hd : CompiledOption.content d ∈ entry.options)
    (hpayload : c.buffer = .payload) (hrequest : d.buffer ≠ .payload)
    (hcpositive : c.negated = false)
    (hdpositive : d.negated = false) (shape : Inspected) (tuple : NetTuple)
    (established toServer : Bool) (bits : FlowBits) :
    evaluate entry ⟨tuple, established, toServer, shape.buffers⟩ bits = none := by
  rw [← Option.not_isSome_iff_eq_none]
  intro hmatched
  cases shape with
  | payload bytes =>
    obtain ⟨haystack, hbuffer, -⟩ := occurs_of_evaluate hmatched hd hdpositive
    exact hrequest (get_payload_buffers hbuffer)
  | http uri header userAgent method host normalization =>
    obtain ⟨haystack, hbuffer, hne, i, hoccurs⟩ := occurs_of_evaluate hmatched hc hcpositive
    rw [hpayload] at hbuffer
    obtain rfl : [] = haystack := Option.some.inj hbuffer
    have hle := hoccurs.le_length hne
    have hpos := List.length_pos_of_ne_nil hne
    rw [List.length_nil] at hle
    omega

/-- No rule with this identifier matches anything that is inspected. -/
def NeverMatches (rules : List (CompiledRule R)) (sid : UInt32) : Prop :=
  ∀ entry ∈ rules, entry.sid = sid → ∀ (shape : Inspected) tuple established toServer bits,
    evaluate entry ⟨tuple, established, toServer, shape.buffers⟩ bits = none

theorem neverMatches_of_spanning {resolve : HeaderResolver} {limits : CompileLimits}
    {rules : List Rule}
    (hsids : (rules.map Rule.sid).Nodup) {rule : Rule} (hmem : rule ∈ rules)
    (hspans : Spanning rule) :
    NeverMatches (rules.filterMap (armed R resolve limits)) rule.sid := by
  intro entry hentry hsid
  obtain ⟨source, hsource, harmed⟩ := List.mem_filterMap.1 hentry
  obtain ⟨hsame, -, -, -, hcompiled⟩ := armed_spec harmed
  obtain rfl : source = rule := List.inj_on_of_nodup_map hsids hsource hmem (hsame.symm.trans hsid)
  obtain ⟨c, hc, hpayload⟩ := hspans.payload
  obtain ⟨d, hd, hrequest⟩ := hspans.request
  exact evaluate_of_both (mem_compileOptions hcompiled hc)
    (mem_compileOptions hcompiled hd) hpayload
    hrequest (hspans.positive hc) (hspans.positive hd)

namespace Engine

section Never

variable {e : Engine R A} {resolve : HeaderResolver} {limits : CompileLimits} {rules : List Rule}
  {sid : UInt32}

theorem inspectBuffers_never (he : e.Armed resolve limits rules)
    (hnever : NeverMatches e.ruleset.rules sid) (order : HashOrder UInt64) (flowId : UInt64)
    (tuple : NetTuple) (toServer established : Bool) (shape : Inspected) (timestamp : Instant) :
    alertsFor sid (e.inspectBuffers order flowId tuple toServer established shape.buffers
      shape.prefilterBuffers timestamp).2.alerts = [] := by
  rw [alertsFor, List.filter_eq_nil_iff, inspectBuffers_alerts e he]
  intro alert halert hsid
  obtain ⟨entry, hentry, rfl⟩ := mem_spoken halert
  obtain ⟨hmem, hmatched⟩ := List.mem_filter.1 hentry
  rw [hnever entry hmem (beq_iff_eq.1 hsid)] at hmatched
  exact Bool.false_ne_true hmatched

theorem inspectRequests_never (he : e.Armed resolve limits rules)
    (hnever : NeverMatches e.ruleset.rules sid) (order : HashOrder UInt64) (flowId : UInt64)
    (tuple : NetTuple) (timestamp : Instant) (requests : List HttpRequest) :
    alertsFor sid (inspectRequests order flowId tuple timestamp e requests).2.alerts = [] := by
  induction requests generalizing e with
  | nil => rfl
  | cons request rest ih =>
    have hparams := inspectBuffers_params e order flowId tuple true true (requestBuffers request)
      httpBuffers timestamp
    have hfirst := inspectBuffers_never he hnever order flowId tuple true true
      (.http (some request.uri) (some request.headers) request.userAgent (some request.method)
        request.host request.normalization) timestamp
    have hrest := ih (he.of_params hparams) (by rwa [ruleset_of_params hparams])
    rw [inspectRequests, Output.andThen, alertsFor_append, hrest, List.append_nil]
    exact hfirst

theorem inspectHttp_never (he : e.Armed resolve limits rules)
    (hnever : NeverMatches e.ruleset.rules sid) (order : HashOrder UInt64) (flowId : UInt64)
    (tuple : NetTuple) (delivered : List UInt8) (timestamp : Instant) :
    alertsFor sid (e.inspectHttp order flowId tuple delivered timestamp).2.alerts = [] := by
  rw [inspectHttp]
  cases e.states.lookup flowId with
  | none => rfl
  | some state =>
    exact inspectRequests_never (he.of_params (setState_params e flowId _)) hnever order
      flowId tuple
      timestamp _

theorem inspectStream_never (he : e.Armed resolve limits rules)
    (hnever : NeverMatches e.ruleset.rules sid) (order : HashOrder UInt64) (flowId : UInt64)
    (tuple : NetTuple) (toServer : Bool) (delivered : List UInt8) (timestamp : Instant) :
    alertsFor sid (e.inspectStream order flowId tuple toServer delivered timestamp).2.alerts =
      [] := by
  by_cases hne : delivered = []
  · rw [inspectStream, if_pos hne]
    rfl
  have hextended : ((e.makeRoom order).1.extendWindow flowId toServer delivered
      timestamp).1.params =
      e.params := (extendWindow_params ..).trans (makeRoom_params ..)
  have hpass : alertsFor sid
      (e.payloadPass order flowId tuple toServer delivered timestamp).2.alerts = [] :=
    inspectBuffers_never (he.of_params hextended)
      (by rwa [ruleset_of_params hextended]) order flowId
      tuple toServer true (.payload _) timestamp
  by_cases hhttp : (toServer && e.ruleset.needsHttp) = true
  · have hparams := payloadPass_params e order flowId tuple toServer delivered timestamp
    have hrequests := inspectHttp_never (he.of_params hparams) (by rwa [ruleset_of_params hparams])
      order flowId tuple delivered timestamp
    rw [inspectStream_of_http e order flowId tuple timestamp hne hhttp, Output.andThen,
      alertsFor_append, hpass, hrequests, List.append_nil]
  · rw [inspectStream_of_not_http e order flowId tuple timestamp hne hhttp]
    exact hpass

theorem step_never (he : e.Armed resolve limits rules) (hnever : NeverMatches e.ruleset.rules sid)
    (call : Call) : alertsFor sid (e.step call).2.alerts = [] := by
  cases call with
  | packet order flowId tuple toServer payload timestamp =>
    exact inspectBuffers_never he hnever order flowId tuple toServer false
      (.payload payload) timestamp
  | stream order flowId tuple toServer delivered timestamp =>
    exact inspectStream_never he hnever order flowId tuple toServer delivered timestamp
  | flowEnd flowId => rfl

end Never

/-- A rule that spans payload and request raises no alert, in any call of any run, whatever the
streams hold. -/
theorem spanning_rule_never_alerts (R : Regex) (A : AhoCorasick) (resolve : HeaderResolver)
    (limits : EngineLimits) (rules : List Rule) (hsids : (rules.map Rule.sid).Nodup) (rule : Rule)
    (hmem : rule ∈ rules) (hspans : Spanning rule) (before : List Call) (call : Call) :
    let e := (Runs.run step (Engine.new R A resolve limits rules).1 before).1
    ∀ alert ∈ (e.step call).2.alerts, alert.sid ≠ rule.sid := by
  intro e alert halert hsid
  have harmed : e.Armed resolve limits.compile _ := run_armed resolve limits rules before
  have hnetwork : rule.isHostRuleByOptions = false := by
    rw [Rule.isHostRuleByOptions, List.any_eq_false]
    intro option hoption
    obtain ⟨c, rfl, -⟩ := hspans.contents option hoption
    exact Bool.false_ne_true
  have hnever : NeverMatches e.ruleset.rules rule.sid := by
    rw [harmed, compile_rules]
    exact neverMatches_of_spanning (hsids.sublist (List.filter_sublist.map _))
      (List.mem_filter.2 ⟨hmem, by rw [hnetwork]; rfl⟩) hspans
  have hnone := step_never harmed hnever call
  rw [alertsFor, List.filter_eq_nil_iff] at hnone
  exact hnone alert halert (beq_iff_eq.2 hsid)

/-- The content `GET` of the payload. -/
def getContent : ContentMatch := { pattern := [0x47, 0x45, 0x54] }

/-- The content `/` of the URI. -/
def slashContent : ContentMatch := { pattern := [0x2f], buffer := .httpUri }

/-- `content:"GET"; http.uri; content:"/"`. -/
def spanningRule : Rule := contentRule 3 [getContent, slashContent]

def halvesAndWhole : List Rule :=
  [contentRule 1 [getContent], contentRule 2 [slashContent], spanningRule]

theorem spanning_spanningRule : Spanning spanningRule where
  contents option hoption := by
    rcases List.mem_pair.1 hoption with rfl | rfl
    · exact ⟨getContent, rfl, by decide, rfl, rfl, rfl, rfl, rfl⟩
    · exact ⟨slashContent, rfl, by decide, rfl, rfl, rfl, rfl, rfl⟩
  payload := ⟨getContent, List.mem_cons_self, rfl⟩
  request := ⟨slashContent, List.mem_cons_of_mem _ List.mem_cons_self, by decide⟩

theorem served_spanningRule :
    ∃ request, Served {} spanningRule HttpParser.sampleRequest request := by
  refine ⟨{ method := [0x47, 0x45, 0x54], rawUri := [0x2f], uri := [0x2f] }, by
    decide, by decide +kernel,
    fun c hc => ?_⟩
  rcases List.mem_pair.1 hc with heq | heq
  · obtain rfl := RuleOption.content.inj heq
    exact ⟨HttpParser.sampleRequest, rfl, ((find_isSome_iff _ _ _).1 (by decide)).2⟩
  · obtain rfl := RuleOption.content.inj heq
    exact ⟨[0x2f], rfl, ((find_isSome_iff _ _ _).1 (by decide)).2⟩

theorem spanning_rule_never_alerts_served :
    (∃ request, Served {} spanningRule HttpParser.sampleRequest request) ∧
      ∀ alert ∈ ((sampleEngine {} halvesAndWhole).step
        (sampleDelivery HttpParser.sampleRequest)).2.alerts, alert.sid ≠ 3 :=
  ⟨served_spanningRule, spanning_rule_never_alerts Regex.none AhoCorasick.exhaustive resolveAny {}
    halvesAndWhole (by decide) spanningRule (by decide) spanning_spanningRule []
    (sampleDelivery HttpParser.sampleRequest)⟩

/-- The request holds all that the rule asks for, and each half of the rule alerts. The rule does
not. -/
theorem spanning_rule_silent :
    Spanning spanningRule ∧ spanningRule.isEvaluable = true ∧
      (Engine.new Regex.none AhoCorasick.exhaustive resolveAny {} halvesAndWhole).2.compiled = 3 ∧
      (∀ entry ∈ (sampleEngine {} halvesAndWhole).ruleset.rules,
        entry.header.matches sampleTuple = true) ∧
      (∃ request, Served {} spanningRule HttpParser.sampleRequest request) ∧
      ((sampleEngine {} halvesAndWhole).step
        (sampleDelivery HttpParser.sampleRequest)).2.alerts.map AlertRecord.sid = [1, 2] :=
  ⟨spanning_spanningRule, by decide, by decide +kernel, by decide +kernel, served_spanningRule,
    by decide +kernel⟩

end Engine
end CyberSentinel.Detect
