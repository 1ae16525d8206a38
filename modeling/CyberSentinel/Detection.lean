import CyberSentinel.Alerts
import CyberSentinel.InspectionWindow

/-!
# Detection on a cut stream

A delivery is evaluated on its region: the new bytes and, before them, as many bytes of the stream
as the longest pattern has, less one. A single content without position modifiers is found in every
delivery that completes an occurrence, wherever the stream is cut. A rule that needs more than one
region to hold, or that measures positions from the start of the region, depends on the cut.
-/

namespace CyberSentinel.Detect

open Rules Tables Bytes

variable {R : Regex} {A : AhoCorasick}

def flowbitName : FlowBitsOp → Option String
  | .set name | .unset name | .toggle name | .isSet name | .isNotSet name => some name
  | .noAlert => none

def optionFlowbit : RuleOption → Option String
  | .flowBits op => flowbitName op
  | _ => none

def CompiledOption.flowbit : CompiledOption R → Option String
  | .flowBits op => flowbitName op
  | _ => none

def CompiledRule.flowbitNames (rule : CompiledRule R) : List String :=
  rule.options.filterMap CompiledOption.flowbit

theorem compileOptions_flowbits {limits : CompileLimits} {options : List RuleOption}
    {compiled : List (CompiledOption R)} (h : compileOptions R limits options = .ok compiled) :
    compiled.filterMap CompiledOption.flowbit = options.filterMap optionFlowbit := by
  induction options generalizing compiled with
  | nil =>
    rw [← Except.ok.inj h]
    rfl
  | cons option rest ih =>
    obtain ⟨first, others, hfirst, hrest, rfl⟩ := compileOptions_cons h
    have hname : first.flowbit = optionFlowbit option := by
      cases option with
      | pcre p =>
        simp only [compileOption] at hfirst
        split at hfirst
        · rw [← Except.ok.inj hfirst]
          rfl
        · exact absurd hfirst (by simp)
      | host host => exact absurd hfirst (by simp [compileOption])
      | _ =>
        rw [← Except.ok.inj hfirst]
        rfl
    rw [List.filterMap_cons, List.filterMap_cons, hname, ih hrest]

theorem evalOption_congr_bits (input : MatchInput) {bits bits' : FlowBits} (p : Progress)
    (option : CompiledOption R)
    (h : ∀ op name, option = .flowBits op → flowbitName op = some name →
      bits.isSet name = bits'.isSet name) :
    evalOption input bits p option = evalOption input bits' p option := by
  cases option with
  | flowBits op =>
    cases op with
    | isSet name => simp only [evalOption, h _ name rfl rfl]
    | isNotSet name => simp only [evalOption, h _ name rfl rfl]
    | _ => rfl
  | _ => rfl

theorem evaluate_congr_bits (rule : CompiledRule R) (input : MatchInput) {bits bits' : FlowBits}
    (h : ∀ name ∈ rule.flowbitNames, bits.isSet name = bits'.isSet name) :
    evaluate rule input bits = evaluate rule input bits' := by
  have hfold (options : List (CompiledOption R)) (hsub : ∀ o ∈ options, o ∈ rule.options)
      (p : Progress) : options.foldlM (evalOption input bits) p =
        options.foldlM (evalOption input bits') p := by
    induction options generalizing p with
    | nil => rfl
    | cons option rest ih =>
      have hoption : evalOption input bits p option = evalOption input bits' p option := by
        apply evalOption_congr_bits
        intro op name hop hname
        apply h
        exact List.mem_filterMap.2 ⟨option, hsub option List.mem_cons_self, by
          rw [hop]; exact hname⟩
      rw [List.foldlM_cons, List.foldlM_cons, hoption]
      exact bind_congr (fun next => ih (fun o ho => hsub o (List.mem_cons_of_mem _ ho)) next)
  unfold evaluate
  rw [hfold rule.options (fun _ ho => ho)]

structure Plain (c : ContentMatch) : Prop where
  pattern : c.pattern ≠ []
  buffer : c.buffer = .payload
  negated : c.negated = false
  offset : c.offset = none
  depth : c.depth = none
  distance : c.distance = none
  within : c.within = none

theorem evaluate_plain_iff {rule : CompiledRule R} {contents : List ContentMatch}
    (hoptions : rule.options = contents.map .content) (hplain : ∀ c ∈ contents, Plain c)
    (input : MatchInput) (bits : FlowBits) :
    (evaluate rule input bits).isSome = true ↔ rule.header.matches input.tuple = true ∧
      ∀ c ∈ contents, Search.Occurs (sameByte c.nocase) c.pattern input.buffers.payload := by
  have hfold (contents : List ContentMatch) (hplain : ∀ c ∈ contents, Plain c) (p : Progress) :
      ((contents.map CompiledOption.content).foldlM (evalOption (R := R) input bits) p).isSome =
          true ↔
        ∀ c ∈ contents, Search.Occurs (sameByte c.nocase) c.pattern input.buffers.payload := by
    induction contents generalizing p with
    | nil => simp
    | cons c rest ih =>
      have hc := hplain c List.mem_cons_self
      have hget : input.buffers.get c.buffer = some input.buffers.payload := by
        rw [hc.buffer]
        rfl
      have hmatch := matchContent_isSome_iff input.buffers.payload (p.cursors c.buffer) hc.negated
        hc.offset hc.depth hc.distance hc.within
      rw [List.map_cons, List.foldlM_cons, List.forall_mem_cons]
      cases hcursor : matchContent c input.buffers.payload (p.cursors c.buffer) with
      | none =>
        have hnot : ¬ Search.Occurs (sameByte c.nocase) c.pattern input.buffers.payload := by
          intro hoccurs
          have := hmatch.2 ⟨hc.pattern, hoccurs⟩
          simp [hcursor] at this
        simp [evalOption, hget, hcursor, hnot]
      | some cursor =>
        have hoccurs := (hmatch.1 (by rw [hcursor]; rfl)).2
        simp only [evalOption, hget, hcursor, Option.bind_some, Option.map_some,
          Option.bind_eq_bind]
        rw [ih (fun c' hc' => hplain c' (List.mem_cons_of_mem _ hc'))]
        simp [hoccurs]
  unfold evaluate
  split_ifs with hheader
  · rw [Option.isSome_map, hoptions, hfold contents hplain]
    simp [hheader]
  · simp [hheader]

namespace Engine

def requestsOf (e : Engine R A) (flowId : UInt64) (bytes : List UInt8) : List HttpRequest :=
  ((e.parserOf flowId).push bytes e.limits.normalize).2

def matchedRequests (rule : CompiledRule R) (tuple : NetTuple) (requests : List HttpRequest) :
    List HttpRequest :=
  requests.filter (fun request =>
    (evaluate rule ⟨tuple, true, true, requestBuffers request⟩ {}).isSome)

variable {resolve : HeaderResolver} {limits : CompileLimits} {rules : List Rule}

theorem inspectRequests_alertsFor (hsids : (rules.map Rule.sid).Nodup) {rule : CompiledRule R}
    (hloud : Loud rule) (hbits : ∀ input bits, evaluate rule input bits = evaluate rule input {})
    (order : HashOrder UInt64) (flowId : UInt64) (tuple : NetTuple) (timestamp : Instant)
    (e : Engine R A) (he : e.Armed resolve limits rules) (hmem : rule ∈ e.ruleset.rules)
    (requests : List HttpRequest) :
    alertsFor rule.sid (inspectRequests order flowId tuple timestamp e requests).2.alerts =
      (matchedRequests rule tuple requests).map (fun _ => rule.record) := by
  induction requests generalizing e with
  | nil => rfl
  | cons request rest ih =>
    have hfirst : alertsFor rule.sid (e.inspectBuffers order flowId tuple true true
        (requestBuffers request) httpBuffers timestamp).2.alerts =
          if (evaluate rule ⟨tuple, true, true, requestBuffers request⟩ {}).isSome then
            [rule.record] else [] :=
      inspectBuffers_alertsFor e he hsids hmem hloud hbits order flowId tuple true true
        (.http (some request.uri) (some request.headers) request.userAgent (some request.method)
          request.host request.normalization) timestamp
    have hparams := inspectBuffers_params e order flowId tuple true true (requestBuffers request)
      httpBuffers timestamp
    have hrest := ih (e.inspectBuffers order flowId tuple true true (requestBuffers request)
      httpBuffers timestamp).1 (he.of_params hparams) (by
        rw [ruleset_of_params hparams]
        exact hmem)
    simp only [inspectRequests, Output.andThen, alertsFor_append, matchedRequests, List.filter_cons]
    rw [hrest, hfirst]
    split_ifs <;> rfl

/-- A delivery raises the rule's alert once for its region and once for each head it completes, if
the rule matches there. -/
theorem inspectStream_alertsFor (e : Engine R A) (he : e.Armed resolve limits rules)
    (hsids : (rules.map Rule.sid).Nodup) {rule : CompiledRule R} (hmem : rule ∈ e.ruleset.rules)
    (hloud : Loud rule) (hbits : ∀ input bits, evaluate rule input bits = evaluate rule input {})
    {stream : List UInt8} (order : HashOrder UInt64) {flowId : UInt64} (tuple : NetTuple)
    {toServer : Bool} (hwindow : Follows e.limits.inspectionWindow stream
    (e.windowOf flowId toServer))
    {bytes : List UInt8} (hne : bytes ≠ []) (timestamp : Instant)
    (hkept : flowId ∉ (e.inspectStream order flowId tuple toServer bytes timestamp).2.evicted) :
    alertsFor rule.sid (e.inspectStream order flowId tuple toServer bytes timestamp).2.alerts =
      (if (evaluate rule ⟨tuple, true, toServer,
        { payload := (expectedScan e.limits.inspectionWindow (e.longestPattern - 1) stream
          bytes).region }⟩ {}).isSome then [rule.record] else []) ++
      (if toServer && e.ruleset.needsHttp then
        (matchedRequests rule tuple (e.requestsOf flowId bytes)).map (fun _ => rule.record)
      else []) := by
  have hscan := extendWindow_scan hwindow (not_evicted_by_makeRoom hne hkept) bytes timestamp
  have hparams : ((e.makeRoom order).1.extendWindow flowId toServer bytes timestamp).1.params =
      e.params := (extendWindow_params ..).trans (makeRoom_params ..)
  have hpass : alertsFor rule.sid
      (e.payloadPass order flowId tuple toServer bytes timestamp).2.alerts =
        if (evaluate rule ⟨tuple, true, toServer,
          { payload := (expectedScan e.limits.inspectionWindow (e.longestPattern - 1) stream
            bytes).region }⟩ {}).isSome then [rule.record] else [] := by
    rw [← hscan]
    exact inspectBuffers_alertsFor _ (he.of_params hparams) hsids
      (by rw [ruleset_of_params hparams]; exact hmem) hloud hbits order flowId tuple toServer true
      (.payload ((e.makeRoom order).1.extendWindow flowId toServer bytes timestamp).2.region)
      timestamp
  by_cases hhttp : (toServer && e.ruleset.needsHttp) = true
  · rw [inspectStream_of_http e order flowId tuple timestamp hne hhttp] at hkept ⊢
    obtain ⟨hkeptPass, _⟩ := not_or.1 (fun hmem => hkept (List.mem_append.2 hmem))
    have hpassed := payloadPass_params e order flowId tuple toServer bytes timestamp
    have hrequests : (e.payloadPass order flowId tuple toServer bytes timestamp).1.requestsOf flowId
        bytes = e.requestsOf flowId bytes := by
      rw [requestsOf, requestsOf, parserOf, parserOf, limits_of_params hpassed,
        payloadPass_contextOf e order flowId tuple toServer bytes timestamp hkeptPass, if_pos rfl]
      cases toServer <;> rfl
    simp only [Output.andThen, alertsFor_append, if_pos hhttp]
    rw [hpass, ← hrequests, inspectHttp_eq _ order flowId tuple bytes timestamp
      (payloadPass_mem e order flowId tuple toServer bytes timestamp hkeptPass),
      inspectRequests_alertsFor hsids hloud hbits order flowId tuple timestamp _
        (he.of_params ((setState_params ..).trans hpassed))
        (by rw [ruleset_of_params ((setState_params ..).trans hpassed)]; exact hmem)]
    rfl
  · rw [inspectStream_of_not_http e order flowId tuple timestamp hne hhttp, if_neg hhttp,
      List.append_nil]
    exact hpass

end Engine

theorem compileOptions_contents (limits : CompileLimits) (contents : List ContentMatch) :
    compileOptions R limits (contents.map .content) = .ok (contents.map .content) := by
  induction contents with
  | nil => rfl
  | cons c rest ih => simp only [List.map_cons, compileOptions, compileOption, ih]

theorem exists_armed_of_contents (R : Regex) {resolve : HeaderResolver} (limits : CompileLimits)
    {rule : Rule} {header : CompiledHeader} (contents : List ContentMatch)
    (hevaluable : rule.isEvaluable = true) (hresolve : resolve rule.header = .ok header)
    (hoptions : rule.options = contents.map .content) :
    ∃ entry, armed R resolve limits rule = some entry ∧ entry.header = header ∧
      entry.options = contents.map .content := by
  have hcompiled := compileOptions_contents (R := R) limits contents
  rw [← hoptions] at hcompiled
  simp only [armed, compileRule, hevaluable, if_true, hresolve, hcompiled]
  exact ⟨_, rfl, rfl, rfl⟩

theorem le_longestPatternOf {rules : List (CompiledRule R)} {rule : CompiledRule R}
    (hrule : rule ∈ rules) {c : ContentMatch} (hc : CompiledOption.content c ∈ rule.options) :
    c.pattern.length ≤ longestPatternOf rules := by
  have hle (l : List ℕ) (n : ℕ) (h : n ∈ l) : n ≤ l.foldr max 0 := by
    induction l with
    | nil => exact absurd h (by simp)
    | cons m rest ih =>
      rcases List.mem_cons.1 h with heq | hmem
      · rw [heq]
        exact le_max_left _ _
      · exact (ih hmem).trans (le_max_right _ _)
  apply hle
  exact List.mem_filterMap.2 ⟨.content c, List.mem_flatMap.2 ⟨rule, hrule, hc⟩, rfl⟩

theorem mem_new_rules {resolve : HeaderResolver} {limits : EngineLimits} {rules : List Rule}
    {rule : Rule} (hmem : rule ∈ rules) (hhost : rule.isHostRuleByOptions = false)
    {entry : CompiledRule R} (harmed : armed R resolve limits.compile rule = some entry) :
    entry ∈ (Engine.new R A resolve limits rules).1.ruleset.rules := by
  have hrules : (Engine.new R A resolve limits rules).1.ruleset.rules =
      (rules.filter (fun rule => !rule.isHostRuleByOptions)).filterMap
        (armed R resolve limits.compile) := compile_rules _ _ _
  rw [hrules]
  exact List.mem_filterMap.2 ⟨rule, List.mem_filter.2 ⟨hmem, by simp [hhost]⟩, harmed⟩

/-- The last byte of some occurrence of the pattern arrives with `bytes`. -/
def Completes (c : ContentMatch) (stream bytes : List UInt8) : Prop :=
  ∃ i, Search.OccursAt (sameByte c.nocase) c.pattern (stream ++ bytes) i ∧
    stream.length < i + c.pattern.length

theorem expectedScan_region_of_fits {window overlap : ℕ} {stream bytes : List UInt8}
    (h : bytes.length + min overlap stream.length ≤ window) :
    (expectedScan window overlap stream bytes).region =
      slice (stream ++ bytes) (stream.length - min overlap stream.length)
        (stream.length + bytes.length) := by
  have hstart : stream.length +
      bytes.length - min window (bytes.length + min overlap stream.length) =
      stream.length - min overlap stream.length := by omega
  rw [expectedScan, slice, List.take_of_length_le (by simp), hstart]

theorem occurs_region_of_completes {c : ContentMatch} (hc : c.pattern ≠ [])
    {stream bytes : List UInt8} {window longest : ℕ} (hlongest : c.pattern.length ≤ longest)
    (hfit : bytes.length + (longest - 1) ≤ window) (h : Completes c stream bytes) :
    Search.Occurs (sameByte c.nocase) c.pattern
      (expectedScan window (longest - 1) stream bytes).region := by
  obtain ⟨i, hi, hend⟩ := h
  have hle := hi.le_length hc
  rw [List.length_append] at hle
  rw [expectedScan_region_of_fits (by omega)]
  exact ⟨_, hi.slice (by omega) hle⟩

theorem completes_of_occurs_region {c : ContentMatch} (hc : c.pattern ≠ [])
    {stream bytes : List UInt8} {window longest : ℕ} (hlongest : c.pattern.length = longest)
    (hfit : bytes.length + (longest - 1) ≤ window)
    (h : Search.Occurs (sameByte c.nocase) c.pattern
      (expectedScan window (longest - 1) stream bytes).region) : Completes c stream bytes := by
  have hpos : 0 < c.pattern.length := List.length_pos_of_ne_nil hc
  obtain ⟨i, hi⟩ := h
  rw [expectedScan_region_of_fits (by omega)] at hi
  exact ⟨_, hi.of_slice, by omega⟩

/-- A rule with one plain content alerts in every delivery that completes an occurrence of it; when
no pattern of the rule set is longer, it alerts in no other, and once. -/
theorem single_content_alerts (R : Regex) (A : AhoCorasick) (resolve : HeaderResolver)
    (limits : EngineLimits) (rules : List Rule) (rule : Rule) (c : ContentMatch)
    (header : CompiledHeader) (before : List Call) (order : HashOrder UInt64) (flowId : UInt64)
    (tuple : NetTuple) (toServer : Bool) (bytes : List UInt8) (timestamp : Instant)
    (hsids : (rules.map Rule.sid).Nodup) (hmem : rule ∈ rules)
    (hevaluable : rule.isEvaluable = true) (hresolve : resolve rule.header = .ok header)
    (hheader : header.matches tuple = true) (hoptions : rule.options = [.content c])
    (hplain : Plain c) (hthreshold : rule.threshold = none) (hnoAlert : rule.noAlert = false)
    (hne : bytes ≠ [])
    (hfit : bytes.length + ((Engine.new R A resolve limits rules).1.longestPattern - 1) ≤
      limits.inspectionWindow)
    (hkept : Runs.Along Engine.step (Engine.KeepsFlow flowId)
      (Engine.new R A resolve limits rules).1
      (before ++ [.stream order flowId tuple toServer bytes timestamp])) :
    let e := (Engine.new R A resolve limits rules).1
    let stream := (deliveries flowId toServer before).flatten
    let out := ((Runs.run Engine.step e before).1.step
      (.stream order flowId tuple toServer bytes timestamp)).2
    (Completes c stream bytes → alertsFor rule.sid out.alerts ≠ []) ∧
      (c.pattern.length = e.longestPattern →
        (Completes c stream bytes → (alertsFor rule.sid out.alerts).length = 1) ∧
        (¬ Completes c stream bytes → alertsFor rule.sid out.alerts = [])) := by
  intro e stream out
  obtain ⟨entry, harmed, hentryHeader, hentryOptions⟩ :=
    exists_armed_of_contents R limits.compile [c] hevaluable hresolve hoptions
  have hsid := (armed_spec harmed).1
  have hentry : entry ∈ e.ruleset.rules :=
    mem_new_rules hmem
      (by simp [Rule.isHostRuleByOptions, hoptions, RuleOption.hostEventKind]) harmed
  have hlongest : c.pattern.length ≤ e.longestPattern :=
    le_longestPatternOf hentry (by simp [hentryOptions])
  have hcontents : ∀ c' ∈ [c], Plain c' := fun c' hc' => List.mem_singleton.1 hc' ▸ hplain
  -- the engine after the calls before
  obtain ⟨hbefore, hlast, -⟩ := (Runs.along_append _ _ _ _ _).1 hkept
  have hparams := Engine.run_params e before
  have hwindow :=
    (Engine.run_follows (Engine.new_follows resolve limits rules flowId toServer) hbefore).1
  rw [List.nil_append, ← Engine.limits_of_params hparams] at hwindow
  have hquiet (requests : List HttpRequest) :
      Engine.matchedRequests entry tuple requests = [] := by
    rw [Engine.matchedRequests, List.filter_eq_nil_iff]
    intro request _ hsome
    have hoccurs := (evaluate_plain_iff hentryOptions hcontents _ _).1 hsome
    exact Search.not_occurs_nil hplain.pattern (hoccurs.2 c (by simp))
  have halerts := Engine.inspectStream_alertsFor (Runs.run Engine.step e before).1
    (Engine.run_armed resolve limits rules before)
    (hsids.sublist (List.filter_sublist.map _))
    (by rw [Engine.ruleset_of_params hparams]; exact hentry)
    (loud_of_armed harmed hnoAlert hthreshold)
    (fun input bits => evaluate_congr_bits entry input (by
      simp [CompiledRule.flowbitNames, hentryOptions, CompiledOption.flowbit]))
    order tuple hwindow hne timestamp hlast.1
  rw [Engine.limits_of_params hparams, Engine.longestPattern_of_params hparams, hsid, hquiet,
    List.map_nil, ite_self, List.append_nil] at halerts
  have hmatch := evaluate_plain_iff hentryOptions hcontents
    ⟨tuple, true, toServer, { payload := (expectedScan e.limits.inspectionWindow
      (e.longestPattern - 1) stream bytes).region }⟩ {}
  have hyes (h : Completes c stream bytes) : alertsFor rule.sid out.alerts = [entry.record] := by
    have hoccurs := occurs_region_of_completes hplain.pattern hlongest hfit h
    refine halerts.trans (if_pos (hmatch.2 ⟨by rw [hentryHeader]; exact hheader, ?_⟩))
    intro c' hc'
    rw [List.mem_singleton.1 hc']
    exact hoccurs
  refine ⟨fun h => by simp [hyes h], fun heq => ⟨fun h => by simp [hyes h], fun h => ?_⟩⟩
  refine halerts.trans (if_neg (fun hsome => h ?_))
  exact completes_of_occurs_region hplain.pattern heq hfit ((hmatch.1 hsome).2 c (by simp))

/-- The pattern `ab` cut after its first byte. -/
theorem single_content_alerts_cut :
    Completes abContent [0x78, 0x61] [0x62] ∧
      (alertsFor abRule.sid ((Runs.run Engine.step
        (Engine.new Regex.none AhoCorasick.exhaustive resolveAny {} [abRule]).1
        [sampleDelivery [0x78, 0x61]]).1.step
        (.stream (HashOrder.asStored _) 7 sampleTuple true [0x62] 0)).2.alerts).length = 1 := by
  have hcompletes : Completes abContent [0x78, 0x61] [0x62] :=
    ⟨1, (Search.all_zip_slice_iff (by decide)).1 (by decide), by decide⟩
  have halerts := single_content_alerts Regex.none AhoCorasick.exhaustive resolveAny {} [abRule]
    abRule abContent _ [sampleDelivery [0x78, 0x61]]
    (HashOrder.asStored _) 7 sampleTuple true [0x62]
    0 (List.nodup_singleton _) List.mem_cons_self rfl rfl (by decide +kernel) rfl
    ⟨by decide, rfl, rfl, rfl, rfl, rfl, rfl⟩ rfl rfl (by decide) (by decide +kernel)
    ⟨⟨by decide +kernel, id⟩, ⟨by decide +kernel, id⟩, trivial⟩
  have hstream : (deliveries 7 true [sampleDelivery [0x78, 0x61]]).flatten = [0x78, 0x61] := by
    decide +kernel
  rw [hstream] at halerts
  exact ⟨hcompletes, (halerts.2 (by decide +kernel)).1 hcompletes⟩

end CyberSentinel.Detect
