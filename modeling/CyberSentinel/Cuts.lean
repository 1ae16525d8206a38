import CyberSentinel.Detection

/-!
# How a cut changes what is found

The same stream delivered in one piece and in several: in one piece a rule is evaluated on the whole
stream, cut it is evaluated on the region of each delivery. The two agree for a single content
without position modifiers. For several such contents a cut can only lose alerts, and with position
modifiers it can also add them.
-/

namespace CyberSentinel.Detect

open Rules Tables Bytes

variable {R : Regex} {A : AhoCorasick}

def Call.DeliversTo (flowId : UInt64) (tuple : NetTuple) (toServer : Bool) : Call → Prop
  | .stream _ g t d bytes _ => g = flowId ∧ t = tuple ∧ d = toServer ∧ bytes ≠ []
  | _ => False

def completedRequests (options : NormalizeConfig) (parser : HttpParser) (ds : List (List UInt8)) :
    List HttpRequest :=
  (Runs.run (fun p bytes => HttpParser.push p bytes options) parser ds).2.flatten

def Alerted (sid : UInt32) (outputs : List Output) : Prop :=
  ∃ out ∈ outputs, alertsFor sid out.alerts ≠ []

/-- A property of some piece and of what came before it, by the first piece. -/
theorem exists_piece_cons {α : Type*} (P : List α → List α → Prop) (stream first : List α)
    (ds : List (List α)) :
    (∃ i bytes, (first :: ds)[i]? = some bytes ∧
        P (stream ++ ((first :: ds).take i).flatten) bytes) ↔
      P stream first ∨
        ∃ i bytes, ds[i]? = some bytes ∧ P (stream ++ first ++ (ds.take i).flatten) bytes := by
  constructor
  · rintro ⟨i, bytes, hi, hP⟩
    cases i with
    | zero =>
      left
      obtain rfl : first = bytes := Option.some.inj hi
      simpa only [List.take_zero, List.flatten_nil, List.append_nil] using hP
    | succ i =>
      right
      refine ⟨i, bytes, hi, ?_⟩
      rw [List.take_succ_cons, List.flatten_cons, ← List.append_assoc] at hP
      exact hP
  · intro h
    rcases h with h | ⟨i, bytes, hi, hP⟩
    · refine ⟨0, first, rfl, ?_⟩
      simpa only [List.take_zero, List.flatten_nil, List.append_nil] using h
    · refine ⟨i + 1, bytes, hi, ?_⟩
      rw [List.take_succ_cons, List.flatten_cons, ← List.append_assoc]
      exact hP

def Holds (rule : CompiledRule R) (tuple : NetTuple) (toServer : Bool) (payload : List UInt8) :
    Prop :=
  (evaluate rule ⟨tuple, true, toServer, { payload := payload }⟩ {}).isSome = true

namespace Engine

variable {resolve : HeaderResolver} {limits : CompileLimits} {rules : List Rule}

theorem matchedRequests_append (rule : CompiledRule R) (tuple : NetTuple)
    (first rest : List HttpRequest) :
    matchedRequests rule tuple (first ++ rest) =
      matchedRequests rule tuple first ++ matchedRequests rule tuple rest := List.filter_append ..

def HoldsOnRequests (e : Engine R A) (rule : CompiledRule R) (tuple : NetTuple) (toServer : Bool)
    (flowId : UInt64) (ds : List (List UInt8)) : Prop :=
  (toServer && e.ruleset.needsHttp) = true ∧
    matchedRequests rule tuple
      (completedRequests e.limits.normalize (e.parserOf flowId) ds) ≠ []

theorem inspectStream_alerted_iff {e : Engine R A} (he : e.Armed resolve limits rules)
    (hsids : (rules.map Rule.sid).Nodup) {rule : CompiledRule R} (hmem : rule ∈ e.ruleset.rules)
    (hloud : Loud rule) (hbits : ∀ input bits, evaluate rule input bits = evaluate rule input {})
    {stream : List UInt8} (order : HashOrder UInt64) {flowId : UInt64} (tuple : NetTuple)
    {toServer : Bool} (hwindow : Follows e.limits.inspectionWindow stream
    (e.windowOf flowId toServer))
    {bytes : List UInt8} (hne : bytes ≠ []) (timestamp : Instant)
    (hkept : flowId ∉ (e.inspectStream order flowId tuple toServer bytes timestamp).2.evicted) :
    alertsFor rule.sid (e.inspectStream order flowId tuple toServer bytes timestamp).2.alerts ≠ [] ↔
      Holds rule tuple toServer
        (expectedScan e.limits.inspectionWindow (e.longestPattern - 1) stream
        bytes).region ∨
      ((toServer && e.ruleset.needsHttp) = true ∧
        matchedRequests rule tuple (e.requestsOf flowId bytes) ≠ []) := by
  rw [inspectStream_alertsFor e he hsids hmem hloud hbits order tuple hwindow hne timestamp hkept,
    Holds, ne_eq, List.append_eq_nil_iff, not_and_or]
  apply or_congr
  · split_ifs with hregion
    · simp [hregion]
    · simp [hregion]
  · split_ifs with hhttp
    · simp only [hhttp, true_and, List.map_eq_nil_iff, ne_eq]
    · exact ⟨fun h => absurd rfl h, fun h => absurd h.1 hhttp⟩

/-- After a delivery that is read for requests, the heads still to come are those of the rest. -/
theorem holdsOnRequests_cons {e : Engine R A} (rule : CompiledRule R) (order : HashOrder UInt64)
    {flowId : UInt64} (tuple : NetTuple) {toServer : Bool} {bytes : List UInt8} (hne : bytes ≠ [])
    (timestamp : Instant)
    (hkept : flowId ∉ (e.inspectStream order flowId tuple toServer bytes timestamp).2.evicted)
    (ds : List (List UInt8)) :
    e.HoldsOnRequests rule tuple toServer flowId (bytes :: ds) ↔
      ((toServer && e.ruleset.needsHttp) = true ∧
        matchedRequests rule tuple (e.requestsOf flowId bytes) ≠ []) ∨
      (e.inspectStream order flowId tuple toServer bytes timestamp).1.HoldsOnRequests rule tuple
        toServer flowId ds := by
  have hparams := inspectStream_params e order flowId tuple toServer bytes timestamp
  rw [HoldsOnRequests, HoldsOnRequests, ruleset_of_params hparams, limits_of_params hparams,
    ← and_or_left]
  refine and_congr_right (fun hhttp => ?_)
  have hparser : (e.inspectStream order flowId tuple toServer bytes timestamp).1.parserOf flowId =
      ((e.parserOf flowId).push bytes e.limits.normalize).1 := by
    rw [parserOf, inspectStream_contextOf e order flowId tuple toServer bytes timestamp hne hkept,
      if_pos rfl, if_pos hhttp, Option.getD_some]
  have hcompleted : completedRequests e.limits.normalize (e.parserOf flowId) (bytes :: ds) =
      e.requestsOf flowId bytes ++ completedRequests e.limits.normalize
        ((e.parserOf flowId).push bytes e.limits.normalize).1 ds := rfl
  rw [hparser, hcompleted, matchedRequests_append, ne_eq, List.append_eq_nil_iff, not_and_or]

/-- A run of deliveries raises the rule's alert when the rule matches the region of one of them or a
head that one of them completes. -/
theorem run_alerted_iff {e : Engine R A} (he : e.Armed resolve limits rules)
    (hsids : (rules.map Rule.sid).Nodup) {rule : CompiledRule R} (hmem : rule ∈ e.ruleset.rules)
    (hloud : Loud rule) (hbits : ∀ input bits, evaluate rule input bits = evaluate rule input {})
    {tuple : NetTuple} {flowId : UInt64} {toServer : Bool} {stream : List UInt8}
    (hwindow : Follows e.limits.inspectionWindow stream (e.windowOf flowId toServer))
    {calls : List Call} (hcalls : ∀ call ∈ calls, call.DeliversTo flowId tuple toServer)
    (hkept : Runs.Along Engine.step (Engine.KeepsFlow flowId) e calls) :
    Alerted rule.sid (Runs.run Engine.step e calls).2 ↔
      (∃ i bytes, (deliveries flowId toServer calls)[i]? = some bytes ∧
        Holds rule tuple toServer (expectedScan e.limits.inspectionWindow (e.longestPattern - 1)
          (stream ++ ((deliveries flowId toServer calls).take i).flatten) bytes).region) ∨
      e.HoldsOnRequests rule tuple toServer flowId (deliveries flowId toServer calls) := by
  induction calls generalizing e stream with
  | nil => simp [Alerted, deliveries, HoldsOnRequests, completedRequests, matchedRequests]
  | cons call rest ih =>
    have hcall := hcalls call List.mem_cons_self
    cases call with
    | packet order g t d payload timestamp => exact absurd hcall id
    | flowEnd g => exact absurd hcall id
    | stream order g t d bytes timestamp =>
      obtain ⟨rfl, rfl, rfl, hne⟩ := hcall
      have hdelivery : (Call.stream order g t d bytes timestamp).delivery g d = bytes := by
        simp [Call.delivery]
      have hdeliveries : deliveries g d (.stream order g t d bytes timestamp :: rest) =
          bytes :: deliveries g d rest := by
        simp [deliveries, hdelivery, hne]
      have hparams := step_params e (.stream order g t d bytes timestamp)
      have hnext := step_follows hwindow hkept.1
      rw [hdelivery, ← limits_of_params hparams] at hnext
      have hfirst := inspectStream_alerted_iff he hsids hmem hloud hbits order t hwindow
        hne timestamp
        hkept.1.1
      have hrest := ih (he.of_params hparams) (by rw [ruleset_of_params hparams]; exact hmem) hnext
        (fun call hcall => hcalls call (List.mem_cons_of_mem _ hcall)) hkept.2
      rw [limits_of_params hparams, longestPattern_of_params hparams] at hrest
      have hsplit : Alerted rule.sid
            (Runs.run Engine.step e (.stream order g t d bytes timestamp :: rest)).2 ↔
          alertsFor rule.sid (e.inspectStream order g t d bytes timestamp).2.alerts ≠ [] ∨
            Alerted rule.sid (Runs.run Engine.step
              (e.step (.stream order g t d bytes timestamp)).1 rest).2 := by
        simp only [Alerted, Runs.run_cons, List.exists_mem_cons_iff]
        rfl
      have hregions := exists_piece_cons (fun before piece => Holds rule t d
        (expectedScan e.limits.inspectionWindow (e.longestPattern - 1) before piece).region)
        stream bytes (deliveries g d rest)
      rw [hsplit, hfirst, hrest, hdeliveries, hregions,
        holdsOnRequests_cons rule order t hne timestamp hkept.1.1]
      exact or_or_or_comm

end Engine

/-- The region of delivery `i`: the new bytes and up to `longest - 1` bytes before them. -/
def regionOf (longest : ℕ) (ds : List (List UInt8)) (i : ℕ) : List UInt8 :=
  slice ds.flatten (delivered ds i - min (longest - 1) (delivered ds i)) (delivered ds (i + 1))

theorem expectedScan_region_eq_regionOf {window longest : ℕ} {ds : List (List UInt8)}
    (hsize : ds.flatten.length ≤ window) {i : ℕ} {bytes : List UInt8} (hi : ds[i]? = some bytes) :
    (expectedScan window (longest - 1) ((ds.take i).flatten) bytes).region =
      regionOf longest ds i := by
  have htotal := delivered_le ds (i + 1)
  rw [delivered_succ hi] at htotal
  have hjoin : (ds.take i).flatten ++ bytes = ds.flatten.take (delivered ds (i + 1)) := by
    rw [← flatten_take, List.take_add_one, hi]
    simp
  have hlength : ((ds.take i).flatten).length = delivered ds i := rfl
  rw [expectedScan_region_of_fits (by omega), hjoin, hlength, ← delivered_succ hi, regionOf, slice,
    slice, List.take_take, Nat.min_self]

def PositivePayload : RuleOption → Prop
  | .content c => c.buffer = .payload ∧ c.negated = false
  | .pcre p => p.buffer = .payload ∧ p.negated = false
  | .byteTest t => t.negated = false
  | .byteJump _ => True
  | _ => False

theorem flowbitNames_eq_nil_of_positivePayload {resolve : HeaderResolver} {limits : CompileLimits}
    {rule : Rule} {entry : CompiledRule R} (harmed : armed R resolve limits rule = some entry)
    (hoptions : ∀ option ∈ rule.options, PositivePayload option) : entry.flowbitNames = [] := by
  obtain ⟨-, -, -, -, hcompiled⟩ := armed_spec harmed
  rw [CompiledRule.flowbitNames, compileOptions_flowbits hcompiled, List.filterMap_eq_nil_iff]
  intro option hoption
  have hpositive := hoptions option hoption
  cases option with
  | flowBits op => exact absurd hpositive id
  | _ => rfl

/-- A payload content keeps a rule from matching where there is no payload. -/
theorem matchedRequests_eq_nil {rule : CompiledRule R} {c : ContentMatch}
    (hmem : CompiledOption.content c ∈ rule.options) (hbuffer : c.buffer = .payload)
    (hnegated : c.negated = false) (tuple : NetTuple) (requests : List HttpRequest) :
    Engine.matchedRequests rule tuple requests = [] := by
  rw [Engine.matchedRequests, List.filter_eq_nil_iff]
  intro request _ hsome
  obtain ⟨haystack, hget, hne, hoccurs⟩ := occurs_of_evaluate hsome hmem hnegated
  rw [hbuffer] at hget
  obtain rfl : [] = haystack := Option.some.inj hget
  exact Search.not_occurs_nil hne hoccurs

theorem occurs_regionOf {c : ContentMatch} (hc : c.pattern ≠ []) {longest : ℕ}
    (hlongest : c.pattern.length ≤ longest) {ds : List (List UInt8)}
    (h : Search.Occurs (sameByte c.nocase) c.pattern ds.flatten) :
    ∃ i bytes, ds[i]? = some bytes ∧
      Search.Occurs (sameByte c.nocase) c.pattern (regionOf longest ds i) := by
  have hpos : 0 < c.pattern.length := List.length_pos_of_ne_nil hc
  obtain ⟨a, ha⟩ := h
  have hle := ha.le_length hc
  -- the delivery that brings the last byte of the occurrence
  obtain ⟨i, bytes, hi, hlow, hhigh⟩ :=
    exists_delivery (show a + c.pattern.length - 1 < ds.flatten.length by omega)
  refine ⟨i, bytes, hi, _, ha.slice (by omega) ?_⟩
  rw [delivered_succ hi]
  omega

/-- A run of deliveries of a stream that fits the window is decided by the regions, and by the heads
for a rule that matches without a payload. -/
theorem alerted_iff_regions (A : AhoCorasick) {resolve : HeaderResolver} {limits : EngineLimits}
    {rules : List Rule} {rule : Rule} {entry : CompiledRule R} {flowId : UInt64} {tuple : NetTuple}
    {toServer : Bool} (calls : List Call) (hsids : (rules.map Rule.sid).Nodup) (hmem : rule ∈ rules)
    (harmed : armed R resolve limits.compile rule = some entry) (hthreshold : rule.threshold = none)
    (hnoAlert : rule.noAlert = false) (hoptions : ∀ option ∈ rule.options, PositivePayload option)
    (hcalls : ∀ call ∈ calls, call.DeliversTo flowId tuple toServer)
    (hsize : (deliveries flowId toServer calls).flatten.length ≤ limits.inspectionWindow)
    (hkept : Runs.Along Engine.step (Engine.KeepsFlow flowId)
      (Engine.new R A resolve limits rules).1 calls) :
    Alerted rule.sid (Runs.run Engine.step (Engine.new R A resolve limits rules).1 calls).2 ↔
      (∃ i < (deliveries flowId toServer calls).length, Holds entry tuple toServer
        (regionOf (Engine.new R A resolve limits rules).1.longestPattern
          (deliveries flowId toServer calls) i)) ∨
      (Engine.new R A resolve limits rules).1.HoldsOnRequests entry tuple toServer flowId
        (deliveries flowId toServer calls) := by
  set e := (Engine.new R A resolve limits rules).1
  have hsid := (armed_spec harmed).1
  have hhost : rule.isHostRuleByOptions = false := by
    rw [Rule.isHostRuleByOptions, List.any_eq_false]
    intro option hoption
    have hpositive := hoptions option hoption
    cases option with
    | host host => exact absurd hpositive id
    | _ => simp [RuleOption.hostEventKind]
  have hbits : ∀ input bits, evaluate entry input bits = evaluate entry input {} := by
    intro input bits
    apply evaluate_congr_bits
    simp [flowbitNames_eq_nil_of_positivePayload harmed hoptions]
  have hwindow : (deliveries flowId toServer calls).flatten.length ≤ e.limits.inspectionWindow :=
    hsize
  rw [← hsid, Engine.run_alerted_iff (Engine.new_armed resolve limits rules)
    (hsids.sublist (List.filter_sublist.map _)) (mem_new_rules hmem hhost harmed)
    (loud_of_armed harmed hnoAlert hthreshold) hbits
    (Engine.new_follows resolve limits rules flowId toServer) hcalls hkept]
  refine or_congr ⟨?_, ?_⟩ Iff.rfl
  · rintro ⟨i, bytes, hi, h⟩
    rw [List.nil_append, expectedScan_region_eq_regionOf hwindow hi] at h
    exact ⟨i, (List.getElem?_eq_some_iff.1 hi).1, h⟩
  · rintro ⟨i, hi, h⟩
    refine ⟨i, _, List.getElem?_eq_getElem hi, ?_⟩
    rw [List.nil_append, expectedScan_region_eq_regionOf hwindow (List.getElem?_eq_getElem hi)]
    exact h

theorem deliveries_singleton {flowId : UInt64} {tuple : NetTuple} {toServer : Bool} {call : Call}
    (h : call.DeliversTo flowId tuple toServer) :
    deliveries flowId toServer [call] = [call.delivery flowId toServer] := by
  cases call with
  | packet order g t d payload timestamp => exact absurd h id
  | flowEnd g => exact absurd h id
  | stream order g t d bytes timestamp =>
    obtain ⟨rfl, rfl, rfl, hne⟩ := h
    simp [deliveries, Call.delivery, hne]

theorem alerted_iff_whole (A : AhoCorasick) {resolve : HeaderResolver} {limits : EngineLimits}
    {rules : List Rule} {rule : Rule} {entry : CompiledRule R} {flowId : UInt64} {tuple : NetTuple}
    {toServer : Bool} {call : Call} (hsids : (rules.map Rule.sid).Nodup) (hmem : rule ∈ rules)
    (harmed : armed R resolve limits.compile rule = some entry) (hthreshold : rule.threshold = none)
    (hnoAlert : rule.noAlert = false) (hoptions : ∀ option ∈ rule.options, PositivePayload option)
    (hcall : call.DeliversTo flowId tuple toServer)
    (hsize : (call.delivery flowId toServer).length ≤ limits.inspectionWindow)
    (hkept : Runs.Along Engine.step (Engine.KeepsFlow flowId)
      (Engine.new R A resolve limits rules).1 [call]) :
    Alerted rule.sid (Runs.run Engine.step (Engine.new R A resolve limits rules).1 [call]).2 ↔
      Holds entry tuple toServer (call.delivery flowId toServer) ∨
      (Engine.new R A resolve limits rules).1.HoldsOnRequests entry tuple toServer flowId
        [call.delivery flowId toServer] := by
  have hdeliveries := deliveries_singleton hcall
  have hregion (longest : ℕ) (ds : List UInt8) : regionOf longest [ds] 0 = ds := by
    simp [regionOf, slice, delivered]
  have hall := alerted_iff_regions A [call] hsids hmem harmed hthreshold hnoAlert hoptions
    (by simpa using hcall) (by rw [hdeliveries]; simpa using hsize) hkept
  rw [hdeliveries] at hall
  refine hall.trans (or_congr ⟨?_, fun h => ⟨0, by simp, by rw [hregion]; exact h⟩⟩ Iff.rfl)
  rintro ⟨i, hi, h⟩
  obtain rfl : i = 0 := by simpa using hi
  rwa [hregion] at h

/-- A rule with a content matches no completed head: a head has no payload. -/
theorem not_holdsOnRequests_of_content {e : Engine R A} {limits : CompileLimits} {rule : Rule}
    {entry : CompiledRule R} (hcompiled : compileOptions R limits rule.options = .ok entry.options)
    (hoptions : ∀ option ∈ rule.options, PositivePayload option) {c : ContentMatch}
    (hc : RuleOption.content c ∈ rule.options) {tuple : NetTuple} {toServer : Bool}
    {flowId : UInt64}
    {ds : List (List UInt8)} : ¬ e.HoldsOnRequests entry tuple toServer flowId ds := by
  obtain ⟨hbuffer, hnegated⟩ := hoptions _ hc
  intro hrequests
  exact hrequests.2 (matchedRequests_eq_nil (mem_compileOptions hcompiled hc) hbuffer hnegated _ _)

/-- Delivered in one piece, a rule alerts when it matches the stream; cut, when it matches the
region of some delivery. A rule without a content may also match a completed head, by matching no
payload at all. For rules of plain contents a cut adds no alert, and for one plain content it loses
none. -/
theorem cut_alerts_iff (R : Regex) (A : AhoCorasick) (resolve : HeaderResolver)
    (limits : EngineLimits) (rules : List Rule) (rule : Rule) (entry : CompiledRule R)
    (flowId : UInt64) (tuple : NetTuple) (toServer : Bool) (whole : Call) (pieces : List Call)
    (hsids : (rules.map Rule.sid).Nodup) (hmem : rule ∈ rules)
    (harmed : armed R resolve limits.compile rule = some entry) (hthreshold : rule.threshold = none)
    (hnoAlert : rule.noAlert = false) (hoptions : ∀ option ∈ rule.options, PositivePayload option)
    (hwhole : whole.DeliversTo flowId tuple toServer)
    (hpieces : ∀ call ∈ pieces, call.DeliversTo flowId tuple toServer)
    (hsame : whole.delivery flowId toServer = (deliveries flowId toServer pieces).flatten)
    (hsize : (deliveries flowId toServer pieces).flatten.length ≤ limits.inspectionWindow)
    (hkeptWhole : Runs.Along Engine.step (Engine.KeepsFlow flowId)
      (Engine.new R A resolve limits rules).1 [whole])
    (hkept : Runs.Along Engine.step (Engine.KeepsFlow flowId)
      (Engine.new R A resolve limits rules).1 pieces) :
    let e := (Engine.new R A resolve limits rules).1
    let ds := deliveries flowId toServer pieces
    let inOnePiece := Alerted rule.sid (Runs.run Engine.step e [whole]).2
    let cut := Alerted rule.sid (Runs.run Engine.step e pieces).2
    (inOnePiece ↔ Holds entry tuple toServer ds.flatten ∨
        e.HoldsOnRequests entry tuple toServer flowId [ds.flatten]) ∧
      (cut ↔ (∃ i < ds.length, Holds entry tuple toServer (regionOf e.longestPattern ds i)) ∨
        e.HoldsOnRequests entry tuple toServer flowId ds) ∧
      ((∃ c, RuleOption.content c ∈ rule.options) →
        ∀ ds, ¬ e.HoldsOnRequests entry tuple toServer flowId ds) ∧
      ((∃ contents : List ContentMatch, rule.options = contents.map .content ∧
        ∀ c ∈ contents, Plain c) → cut → inOnePiece) ∧
      ((∃ c, rule.options = [.content c] ∧ Plain c) → (inOnePiece ↔ cut)) := by
  intro e ds inOnePiece cut
  obtain ⟨-, -, -, -, hcompiled⟩ := armed_spec harmed
  have hcut : cut ↔ (∃ i < ds.length, Holds entry tuple toServer (regionOf e.longestPattern ds i)) ∨
      e.HoldsOnRequests entry tuple toServer flowId ds :=
    alerted_iff_regions A pieces hsids hmem harmed hthreshold hnoAlert hoptions hpieces hsize hkept
  have hone : inOnePiece ↔ Holds entry tuple toServer ds.flatten ∨
      e.HoldsOnRequests entry tuple toServer flowId [ds.flatten] := by
    rw [← hsame]
    exact alerted_iff_whole A hsids hmem harmed hthreshold hnoAlert hoptions hwhole
      (by rw [hsame]; exact hsize) hkeptWhole
  have hcontent (h : ∃ c, RuleOption.content c ∈ rule.options) (ds : List (List UInt8)) :
      ¬ e.HoldsOnRequests entry tuple toServer flowId ds :=
    not_holdsOnRequests_of_content hcompiled hoptions h.choose_spec
  have hentryOptions (contents : List ContentMatch) (h : rule.options = contents.map .content) :
      entry.options = contents.map .content := by
    rw [h, compileOptions_contents] at hcompiled
    exact (Except.ok.inj hcompiled).symm
  have hlosesOnly (contents : List ContentMatch) (h : rule.options = contents.map .content)
      (hplain : ∀ c ∈ contents, Plain c) (halerted : cut) : inOnePiece := by
    have hmatches := evaluate_plain_iff (hentryOptions contents h) hplain
    rcases hcut.1 halerted with ⟨i, _, hmatch⟩ | hrequests
    · obtain ⟨hheader, hoccurs⟩ := (hmatches _ _).1 hmatch
      exact hone.2 (Or.inl ((hmatches _ _).2
        ⟨hheader, fun c hc => Search.occurs_of_slice (hoccurs c hc)⟩))
    · -- only a rule with no option at all matches a head, and it matches everything
      cases contents with
      | nil =>
        obtain ⟨request, hrequest⟩ := List.exists_mem_of_ne_nil _ hrequests.2
        obtain ⟨hheader, -⟩ := (hmatches _ _).1 (List.mem_filter.1 hrequest).2
        exact hone.2 (Or.inl ((hmatches _ _).2 ⟨hheader, by simp⟩))
      | cons c rest => exact absurd hrequests (hcontent ⟨c, by simp [h]⟩ ds)
  refine ⟨hone, hcut, hcontent, fun h => hlosesOnly h.choose h.choose_spec.1 h.choose_spec.2, ?_⟩
  rintro ⟨c, h, hplain⟩
  have hcontents : ∀ c' ∈ [c], Plain c' := fun c' hc' => List.mem_singleton.1 hc' ▸ hplain
  have hmatches := evaluate_plain_iff (hentryOptions [c] h) hcontents
  refine ⟨fun halerted => ?_, hlosesOnly [c] h hcontents⟩
  obtain ⟨hheader, hoccurs⟩ := (hmatches _ _).1
    ((hone.1 halerted).resolve_right (hcontent ⟨c, by simp [h]⟩ _))
  have hlongest : c.pattern.length ≤ e.longestPattern :=
    le_longestPatternOf (mem_new_rules hmem
      (by simp [Rule.isHostRuleByOptions, h, RuleOption.hostEventKind]) harmed)
      (by simp [hentryOptions [c] h])
  obtain ⟨i, bytes, hi, hregion⟩ := occurs_regionOf hplain.pattern hlongest (hoccurs c (by simp))
  refine hcut.2 (Or.inl ⟨i, (List.getElem?_eq_some_iff.1 hi).1, (hmatches _ _).2 ⟨hheader, ?_⟩⟩)
  intro c' hc'
  rw [List.mem_singleton.1 hc']
  exact hregion

/-- The stream `xab` in one piece and cut inside the pattern. -/
theorem cut_alerts_iff_split_pattern :
    Alerted abRule.sid (Runs.run Engine.step
        (Engine.new Regex.none AhoCorasick.exhaustive resolveAny {} [abRule]).1
        [sampleDelivery [0x78, 0x61, 0x62]]).2 ∧
      Alerted abRule.sid (Runs.run Engine.step
        (Engine.new Regex.none AhoCorasick.exhaustive resolveAny {} [abRule]).1
        [sampleDelivery [0x78, 0x61], sampleDelivery [0x62]]).2 := by
  have hplain : Plain abContent := ⟨by decide, rfl, rfl, rfl, rfl, rfl, rfl⟩
  have hiff := cut_alerts_iff Regex.none AhoCorasick.exhaustive resolveAny {} [abRule] abRule _ 7
    sampleTuple true (sampleDelivery [0x78, 0x61, 0x62])
    [sampleDelivery [0x78, 0x61], sampleDelivery [0x62]] (List.nodup_singleton _)
    List.mem_cons_self rfl rfl rfl
    (by
      intro option hoption
      rw [show option = .content abContent from List.mem_singleton.1 hoption]
      exact ⟨rfl, rfl⟩)
    ⟨rfl, rfl, rfl, by decide⟩
    (by
      intro call hcall
      rcases List.mem_cons.1 hcall with heq | hrest
      · rw [heq]
        exact ⟨rfl, rfl, rfl, by decide⟩
      · rw [List.mem_singleton.1 hrest]
        exact ⟨rfl, rfl, rfl, by decide⟩)
    (by decide +kernel) (by decide +kernel) ⟨⟨by decide +kernel, id⟩, trivial⟩
    ⟨⟨by decide +kernel, id⟩, ⟨by decide +kernel, id⟩, trivial⟩
  have hwhole := hiff.1.2 (Or.inl (by unfold Holds; decide +kernel))
  exact ⟨hwhole, (hiff.2.2.2.2 ⟨abContent, rfl, hplain⟩).1 hwhole⟩

/-- Two contents with the cut between them are found in one piece only; a content within the first
five bytes is found in `xxxxabc` only when the cut moves the start of the region. -/
theorem cut_changes_alerts :
    (let e := sampleEngine {} [contentRule 1 [abContent, { pattern := [0x63, 0x64] }]]
     Alerted 1 (Runs.run Engine.step e [sampleDelivery [0x61, 0x62, 0x63, 0x64]]).2 ∧
      ¬ Alerted 1 (Runs.run Engine.step e
        [sampleDelivery [0x61, 0x62], sampleDelivery [0x63, 0x64]]).2) ∧
    (let e := sampleEngine {} [contentRule 1 [{ pattern := [0x61, 0x62, 0x63], depth := some 5 }]]
     ¬ Alerted 1 (Runs.run Engine.step e
        [sampleDelivery [0x78, 0x78, 0x78, 0x78, 0x61, 0x62, 0x63]]).2 ∧
      Alerted 1 (Runs.run Engine.step e
        [sampleDelivery [0x78, 0x78, 0x78, 0x78], sampleDelivery [0x61, 0x62, 0x63]]).2) := by
  unfold Alerted
  decide +kernel

end CyberSentinel.Detect
