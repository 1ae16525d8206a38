import CyberSentinel.Alerts
import CyberSentinel.HostRules
import CyberSentinel.InspectionWindow

/-!
# Pass rules

A rule whose action is `pass` is to stop the evaluation of its input and to emit nothing. The action
is read by nothing behind the parser but the question whether a rule blocks, so a pass rule is
compiled and alerts like any other. An input is treated as asked exactly when no pass rule matches
it, or when every rule that matches it is silent: by `noalert`, or because its threshold holds it
back. Whether a threshold does so is decided by the counters before the input, since no two rules
share one.
-/

namespace CyberSentinel.Detect

open Rules Tables

structure Hit (κ : Type) where
  sid : UInt32
  noAlert : Bool
  /-- Its threshold, with what it counts against. -/
  counter : Option (Threshold × κ)

variable {κ : Type} [DecidableEq κ]

namespace Hit

omit [DecidableEq κ] in
theorem nodup_begins {hits before after : List (Hit κ)} {hit : Hit κ}
    (hsids : (hits.map Hit.sid).Nodup) (heq : hits = before ++ hit :: after) :
    (before.map Hit.sid ++ [hit.sid]).Nodup := by
  rw [heq, List.map_append, List.map_cons] at hsids
  exact hsids.sublist (List.Sublist.append (List.Sublist.refl _)
    (List.Sublist.cons_cons _ (List.nil_sublist _)))

/-- Count the hit; the answer is whether it alerts. -/
def step (maxEntries : ℕ) (now : Instant) (t : Table (UInt32 × κ) ThresholdEntry) (hit : Hit κ) :
    Table (UInt32 × κ) ThresholdEntry × Bool :=
  if hit.noAlert then (t, false)
  else
    match hit.counter with
    | none => (t, true)
    | some (threshold, key) => countEvent maxEntries t hit.sid threshold key now

def opens (t : Table (UInt32 × κ) ThresholdEntry) (hit : Hit κ) : Bool :=
  !hit.noAlert && hit.counter.any (fun c => (t.lookup (hit.sid, c.2)).isNone)

def nextCount (entry : ThresholdEntry) (threshold : Threshold) (now : Instant) : UInt32 :=
  (if threshold.seconds.toNat * nanosPerSecond ≤ elapsed now entry.windowStart then 0
    else entry.count) + 1

/-- The threshold holds the alert back, when `opened` counters were asked for before. There is no
room for a counter in a full table, and an alert that is not counted is not held back. -/
def heldBack (maxEntries : ℕ) (now : Instant) (t : Table (UInt32 × κ) ThresholdEntry) (opened : ℕ)
    (hit : Hit κ) : Bool :=
  hit.counter.any fun c =>
    match t.lookup (hit.sid, c.2) with
    | none => size t + opened < maxEntries && !ThresholdKind.allows c.1.kind 1 c.1.count
    | some entry => !ThresholdKind.allows c.1.kind (nextCount entry c.1 now) c.1.count

def silent (maxEntries : ℕ) (now : Instant) (t : Table (UInt32 × κ) ThresholdEntry) (opened : ℕ)
    (hit : Hit κ) : Bool :=
  hit.noAlert || hit.heldBack maxEntries now t opened

variable {maxEntries : ℕ} {now : Instant}

theorem step_snd (t : Table (UInt32 × κ) ThresholdEntry) (hit : Hit κ) :
    (hit.step maxEntries now t).2 = !hit.silent maxEntries now t 0 := by
  rw [step, silent]
  cases hit.noAlert with
  | true => rfl
  | false =>
    rw [heldBack]
    cases hit.counter with
    | none => rfl
    | some c =>
      obtain ⟨threshold, key⟩ := c
      simp only [countEvent, Option.any_some, Bool.false_eq_true, if_false, Bool.false_or,
        Nat.add_zero]
      cases t.lookup (hit.sid, key) with
      | none =>
        by_cases hfull : maxEntries ≤ size t
        · simp [hfull]
        · simp [hfull, not_le.1 hfull]
      | some entry =>
        simp only [nextCount, Bool.not_not]
        split_ifs
        · rfl
        · rfl

theorem step_lookup (t : Table (UInt32 × κ) ThresholdEntry) (hit : Hit κ) {sid : UInt32}
    (h : sid ≠ hit.sid) (key : κ) :
    (hit.step maxEntries now t).1.lookup (sid, key) = t.lookup (sid, key) := by
  rw [step]
  split_ifs with hsilent
  · rfl
  · cases hit.counter with
    | none => rfl
    | some c =>
      obtain ⟨threshold, counted⟩ := c
      have hne : (sid, key) ≠ (hit.sid, counted) := fun heq => h (congrArg Prod.fst heq)
      simp only [countEvent]
      cases t.lookup (hit.sid, counted) with
      | none =>
        dsimp only
        split_ifs
        · rfl
        · exact AList.lookup_insert_ne hne
      | some entry => exact AList.lookup_insert_ne hne

/-- A hit takes a place in the table exactly when it opens a counter and there is one left. -/
theorem full_step_iff (t : Table (UInt32 × κ) ThresholdEntry) (hit : Hit κ) (k : ℕ) :
    size (hit.step maxEntries now t).1 + k < maxEntries ↔
      size t + ((if hit.opens t then 1 else 0) + k) < maxEntries := by
  rw [step, opens]
  cases hit.noAlert with
  | true => simp
  | false =>
    cases hit.counter with
    | none => simp
    | some c =>
      obtain ⟨threshold, key⟩ := c
      simp only [countEvent, Option.any_some, Bool.false_eq_true, if_false, Bool.not_false,
        Bool.true_and]
      cases hlookup : t.lookup (hit.sid, key) with
      | none =>
        by_cases hfull : maxEntries ≤ size t
        · simp only [hfull, if_true, Option.isNone_none]
          omega
        · simp only [hfull, if_false, Option.isNone_none, if_true, size_insert, hlookup,
            Option.isSome_none, Bool.false_eq_true]
          omega
      | some entry =>
        simp only [size_insert, hlookup, Option.isSome_some, Option.isNone_some, if_true,
          Bool.false_eq_true, if_false]
        omega

theorem silent_step (t : Table (UInt32 × κ) ThresholdEntry) (first hit : Hit κ)
    (h : hit.sid ≠ first.sid) (opened : ℕ) :
    hit.silent maxEntries now (first.step maxEntries now t).1 opened =
      hit.silent maxEntries now t ((if first.opens t then 1 else 0) + opened) := by
  have hroom : decide (size (first.step maxEntries now t).1 + opened < maxEntries) =
      decide (size t + ((if first.opens t then 1 else 0) + opened) < maxEntries) :=
    decide_eq_decide.2 (full_step_iff t first opened)
  simp only [silent, heldBack, step_lookup t first h, hroom]

theorem opens_step (t : Table (UInt32 × κ) ThresholdEntry) (first hit : Hit κ)
    (h : hit.sid ≠ first.sid) : hit.opens (first.step maxEntries now t).1 = hit.opens t := by
  simp only [opens, step_lookup t first h]

/-- Whether a hit is silent after others is decided by the table before them. -/
theorem silent_run (before : List (Hit κ)) (t : Table (UInt32 × κ) ThresholdEntry) (hit : Hit κ)
    (hsids : (before.map Hit.sid ++ [hit.sid]).Nodup) (opened : ℕ) :
    hit.silent maxEntries now (Runs.run (step maxEntries now) t before).1 opened =
      hit.silent maxEntries now t (before.countP (opens t) + opened) := by
  induction before generalizing t opened with
  | nil => rw [Runs.run_nil, List.countP_nil, Nat.zero_add]
  | cons first rest ih =>
    rw [List.map_cons, List.cons_append] at hsids
    obtain ⟨hfirst, hrest⟩ := List.nodup_cons.1 hsids
    rw [List.mem_append, not_or, List.mem_singleton] at hfirst
    have hcount : rest.countP (opens (first.step maxEntries now t).1) = rest.countP (opens t) := by
      refine List.countP_congr (fun other hother => ?_)
      rw [opens_step t first other
        (fun heq => hfirst.1 (heq ▸ List.mem_map_of_mem (f := Hit.sid) hother))]
    rw [Runs.run_cons, ih _ hrest, silent_step t first hit (Ne.symm hfirst.2), hcount,
      List.countP_cons]
    congr 1
    omega

end Hit

/-- Every hit is silent, each with the counters that those before it have opened. -/
def AllSilent (maxEntries : ℕ) (now : Instant) (t : Table (UInt32 × κ) ThresholdEntry)
    (hits : List (Hit κ)) : Prop :=
  ∀ before hit after, hits = before ++ hit :: after →
    hit.silent maxEntries now t (before.countP (Hit.opens t)) = true

theorem allSilent_iff {maxEntries : ℕ} {now : Instant} (t : Table (UInt32 × κ) ThresholdEntry)
    {hits : List (Hit κ)} (hsids : (hits.map Hit.sid).Nodup) :
    AllSilent maxEntries now t hits ↔
      ∀ answer ∈ (Runs.run (Hit.step maxEntries now) t hits).2, answer = false := by
  have halong : (∀ answer ∈ (Runs.run (Hit.step maxEntries now) t hits).2, answer = false) ↔
      Runs.Along (Hit.step maxEntries now)
        (fun t (hit : Hit κ) => (hit.step maxEntries now t).2 = false) t hits := by
    clear hsids
    induction hits generalizing t with
    | nil => simp [Runs.Along]
    | cons hit rest ih => rw [Runs.run_cons, List.forall_mem_cons, ih, Runs.Along]
  rw [halong, Runs.along_iff]
  refine forall_congr' (fun before => forall_congr' (fun hit => forall_congr' (fun after => ?_)))
  refine imp_congr_right (fun heq => ?_)
  rw [Hit.step_snd, Hit.silent_run before t hit (Hit.nodup_begins hsids heq) 0, Nat.add_zero,
    Bool.not_eq_false']

/-- No alert carries the identifier of a pass rule, and where a pass rule matches there is none. -/
def Suppresses (rules : List Rule) (Matches : Rule → Prop) (alerts : List AlertRecord) : Prop :=
  (∀ alert ∈ alerts, ∀ rule ∈ rules, rule.header.action = .pass → alert.sid ≠ rule.sid) ∧
    ∀ rule ∈ rules, rule.header.action = .pass → Matches rule → alerts = []

section Loop

variable {ρ σ : Type} (matched : ρ → Bool) (hit : ρ → Hit κ) (record : ρ → AlertRecord)

def spoken (record : ρ → AlertRecord) (rules : List ρ) (answers : List Bool) : List AlertRecord :=
  ((rules.zip answers).filter Prod.snd).map (fun p => record p.1)

omit [DecidableEq κ] in
theorem spoken_cons (rule : ρ) (rules : List ρ) (answer : Bool) (answers : List Bool) :
    spoken record (rule :: rules) (answer :: answers) =
      (if answer then [record rule] else []) ++ spoken record rules answers := by
  cases answer with
  | true => rfl
  | false => rfl

/-- A loop that passes over the rules that do not match and counts the others. -/
theorem foldl_spoken {maxEntries : ℕ} {now : Instant}
    (thresholds : σ → Table (UInt32 × κ) ThresholdEntry) (alerts : σ → List AlertRecord)
    (judge : σ → ρ → σ) (hskip : ∀ t rule, matched rule = false → judge t rule = t)
    (hhit : ∀ t rule, matched rule = true →
      thresholds (judge t rule) = ((hit rule).step maxEntries now (thresholds t)).1 ∧
        alerts (judge t rule) = alerts t ++
          if ((hit rule).step maxEntries now (thresholds t)).2 then [record rule] else [])
    (rules : List ρ) (t : σ) :
    alerts (rules.foldl judge t) = alerts t ++ spoken record (rules.filter matched)
      (Runs.run (Hit.step maxEntries now) (thresholds t) ((rules.filter matched).map hit)).2 := by
  induction rules generalizing t with
  | nil => simp [spoken]
  | cons rule rest ih =>
    rw [List.foldl_cons, ih]
    cases hmatched : matched rule with
    | false =>
      rw [hskip t rule hmatched, List.filter_cons_of_neg (by simp [hmatched])]
    | true =>
      obtain ⟨htable, halerts⟩ := hhit t rule hmatched
      rw [List.filter_cons_of_pos hmatched, List.map_cons, Runs.run_cons, spoken_cons, halerts,
        htable, List.append_assoc]

variable {matched hit record}

omit [DecidableEq κ] in
theorem spoken_eq_nil_iff (record : ρ → AlertRecord) {rules : List ρ} {answers : List Bool}
    (hlength : answers.length = rules.length) :
    spoken record rules answers = [] ↔ ∀ answer ∈ answers, answer = false := by
  induction rules generalizing answers with
  | nil =>
    rw [List.length_nil, List.length_eq_zero_iff] at hlength
    simp [hlength, spoken]
  | cons rule rest ih =>
    cases answers with
    | nil => simp at hlength
    | cons answer others =>
      rw [spoken_cons, List.append_eq_nil_iff, ih (Nat.succ.inj hlength), List.forall_mem_cons]
      refine and_congr_left (fun _ => ?_)
      cases answer with
      | true => simp
      | false => simp

omit [DecidableEq κ] in
theorem mem_spoken {rules : List ρ} {answers : List Bool} {alert : AlertRecord}
    (h : alert ∈ spoken record rules answers) : ∃ rule ∈ rules, alert = record rule := by
  obtain ⟨p, hp, rfl⟩ := List.mem_map.1 h
  exact ⟨p.1, (List.of_mem_zip (List.mem_filter.1 hp).1).1, rfl⟩

/-- The loop treats its input as asked exactly when no pass rule matches it or nothing that matches
is heard. -/
theorem suppresses_spoken_iff {maxEntries : ℕ} {now : Instant}
    (t : Table (UInt32 × κ) ThresholdEntry) {rules : List Rule} (hsids : (rules.map Rule.sid).Nodup)
    {Matches : Rule → Prop} {entries : List ρ}
    (hentries : (entries.map (fun entry => (hit entry).sid)).Nodup)
    (hrecord : ∀ entry, (record entry).sid = (hit entry).sid)
    (hsource : ∀ entry ∈ entries, matched entry = true →
      ∃ rule ∈ rules, rule.sid = (hit entry).sid ∧ Matches rule) :
    Suppresses rules Matches (spoken record (entries.filter matched)
        (Runs.run (Hit.step maxEntries now) t ((entries.filter matched).map hit)).2) ↔
      (∀ rule ∈ rules, rule.header.action = .pass → ¬Matches rule) ∨
        AllSilent maxEntries now t ((entries.filter matched).map hit) := by
  have hhits : (((entries.filter matched).map hit).map Hit.sid).Nodup := by
    rw [List.map_map]
    exact hentries.sublist ((List.filter_sublist).map _)
  have hlength : (Runs.run (Hit.step maxEntries now) t
      ((entries.filter matched).map hit)).2.length =
      (entries.filter matched).length := by
    rw [Runs.length_run, List.length_map]
  rw [allSilent_iff t hhits, ← spoken_eq_nil_iff record hlength]
  generalize (Runs.run (Hit.step maxEntries now) t ((entries.filter matched).map hit)).2 = answers
  constructor
  · rintro ⟨-, hnone⟩
    by_cases hpass : ∃ rule ∈ rules, rule.header.action = .pass ∧ Matches rule
    · obtain ⟨rule, hrule, haction, hmatches⟩ := hpass
      exact Or.inr (hnone rule hrule haction hmatches)
    · exact Or.inl (fun rule hrule haction hmatches => hpass ⟨rule, hrule, haction, hmatches⟩)
  · rintro (hpass | hnil)
    · refine ⟨?_, fun rule hrule haction hmatches => absurd hmatches (hpass rule hrule haction)⟩
      intro alert halert rule hrule haction hsid
      obtain ⟨entry, hentry, rfl⟩ := mem_spoken halert
      obtain ⟨hmem, hmatched⟩ := List.mem_filter.1 hentry
      obtain ⟨source, hsourceMem, hsourceSid, hmatches⟩ := hsource entry hmem hmatched
      have hsame : source = rule := List.inj_on_of_nodup_map hsids hsourceMem hrule
        (by rw [hsourceSid, ← hrecord, hsid])
      exact hpass rule hrule haction (hsame ▸ hmatches)
    · rw [hnil]
      exact ⟨fun alert halert => absurd halert List.not_mem_nil, fun _ _ _ _ => rfl⟩

end Loop

section Network

variable {R : Regex} {A : AhoCorasick}

def CompiledRule.hit (tuple : NetTuple) (rule : CompiledRule R) : Hit String where
  sid := rule.sid
  noAlert := rule.noAlert
  counter := rule.threshold.map (fun threshold => (threshold, Track.key threshold.track tuple))

theorem thresholdAllows_step (maxEntries : ℕ) (now : Instant) (thresholds : Thresholds)
    (tuple : NetTuple) (rule : CompiledRule R) (h : rule.noAlert = false) :
    (thresholdAllows maxEntries thresholds rule.sid rule.threshold tuple now).thresholds =
        ((rule.hit tuple).step maxEntries now thresholds).1 ∧
      (thresholdAllows maxEntries thresholds rule.sid rule.threshold tuple now).allowed =
        ((rule.hit tuple).step maxEntries now thresholds).2 := by
  obtain ⟨sid, rev, msg, classtype, severity, blocks, metadata, header, options, threshold, noAlert,
    needsHttp, origin⟩ := rule
  obtain rfl : noAlert = false := h
  cases threshold with
  | none => exact ⟨rfl, rfl⟩
  | some threshold =>
    exact countAgainstThreshold_eq maxEntries thresholds sid threshold
      (Track.key threshold.track tuple) now

theorem judge_hit (limits : EngineLimits) (input : MatchInput) (now : Instant) (bits : FlowBits)
    (t : Tally) (rule : CompiledRule R) (h : (evaluate rule input bits).isSome = true) :
    (Tally.judge limits input now bits t rule).thresholds =
        ((rule.hit input.tuple).step limits.maxThresholdEntries now t.thresholds).1 ∧
      (Tally.judge limits input now bits t rule).alerts = t.alerts ++
        if ((rule.hit input.tuple).step limits.maxThresholdEntries now t.thresholds).2
        then [rule.record] else [] := by
  obtain ⟨outcome, heval⟩ := Option.isSome_iff_exists.1 h
  simp only [Tally.judge, heval, Tally.hit]
  by_cases hnoalert : rule.noAlert = true
  · have hstep : (rule.hit input.tuple).step limits.maxThresholdEntries now t.thresholds =
        (t.thresholds, false) := if_pos hnoalert
    simp [hnoalert, hstep]
  · obtain ⟨htable, hallowed⟩ := thresholdAllows_step limits.maxThresholdEntries now t.thresholds
      input.tuple rule (by simpa using hnoalert)
    rw [if_neg hnoalert, hallowed, ← htable]
    split_ifs
    · exact ⟨rfl, rfl⟩
    · exact ⟨rfl, (List.append_nil _).symm⟩

def PacketMatches (R : Regex) (resolve : HeaderResolver) (limits : CompileLimits)
    (input : MatchInput) (bits : FlowBits) (rule : Rule) : Prop :=
  rule.isHostRuleByOptions = false ∧
    ∃ entry, armed R resolve limits rule = some entry ∧ (evaluate entry input bits).isSome = true

def Engine.hits (e : Engine R A) (input : MatchInput) (bits : FlowBits) :
    List (Hit String) :=
  (e.ruleset.rules.filter (fun rule => (evaluate rule input bits).isSome)).map
    (CompiledRule.hit input.tuple)

theorem inspectBuffers_alerts (e : Engine R A) {resolve : HeaderResolver} {limits : CompileLimits}
    {rules : List Rule} (he : e.Armed resolve limits rules) (order : HashOrder UInt64)
    (flowId : UInt64) (tuple : NetTuple) (toServer established : Bool) (shape : Inspected)
    (timestamp : Instant) :
    let input : MatchInput := ⟨tuple, established, toServer, shape.buffers⟩
    let bits := (e.stateOf flowId).bits
    (e.inspectBuffers order flowId tuple toServer established shape.buffers shape.prefilterBuffers
        timestamp).2.alerts =
      spoken CompiledRule.record (e.ruleset.rules.filter (fun rule =>
      (evaluate rule input bits).isSome))
        (Runs.run (Hit.step e.limits.maxThresholdEntries timestamp) e.thresholds
          (e.hits input bits)).2 := by
  intro input bits
  rw [Engine.inspectBuffers_eq e he]
  exact foldl_spoken (fun rule => (evaluate rule input bits).isSome) (CompiledRule.hit tuple)
    CompiledRule.record Tally.thresholds Tally.alerts (Tally.judge e.limits input timestamp bits)
    (fun t rule h => judge_of_not_matched _ _ _ _ t rule (by simpa using h))
    (fun t rule h => judge_hit e.limits input timestamp bits t rule h) _ _

/-- A payload or a request is treated as asked exactly when no pass rule matches it or all that
matches is silent. -/
theorem inspectBuffers_suppresses_iff {resolve : HeaderResolver} {limits : CompileLimits}
    {rules : List Rule} (hsids : (rules.map Rule.sid).Nodup) (e : Engine R A)
    (he : e.Armed resolve limits (rules.filter (fun rule => !rule.isHostRuleByOptions)))
    (order : HashOrder UInt64) (flowId : UInt64) (tuple : NetTuple) (toServer established : Bool)
    (shape : Inspected) (timestamp : Instant) :
    let input : MatchInput := ⟨tuple, established, toServer, shape.buffers⟩
    let bits := (e.stateOf flowId).bits
    Suppresses rules (PacketMatches R resolve limits input bits)
        (e.inspectBuffers order flowId tuple toServer established shape.buffers
          shape.prefilterBuffers timestamp).2.alerts ↔
      (∀ rule ∈ rules, rule.header.action = .pass →
      ¬PacketMatches R resolve limits input bits rule) ∨
        AllSilent e.limits.maxThresholdEntries timestamp e.thresholds (e.hits input bits) := by
  intro input bits
  have hrules : e.ruleset.rules =
      (rules.filter (fun rule => !rule.isHostRuleByOptions)).filterMap
      (armed R resolve limits) := by
    rw [he, compile_rules]
  rw [inspectBuffers_alerts e he]
  refine suppresses_spoken_iff e.thresholds hsids ?_ (fun _ => rfl) ?_
  · rw [hrules]
    exact nodup_compiled_sids resolve limits (hsids.sublist (List.filter_sublist.map _))
  · intro entry hentry hmatched
    rw [hrules] at hentry
    obtain ⟨rule, hrule, harmed⟩ := List.mem_filterMap.1 hentry
    obtain ⟨hmem, hnetwork⟩ := List.mem_filter.1 hrule
    exact ⟨rule, hmem, (armed_spec harmed).1.symm, by simpa using hnetwork, entry, harmed, hmatched⟩

end Network

section Host

variable {T : TextRegex}

def CompiledHostRule.hit (subject : String) (rule : CompiledHostRule T) : Hit String where
  sid := rule.sid
  noAlert := rule.noAlert
  counter := rule.threshold.map (fun threshold =>
    (threshold, Track.hostKey threshold.track subject))

theorem hostThresholdAllows_step (maxEntries : ℕ) (now : Instant) (thresholds : Thresholds)
    (subject : String) (rule : CompiledHostRule T) (h : rule.noAlert = false) :
    hostThresholdAllows maxEntries thresholds rule.sid rule.threshold subject now =
      (rule.hit subject).step maxEntries now thresholds := by
  obtain ⟨sid, rev, msg, classtype, severity, metadata, kind, threshold, noAlert, origin,
    conditions⟩ := rule
  obtain rfl : noAlert = false := h
  cases threshold with
  | none => rfl
  | some threshold => rfl

theorem judgeHost_hit (limits : EngineLimits) (observation : HostObservation) (now : Instant)
    (bits : FlowBits) (t : HostTally) (rule : CompiledHostRule T)
    (h : (evaluateHost rule observation bits).isSome = true) :
    (HostTally.judge limits observation now bits t rule).thresholds =
        ((rule.hit observation.subject).step limits.maxThresholdEntries now t.thresholds).1 ∧
      (HostTally.judge limits observation now bits t rule).alerts = t.alerts ++
        if ((rule.hit observation.subject).step limits.maxThresholdEntries now t.thresholds).2
        then [rule.record] else [] := by
  obtain ⟨outcome, heval⟩ := Option.isSome_iff_exists.1 h
  simp only [HostTally.judge, heval, HostTally.hit]
  by_cases hnoalert : rule.noAlert = true
  · have hstep : (rule.hit observation.subject).step limits.maxThresholdEntries now t.thresholds =
        (t.thresholds, false) := if_pos hnoalert
    simp [hnoalert, hstep]
  · rw [if_neg hnoalert, hostThresholdAllows_step limits.maxThresholdEntries now t.thresholds
      observation.subject rule (by simpa using hnoalert)]
    split_ifs
    · exact ⟨rfl, rfl⟩
    · exact ⟨rfl, (List.append_nil _).symm⟩

theorem judgeHost_of_not_matched (limits : EngineLimits) (observation : HostObservation)
    (now : Instant) (bits : FlowBits) (t : HostTally) (rule : CompiledHostRule T)
    (h : evaluateHost rule observation bits = none) :
    HostTally.judge limits observation now bits t rule = t := by
  simp only [HostTally.judge, h]

theorem armedHost_sid {limits : CompileLimits} {rule : Rule} {entry : CompiledHostRule T}
    (h : armedHost T limits rule = some entry) : entry.sid = rule.sid := by
  rw [armedHost] at h
  split_ifs at h
  rw [compileHostRule] at h
  split at h
  · cases h
  · cases h
  · split at h
    · cases h
    · cases h
      rfl

theorem nodup_armedHost_sids (limits : CompileLimits) {rules : List Rule}
    (h : (rules.map Rule.sid).Nodup) :
    ((rules.filterMap (armedHost T limits)).map CompiledHostRule.sid).Nodup := by
  have hsub : List.Sublist ((rules.filterMap (armedHost T limits)).map CompiledHostRule.sid)
      (rules.map Rule.sid) := by
    clear h
    induction rules with
    | nil => exact List.Sublist.refl _
    | cons rule rest ih =>
      rw [List.filterMap_cons]
      cases hentry : armedHost T limits rule with
      | none => exact ih.cons _
      | some entry =>
        rw [List.map_cons, List.map_cons, armedHost_sid hentry]
        exact ih.cons_cons _
  exact h.sublist hsub

def HostMatches (T : TextRegex) (limits : CompileLimits) (observation : HostObservation)
    (bits : FlowBits) (rule : Rule) : Prop :=
  rule.isHostRuleByOptions = true ∧ ∃ entry, armedHost T limits rule = some entry ∧
    (evaluateHost entry observation bits).isSome = true

def HostEngine.hits (e : HostEngine T) (observation : HostObservation) : List (Hit String) :=
  (e.rules.rules.filter (fun rule => (evaluateHost rule observation e.bits).isSome)).map
    (CompiledHostRule.hit observation.subject)

theorem filter_candidates (s : HostRuleset T) (observation : HostObservation) (bits : FlowBits) :
    (s.candidates observation.kind).filter
    (fun rule => (evaluateHost rule observation bits).isSome) =
      s.rules.filter (fun rule => (evaluateHost rule observation bits).isSome) := by
  rw [HostRuleset.candidates, List.filter_filter]
  refine List.filter_congr (fun rule _ => ?_)
  by_cases hkind : rule.kind = observation.kind
  · simp [hkind]
  · simp [hkind, evaluateHost]

theorem inspectHost_alerts (e : HostEngine T) (observation : HostObservation)
    (timestamp : Instant) :
    (e.inspectHost observation timestamp).2 =
      spoken CompiledHostRule.record
        (e.rules.rules.filter (fun rule => (evaluateHost rule observation e.bits).isSome))
        (Runs.run (Hit.step e.limits.maxThresholdEntries timestamp) e.thresholds
          (e.hits observation)).2 := by
  have hloop : (e.inspectHost observation timestamp).2 =
      ((e.rules.candidates observation.kind).foldl
        (HostTally.judge e.limits observation timestamp e.bits)
        { thresholds := e.thresholds,
          counters := { e.counters with inspections := e.counters.inspections + 1 } }).alerts := by
    rw [HostEngine.inspectHost]
    split_ifs with hnone
    · rw [hnone]
      rfl
    · rfl
  rw [hloop, HostEngine.hits, ← filter_candidates]
  exact foldl_spoken (fun rule => (evaluateHost rule observation e.bits).isSome)
    (CompiledHostRule.hit observation.subject) CompiledHostRule.record HostTally.thresholds
    HostTally.alerts (HostTally.judge e.limits observation timestamp e.bits)
    (fun t rule h => judgeHost_of_not_matched _ _ _ _ t rule (by simpa using h))
    (fun t rule h => judgeHost_hit e.limits observation timestamp e.bits t rule h) _ _

theorem inspectHost_suppresses_iff {limits : CompileLimits} {rules : List Rule}
    (hsids : (rules.map Rule.sid).Nodup) (e : HostEngine T)
    (he : e.rules = HostRuleset.compile T limits (rules.filter Rule.isHostRuleByOptions))
    (observation : HostObservation) (timestamp : Instant) :
    Suppresses rules (HostMatches T limits observation e.bits)
        (e.inspectHost observation timestamp).2 ↔
      (∀ rule ∈ rules, rule.header.action = .pass → ¬HostMatches T limits observation e.bits rule) ∨
        AllSilent e.limits.maxThresholdEntries timestamp e.thresholds (e.hits observation) := by
  have hrules : e.rules.rules =
      (rules.filter Rule.isHostRuleByOptions).filterMap (armedHost T limits) := by
    rw [he]
    rfl
  rw [inspectHost_alerts]
  refine suppresses_spoken_iff e.thresholds hsids ?_ (fun _ => rfl) ?_
  · rw [hrules]
    exact nodup_armedHost_sids limits (hsids.sublist (List.filter_sublist.map _))
  · intro entry hentry hmatched
    rw [hrules] at hentry
    obtain ⟨rule, hrule, harmed⟩ := List.mem_filterMap.1 hentry
    obtain ⟨hmem, hhost⟩ := List.mem_filter.1 hrule
    exact ⟨rule, hmem, (armedHost_sid harmed).symm, hhost, entry, harmed, hmatched⟩

end Host

/-- For every rule set without duplicate identifiers, which the loader refuses: a packet, a stream
delivery or an HTTP request, and likewise a host event, is treated as the action `pass` asks exactly
when no pass rule matches it or every rule that matches it is silent. -/
theorem pass_rules_suppress_iff (R : Regex) (A : AhoCorasick) (T : TextRegex)
    (resolve : HeaderResolver) (limits : CompileLimits) (rules : List Rule)
    (hsids : (rules.map Rule.sid).Nodup) :
    (∀ e : Engine R A,
      e.Armed resolve limits (rules.filter (fun rule => !rule.isHostRuleByOptions)) →
      ∀ order flowId tuple toServer established (shape : Inspected) timestamp,
      let input : MatchInput := ⟨tuple, established, toServer, shape.buffers⟩
      let bits := (e.stateOf flowId).bits
      Suppresses rules (PacketMatches R resolve limits input bits)
          (e.inspectBuffers order flowId tuple toServer established shape.buffers
            shape.prefilterBuffers timestamp).2.alerts ↔
        (∀ rule ∈ rules, rule.header.action = .pass →
          ¬PacketMatches R resolve limits input bits rule) ∨
          AllSilent e.limits.maxThresholdEntries timestamp e.thresholds (e.hits input bits)) ∧
    ∀ e : HostEngine T,
      e.rules = HostRuleset.compile T limits (rules.filter Rule.isHostRuleByOptions) →
      ∀ observation timestamp,
      Suppresses rules (HostMatches T limits observation e.bits)
          (e.inspectHost observation timestamp).2 ↔
        (∀ rule ∈ rules, rule.header.action = .pass →
          ¬HostMatches T limits observation e.bits rule) ∨
          AllSilent e.limits.maxThresholdEntries timestamp e.thresholds (e.hits observation) :=
  ⟨inspectBuffers_suppresses_iff hsids, inspectHost_suppresses_iff hsids⟩

/-- A rule like `abRule` that is to let its input pass. -/
def passAbRule : Rule := { abRule with header := { action := .pass, protocol := .tcp } }

def TextRegex.none : TextRegex :=
  ⟨Empty, fun _ _ => .error "unsupported", fun matcher _ => nomatch matcher⟩

def cdRule : Rule := contentRule 2 [{ pattern := [0x63, 0x64] }]

/-- A payload that the pass rule does not match and the other rule does, which raises an alert. -/
theorem pass_rules_suppress_other_payload :
    let rules := [passAbRule, cdRule]
    let e := sampleEngine {} rules
    let alerts := (e.inspectBuffers (HashOrder.asStored _) 7 sampleTuple true false
      (Inspected.payload [0x63, 0x64]).buffers (Inspected.payload [0x63, 0x64]).prefilterBuffers
      0).2.alerts
    alerts.map AlertRecord.sid = [2] ∧
      Suppresses rules (PacketMatches Regex.none resolveAny {}
        ⟨sampleTuple, false, true, (Inspected.payload [0x63, 0x64]).buffers⟩ (e.stateOf 7).bits)
        alerts := by
  intro rules e alerts
  have hsids : (rules.map Rule.sid).Nodup := by decide
  refine ⟨by decide +kernel, ((pass_rules_suppress_iff Regex.none AhoCorasick.exhaustive
    TextRegex.none
    resolveAny {} rules hsids).1 e rfl _ _ _ _ _ (Inspected.payload [0x63, 0x64]) 0).2 (Or.inl ?_)⟩
  intro rule hrule haction hmatches
  have hpass : rule = passAbRule := by
    rcases List.mem_cons.1 hrule with hpass | hother
    · exact hpass
    · rw [List.mem_singleton.1 hother] at haction
      exact absurd haction (by decide)
  cases hpass
  obtain ⟨-, entry, harmed, heval⟩ := hmatches
  have hnone : ((armed Regex.none resolveAny {} passAbRule).all (fun entry =>
      (evaluate entry ⟨sampleTuple, false, true, (Inspected.payload [0x63, 0x64]).buffers⟩
        (e.stateOf 7).bits).isNone)) = true := by decide +kernel
  rw [harmed, Option.all_some] at hnone
  simp [Option.isNone_iff_eq_none.1 hnone] at heval

/-- A pass rule raises an alert itself, and does not keep another rule from raising one. -/
theorem pass_rule_alerts :
    let rules := [passAbRule, { abRule with sid := 2 }]
    let e := sampleEngine {} rules
    let alerts := (e.inspectBuffers (HashOrder.asStored _) 7 sampleTuple true false
      (Inspected.payload [0x61, 0x62]).buffers (Inspected.payload [0x61, 0x62]).prefilterBuffers
      0).2.alerts
    alerts.map AlertRecord.sid = [1, 2] ∧
      ¬Suppresses rules (PacketMatches Regex.none resolveAny {}
        ⟨sampleTuple, false, true, (Inspected.payload [0x61, 0x62]).buffers⟩ (e.stateOf 7).bits)
        alerts := by
  intro rules e alerts
  have hraised : alerts.map AlertRecord.sid = [1, 2] := by decide +kernel
  refine ⟨hraised, ?_⟩
  rintro ⟨hsid, -⟩
  have hmem : (1 : UInt32) ∈ alerts.map AlertRecord.sid := by
    rw [hraised]
    exact List.mem_cons_self
  obtain ⟨alert, halert, hone⟩ := List.mem_map.1 hmem
  exact hsid alert halert passAbRule List.mem_cons_self rfl hone

end CyberSentinel.Detect
