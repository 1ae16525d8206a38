import CyberSentinel.PreventionHistory

/-!
# Verdicts of the running sensor

The running sensor blocks from the detection path, decides in the verdict loop, changes the mode and
reads the counters. It never expires verdicts, so that only a decision which meets a lapsed source
ever removes an entry. The tables are the latest recorded blocks, lapsed ones included; verdicts
lapse exactly in the runs whose calls meet no lapsed entry.
-/

namespace CyberSentinel
namespace Prevent

open Tables Runs

structure ActiveStats extends PreventStats where
  blockedFlowsActive : ℕ
  blockedSourcesActive : ℕ
  deriving DecidableEq, Repr

def Prevention.activeStats (p : Prevention) : ActiveStats where
  toPreventStats := p.stats
  blockedFlowsActive := size p.flows
  blockedSourcesActive := size p.sources

inductive SensorOp
  /-- From the pipeline, for an alert whose rule asks for a block. -/
  | block (tuple : NetTuple) (now : Instant)
  /-- From the verdict loop. -/
  | decide (tuple : NetTuple) (now : Instant)
  | setMode (mode : Mode)
  | stats

def SensorOp.instant : SensorOp → Option Instant
  | .block _ now => some now
  | .decide _ now => some now
  | .setMode _ | .stats => none

inductive SensorAnswer
  | block (outcome : BlockOutcome)
  | decide (decision : Decision)
  | stats (stats : ActiveStats)
  | none

def Prevention.serve (p : Prevention) : SensorOp → Prevention × SensorAnswer
  | .block tuple now => ((p.block tuple now).1, .block (p.block tuple now).2)
  | .decide tuple now => ((p.decide tuple now).1, .decide (p.decide tuple now).2)
  | .setMode mode => (p.setMode mode, .none)
  | .stats => (p, .stats p.activeStats)

def SensorOp.NotBefore (i j : SensorOp) : Prop := ∀ a ∈ i.instant, ∀ b ∈ j.instant, a ≤ b

def recordedBlock : SensorOp × SensorAnswer → Option (NetTuple × Instant)
  | (.block tuple now, .block (.blocked _)) => some (tuple, now)
  | _ => none

def recordedBlocks (history : List (SensorOp × SensorAnswer)) : List (NetTuple × Instant) :=
  history.filterMap recordedBlock

variable {κ : Type*} [DecidableEq κ]

def latestBlock (name : NetTuple → κ) (blocks : List (NetTuple × Instant)) (key : κ) :
    Option Instant :=
  ((blocks.filter (fun b => name b.1 = key)).getLast?).map Prod.snd

/-- The names whose latest block is less than `sourceBlock` old. -/
def unlapsed (name : NetTuple → κ) (blocks : List (NetTuple × Instant)) (sourceBlock : ℕ)
    (now : Instant) : Finset κ :=
  ((blocks.map (fun b => name b.1)).toFinset).filter (fun key =>
    ((latestBlock name blocks key).any (fun blockedAt => now < blockedAt + sourceBlock)) = true)

/-- What is asked of one answer: a conversation is only dropped while its latest block is less than
`sourceBlock` old, and a block is only refused for want of room if that many conversations or
sources carry an unlapsed verdict. -/
def Lapses (settings : PreventionSettings) (blocks : List (NetTuple × Instant)) :
    SensorOp → SensorAnswer → Prop
  | .decide tuple now, .decide (.drop .flowVerdict) =>
    ∀ blockedAt ∈ latestBlock FlowKey.fromTuple blocks (FlowKey.fromTuple tuple),
      now < blockedAt + settings.sourceBlock
  | .block _ now, .block .full =>
    settings.maxBlockedFlows ≤
        (unlapsed FlowKey.fromTuple blocks settings.sourceBlock now).card ∨
      settings.maxBlockedSources ≤
        (unlapsed NetTuple.srcIp blocks settings.sourceBlock now).card
  | _, _ => True

/-- Enforcement applies to the tuple: the store is armed and neither endpoint is allow-listed. -/
def Prevention.enforces (p : Prevention) (tuple : NetTuple) : Bool :=
  p.armed && !p.isAllowListed tuple.srcIp && !p.isAllowListed tuple.destIp

/-- The call meets no lapsed entry: a decision that is enforced does not find its conversation
condemned by a lapsed verdict, and a block that is enforced and finds a table at its bound does not
find fewer unlapsed entries than the bounds in both. -/
def Prevention.MeetsNoLapsed (p : Prevention) : SensorOp → Prop
  | .decide tuple now =>
    p.enforces tuple = true → ∀ blockedAt ∈ p.flows.lookup (FlowKey.fromTuple tuple),
      now < blockedAt + p.settings.sourceBlock
  | .block tuple now =>
    p.enforces tuple = true →
      p.settings.maxBlockedFlows ≤ size p.flows ∨ p.settings.maxBlockedSources ≤ size p.sources →
      p.settings.maxBlockedFlows ≤
          size (retain (fun _ blockedAt => now < blockedAt + p.settings.sourceBlock) p.flows) ∨
        p.settings.maxBlockedSources ≤ size (retain (fun _ expiry => now < expiry) p.sources)
  | .setMode _ | .stats => True

omit [DecidableEq κ] in
theorem recordedBlocks_snoc (history : List (SensorOp × SensorAnswer))
    (x : SensorOp × SensorAnswer) :
    recordedBlocks (history ++ [x]) = recordedBlocks history ++ (recordedBlock x).toList := by
  cases hx : recordedBlock x with
  | none => simp [recordedBlocks, hx]
  | some b => simp [recordedBlocks, hx]

theorem latestBlock_snoc (name : NetTuple → κ) (blocks : List (NetTuple × Instant))
    (tuple : NetTuple) (now : Instant) (key : κ) :
    latestBlock name (blocks ++ [(tuple, now)]) key =
      if name tuple = key then some now else latestBlock name blocks key := by
  by_cases hkey : name tuple = key
  · simp [latestBlock, hkey]
  · simp [latestBlock, hkey]

theorem mem_unlapsed {name : NetTuple → κ} {blocks : List (NetTuple × Instant)} {sourceBlock : ℕ}
    {now : Instant} {key : κ} :
    key ∈ unlapsed name blocks sourceBlock now ↔
      ∃ blockedAt, latestBlock name blocks key = some blockedAt ∧
        now < blockedAt + sourceBlock := by
  simp only [unlapsed, Finset.mem_filter, List.mem_toFinset, Option.any_eq_true, decide_eq_true_eq]
  constructor
  · rintro ⟨_, blockedAt, hlatest, hlive⟩
    exact ⟨blockedAt, hlatest, hlive⟩
  · rintro ⟨blockedAt, hlatest, hlive⟩
    refine ⟨?_, blockedAt, hlatest, hlive⟩
    obtain ⟨b, hb, _⟩ := Option.map_eq_some_iff.1 hlatest
    obtain ⟨hmem, hname⟩ := List.mem_filter.1 (List.mem_of_getLast? hb)
    exact List.mem_map.2 ⟨b, hmem, of_decide_eq_true hname⟩

/-- The tables of the store, read off the blocks that were recorded. Only a source whose block has
lapsed may be missing. -/
structure Records (settings : PreventionSettings) (p : Prevention)
    (history : List (SensorOp × SensorAnswer)) : Prop where
  settings_eq : ∃ mode, p.settings = { settings with mode }
  flows_eq : ∀ key, p.flows.lookup key =
    latestBlock FlowKey.fromTuple (recordedBlocks history) key
  source_latest : ∀ address expiry, p.sources.lookup address = some expiry →
    ∃ blockedAt, latestBlock NetTuple.srcIp (recordedBlocks history) address = some blockedAt ∧
      expiry = blockedAt + settings.sourceBlock
  source_lapsed : ∀ address blockedAt,
    latestBlock NetTuple.srcIp (recordedBlocks history) address = some blockedAt →
      p.sources.lookup address = none →
        ∃ e ∈ history, ∃ now ∈ e.1.instant, blockedAt + settings.sourceBlock ≤ now

namespace Records

variable {settings : PreventionSettings} {p : Prevention}
  {history : List (SensorOp × SensorAnswer)}

theorem new (settings : PreventionSettings) : Records settings (Prevention.new settings) [] :=
  ⟨⟨settings.mode, rfl⟩, fun _ => rfl, by
    simp [Prevention.new], by simp [recordedBlocks, latestBlock]⟩

theorem quiet (h : Records settings p history) {p' : Prevention} {x : SensorOp × SensorAnswer}
    (hsettings : ∃ mode, p'.settings = { settings with mode }) (hflows : p'.flows = p.flows)
    (hsources : p'.sources = p.sources) (hx : recordedBlock x = none) :
    Records settings p' (history ++ [x]) := by
  have hblocks : recordedBlocks (history ++ [x]) = recordedBlocks history := by
    rw [recordedBlocks_snoc, hx, Option.toList_none, List.append_nil]
  constructor
  · exact hsettings
  · rw [hflows, hblocks]
    exact h.flows_eq
  · rw [hsources, hblocks]
    exact h.source_latest
  · rw [hsources, hblocks]
    intro address blockedAt hlatest hnone
    obtain ⟨e, he, hlapsed⟩ := h.source_lapsed address blockedAt hlatest hnone
    exact ⟨e, List.mem_append_left _ he, hlapsed⟩

theorem sourceBlock_eq (h : Records settings p history) :
    p.settings.sourceBlock = settings.sourceBlock := by
  obtain ⟨mode, heq⟩ := h.settings_eq
  rw [heq]

theorem block (h : Records settings p history) (tuple : NetTuple) (now : Instant) :
    Records settings (p.block tuple now).1
      (history ++ [(.block tuple now, .block (p.block tuple now).2)]) := by
  rcases block_cases p tuple now with ⟨hrefused, hflows, hsources, hset⟩ |
    ⟨hblocked, _, _, _, _, hflows, hsources, hset⟩
  · apply h.quiet _ hflows hsources
    · cases hanswer : (p.block tuple now).2 with
      | blocked source => exact absurd hanswer (hrefused source)
      | notArmed => rfl
      | allowListed address => rfl
      | full => rfl
    · rw [hset]
      exact h.settings_eq
  · have hblocks : recordedBlocks (history ++ [(.block tuple now, .block (p.block tuple now).2)]) =
        recordedBlocks history ++ [(tuple, now)] := by
      rw [recordedBlocks_snoc, hblocked]
      rfl
    constructor
    · rw [hset]
      exact h.settings_eq
    · intro key
      rw [hflows, hblocks, latestBlock_snoc]
      by_cases hkey : FlowKey.fromTuple tuple = key
      · rw [if_pos hkey, hkey, AList.lookup_insert]
      · rw [if_neg hkey, AList.lookup_insert_ne (Ne.symm hkey), h.flows_eq]
    · intro address expiry hlookup
      rw [hsources] at hlookup
      rw [hblocks, latestBlock_snoc]
      by_cases haddr : tuple.srcIp = address
      · rw [haddr, AList.lookup_insert, h.sourceBlock_eq, Option.some.injEq] at hlookup
        exact ⟨now, if_pos haddr, hlookup.symm⟩
      · rw [AList.lookup_insert_ne (Ne.symm haddr)] at hlookup
        rw [if_neg haddr]
        exact h.source_latest address expiry hlookup
    · intro address blockedAt hlatest hnone
      rw [hsources] at hnone
      rw [hblocks, latestBlock_snoc] at hlatest
      by_cases haddr : tuple.srcIp = address
      · rw [haddr, AList.lookup_insert] at hnone
        exact absurd hnone (by simp)
      · rw [AList.lookup_insert_ne (Ne.symm haddr)] at hnone
        rw [if_neg haddr] at hlatest
        obtain ⟨e, he, hlapsed⟩ := h.source_lapsed address blockedAt hlatest hnone
        exact ⟨e, List.mem_append_left _ he, hlapsed⟩

theorem decide (h : Records settings p history) (tuple : NetTuple) (now : Instant) :
    Records settings (p.decide tuple now).1
      (history ++ [(.decide tuple now, .decide (p.decide tuple now).2)]) := by
  obtain ⟨hflows, hset, hsources⟩ := decide_cases p tuple now
  have hquiet : Records settings p
      (history ++ [(.decide tuple now, .decide (p.decide tuple now).2)]) :=
    h.quiet h.settings_eq rfl rfl rfl
  constructor
  · rw [hset]
    exact hquiet.settings_eq
  · rw [hflows]
    exact hquiet.flows_eq
  · intro address expiry hlookup
    rcases hsources with hsame | ⟨_, _, _, herase⟩
    · exact hquiet.source_latest address expiry (hsame ▸ hlookup)
    · rw [herase] at hlookup
      exact hquiet.source_latest address expiry (lookup_of_lookup_erase hlookup).2
  · intro address blockedAt hlatest hnone
    rcases hsources with hsame | ⟨expiry, hexpiry, hlapsed, herase⟩
    · exact hquiet.source_lapsed address blockedAt hlatest (hsame ▸ hnone)
    · by_cases haddr : address = tuple.srcIp
      · obtain ⟨blockedAt', hlatest', heq⟩ := hquiet.source_latest tuple.srcIp expiry hexpiry
        rw [haddr, hlatest', Option.some.injEq] at hlatest
        rw [← hlatest, ← heq]
        exact ⟨(.decide tuple now, .decide (p.decide tuple now).2), by simp, now, rfl, hlapsed⟩
      · rw [herase, AList.lookup_erase_ne haddr] at hnone
        exact hquiet.source_lapsed address blockedAt hlatest hnone

theorem serve (h : Records settings p history) (op : SensorOp) :
    Records settings (p.serve op).1 (history ++ [(op, (p.serve op).2)]) := by
  cases op with
  | block tuple now => exact h.block tuple now
  | decide tuple now => exact h.decide tuple now
  | setMode mode =>
    obtain ⟨_, hmode⟩ := h.settings_eq
    refine h.quiet ⟨mode, ?_⟩ rfl rfl rfl
    change { p.settings with mode } = { settings with mode }
    rw [hmode]
  | stats => exact h.quiet h.settings_eq rfl rfl rfl

/-- Before an instant that no earlier call is past, the unlapsed entries of the source table are the
sources that carry an unlapsed verdict. -/
theorem size_sources (h : Records settings p history) {now : Instant}
    (hpast : ∀ e ∈ history, ∀ earlier ∈ e.1.instant, earlier ≤ now) :
    size (retain (fun _ expiry => now < expiry) p.sources) =
      (unlapsed NetTuple.srcIp (recordedBlocks history) settings.sourceBlock now).card := by
  apply size_eq_card
  intro address
  rw [mem_unlapsed, ← AList.lookup_isSome, lookup_retain, Option.isSome_iff_exists]
  simp only [Option.filter_eq_some_iff, decide_eq_true_eq]
  constructor
  · rintro ⟨expiry, hlookup, hlive⟩
    obtain ⟨blockedAt, hlatest, heq⟩ := h.source_latest address expiry hlookup
    exact ⟨blockedAt, hlatest, heq ▸ hlive⟩
  · rintro ⟨blockedAt, hlatest, hlive⟩
    cases hlookup : p.sources.lookup address with
    | none =>
      obtain ⟨e, he, earlier, hearlier, hlapsed⟩ :=
        h.source_lapsed address blockedAt hlatest hlookup
      exact absurd hlive (not_lt.2 (hlapsed.trans (hpast e he earlier hearlier)))
    | some expiry =>
      obtain ⟨blockedAt', hlatest', heq⟩ := h.source_latest address expiry hlookup
      rw [hlatest', Option.some.injEq] at hlatest
      exact ⟨expiry, rfl, by rw [heq, hlatest]; exact hlive⟩

theorem size_flows (h : Records settings p history) (now : Instant) :
    size (retain (fun _ blockedAt => now < blockedAt + settings.sourceBlock) p.flows) =
      (unlapsed FlowKey.fromTuple (recordedBlocks history) settings.sourceBlock now).card := by
  apply size_eq_card
  intro key
  rw [mem_unlapsed, ← AList.lookup_isSome, lookup_retain, Option.isSome_iff_exists]
  simp only [Option.filter_eq_some_iff, decide_eq_true_eq, h.flows_eq]

end Records

theorem decide_eq_flowVerdict_iff (p : Prevention) (tuple : NetTuple) (now : Instant) :
    (p.decide tuple now).2 = .drop .flowVerdict ↔
      p.enforces tuple = true ∧ FlowKey.fromTuple tuple ∈ p.flows := by
  let counted := { p with stats := { p.stats with packetsJudged := p.stats.packetsJudged + 1 } }
  have hsource : (counted.decideSource tuple now).2 ≠ .drop .flowVerdict := by
    unfold Prevention.decideSource
    cases counted.sources.lookup tuple.srcIp with
    | none => simp
    | some expiry =>
      dsimp only
      split_ifs <;> simp
  have henforces : p.enforces tuple = (counted.armed &&
      !(counted.isAllowListed tuple.srcIp || counted.isAllowListed tuple.destIp)) := by
    rw [Bool.not_or, ← Bool.and_assoc]
    rfl
  change (if !counted.armed then (counted, Decision.accept) else _).2 = _ ↔ _
  rw [henforces]
  cases counted.armed with
  | false => simp
  | true =>
    cases counted.isAllowListed tuple.srcIp || counted.isAllowListed tuple.destIp with
    | true => simp
    | false =>
      by_cases hflow : FlowKey.fromTuple tuple ∈ p.flows
      · simp [hflow]
      · simp only [hflow, if_false]
        simpa using hsource

theorem block_eq_full_iff (p : Prevention) (tuple : NetTuple) (now : Instant) :
    (p.block tuple now).2 = .full ↔
      p.enforces tuple = true ∧
        (p.settings.maxBlockedFlows ≤ size p.flows ∨
          p.settings.maxBlockedSources ≤ size p.sources) := by
  unfold Prevention.block Prevention.enforces
  cases p.armed with
  | false => simp
  | true =>
    cases hsrc : p.isAllowListed tuple.srcIp with
    | true => simp [hsrc]
    | false =>
      cases hdest : p.isAllowListed tuple.destIp with
      | true => simp [hsrc, hdest]
      | false =>
        by_cases hfull : p.settings.maxBlockedFlows ≤ size p.flows ∨
            p.settings.maxBlockedSources ≤ size p.sources
        · simp [hsrc, hdest, hfull]
        · simp [hsrc, hdest, hfull]

/-- One call gives the answer that is asked of it exactly when it meets no lapsed entry. -/
theorem Records.lapses_iff {settings : PreventionSettings} {p : Prevention}
    {history : List (SensorOp × SensorAnswer)} (h : Records settings p history) {op : SensorOp}
    (hpast : ∀ e ∈ history, e.1.NotBefore op) :
    Lapses settings (recordedBlocks history) op (p.serve op).2 ↔ p.MeetsNoLapsed op := by
  obtain ⟨mode, hmode⟩ := h.settings_eq
  cases op with
  | block tuple now =>
    have hsources := h.size_sources (fun e he earlier hearlier =>
      hpast e he earlier hearlier now rfl)
    have hflows := h.size_flows now
    have hfull := block_eq_full_iff p tuple now
    simp only [Prevention.serve, Prevention.MeetsNoLapsed]
    rw [h.sourceBlock_eq, hflows, hsources]
    by_cases hanswer : (p.block tuple now).2 = .full
    · obtain ⟨henforces, hbound⟩ := hfull.1 hanswer
      rw [hanswer]
      simp only [Lapses, henforces, hbound, true_imp_iff]
      rw [hmode]
    · have hlapses : Lapses settings (recordedBlocks history) (.block tuple now)
          (.block (p.block tuple now).2) := by
        cases houtcome : (p.block tuple now).2 with
        | full => exact absurd houtcome hanswer
        | blocked source => trivial
        | notArmed => trivial
        | allowListed address => trivial
      apply iff_of_true hlapses
      intro henforces hbound
      exact absurd (hfull.2 ⟨henforces, hbound⟩) hanswer
  | decide tuple now =>
    have hverdict := decide_eq_flowVerdict_iff p tuple now
    simp only [Prevention.serve, Prevention.MeetsNoLapsed]
    rw [h.sourceBlock_eq, h.flows_eq]
    by_cases hanswer : (p.decide tuple now).2 = .drop .flowVerdict
    · rw [hanswer]
      simp only [Lapses, (hverdict.1 hanswer).1, true_imp_iff]
    · have hlapses : Lapses settings (recordedBlocks history) (.decide tuple now)
          (.decide (p.decide tuple now).2) := by
        cases hdecision : (p.decide tuple now).2 with
        | accept => trivial
        | drop reason =>
          cases reason with
          | flowVerdict => exact absurd hdecision hanswer
          | blockedSource => trivial
      apply iff_of_true hlapses
      intro henforces blockedAt hlatest
      refine absurd (hverdict.2 ⟨henforces, ?_⟩) hanswer
      rw [← AList.lookup_isSome, h.flows_eq, hlatest]
      rfl
  | setMode mode => exact iff_of_true trivial trivial
  | stats => exact iff_of_true trivial trivial

/-- Whatever the sensor asks of its store, at instants that never go back: every verdict has lapsed
by the time it is asked for exactly when no call of the run meets a lapsed entry. -/
theorem verdicts_lapse_iff (settings : PreventionSettings) (ops : List SensorOp)
    (hops : ops.Pairwise SensorOp.NotBefore) :
    (∀ before op after, ops = before ++ op :: after →
      let run := Runs.run Prevention.serve (Prevention.new settings) before
      Lapses settings (recordedBlocks (before.zip run.2)) op (run.1.serve op).2) ↔
    Runs.Along Prevention.serve Prevention.MeetsNoLapsed (Prevention.new settings) ops := by
  rw [Runs.along_iff]
  refine forall_congr' (fun before => forall_congr' (fun op => forall_congr' (fun after => ?_)))
  apply imp_congr_right
  intro heq
  rw [heq, List.pairwise_append] at hops
  obtain ⟨hbefore, _, hlater⟩ := hops
  have hrecords := Runs.history_invariant Prevention.serve (Records settings) SensorOp.NotBefore
    (fun p history op hp _ => hp.serve op) (Records.new settings) (by simp) hbefore
  rw [List.nil_append] at hrecords
  apply hrecords.lapses_iff
  intro e he
  exact hlater e.1 (List.of_mem_zip (a := e.1) (b := e.2) he).1 op (by simp)

def sampleTuple : NetTuple := ⟨.v4 1, some 1024, .v4 2, some 80, .tcp⟩

def briefSettings : PreventionSettings := { mode := .prevent, sourceBlock := 10 }

/-- A conversation blocked at time zero for ten nanoseconds and seen again at time five. -/
theorem verdicts_lapse_iff_in_time :
    let ops := [SensorOp.block sampleTuple 0, .decide sampleTuple 5]
    ∀ before op after, ops = before ++ op :: after →
      let run := Runs.run Prevention.serve (Prevention.new briefSettings) before
      Lapses briefSettings (recordedBlocks (before.zip run.2)) op (run.1.serve op).2 := by
  intro ops
  have hops : ops.Pairwise SensorOp.NotBefore := by
    simp [ops, SensorOp.NotBefore, SensorOp.instant]
  refine (verdicts_lapse_iff briefSettings ops hops).2 ⟨?_, ?_, trivial⟩
  · intro _ hbound
    exact absurd hbound (by decide +kernel)
  · intro _
    decide +kernel

/-- The same conversation seen again at time ten is still dropped. -/
theorem lapsed_verdict_dropped :
    ¬ ∀ (settings : PreventionSettings) (ops : List SensorOp), ops.Pairwise SensorOp.NotBefore →
      ∀ before op after, ops = before ++ op :: after →
        let run := Runs.run Prevention.serve (Prevention.new settings) before
        Lapses settings (recordedBlocks (before.zip run.2)) op (run.1.serve op).2 := by
  intro h
  have hops : [SensorOp.block sampleTuple 0, .decide sampleTuple 10].Pairwise
      SensorOp.NotBefore := by
    simp [SensorOp.NotBefore, SensorOp.instant]
  have hlapses := h briefSettings _ hops [.block sampleTuple 0] (.decide sampleTuple 10) [] rfl
  have hdropped : (((Runs.run Prevention.serve (Prevention.new briefSettings)
      [.block sampleTuple 0]).1.decide sampleTuple 10).2) = .drop .flowVerdict := by decide +kernel
  simp only [Prevention.serve, hdropped, Lapses] at hlapses
  have hold := hlapses 0 (by decide +kernel)
  exact absurd hold (by decide)

end Prevent
end CyberSentinel
