import CyberSentinel.VerdictLapse

/-!
# Room for a block

What the pipeline reports of a rule's block request, and when the store turns one away. A full table
turns every request away, also one that it holds already and that would take no room.
-/

namespace CyberSentinel
namespace Prevent

open Tables

inductive AlertAction
  | alerted
  | blocked
  deriving DecidableEq, Repr

/-- The store as the pipeline holds it: there may be none, and its lock can be poisoned. -/
inductive SharedStore
  | absent
  | poisoned
  | held (p : Prevention)

/-- `Pipeline::enforce`. The kernel's set is told of the source as well, and its answer only logged.
-/
def SharedStore.enforce (store : SharedStore) (ruleBlocks : Bool) (tuple : NetTuple)
    (now : Instant) :
    SharedStore × AlertAction :=
  if !ruleBlocks then (store, .alerted)
  else
    match store with
    | absent => (absent, .alerted)
    | poisoned => (poisoned, .alerted)
    | held p =>
      match (p.block tuple now).2 with
      | .blocked _ => (held (p.block tuple now).1, .blocked)
      | .notArmed => (held (p.block tuple now).1, .alerted)
      | .allowListed _ => (held (p.block tuple now).1, .alerted)
      | .full => (held (p.block tuple now).1, .alerted)

theorem enforce_alerted_iff (p : Prevention) (tuple : NetTuple) (now : Instant) :
    (SharedStore.enforce (.held p) true tuple now).2 = .alerted ↔
      ∀ source, (p.block tuple now).2 ≠ .blocked source := by
  rw [SharedStore.enforce]
  cases (p.block tuple now).2 with
  | blocked source => exact iff_of_false AlertAction.noConfusion fun h => h source rfl
  | notArmed => exact iff_of_true rfl fun source => BlockOutcome.noConfusion
  | allowListed address => exact iff_of_true rfl fun source => BlockOutcome.noConfusion
  | full => exact iff_of_true rfl fun source => BlockOutcome.noConfusion

namespace Prevention

structure WithinCaps (settings : PreventionSettings) (p : Prevention) : Prop where
  maxBlockedFlows_eq : p.settings.maxBlockedFlows = settings.maxBlockedFlows
  maxBlockedSources_eq : p.settings.maxBlockedSources = settings.maxBlockedSources
  flows : size p.flows ≤ settings.maxBlockedFlows
  sources : size p.sources ≤ settings.maxBlockedSources

def Exceeds (p : Prevention) (tuple : NetTuple) (now : Instant) : Prop :=
  p.settings.maxBlockedFlows < size (p.flows.insert (FlowKey.fromTuple tuple) now) ∨
    p.settings.maxBlockedSources <
      size (p.sources.insert tuple.srcIp (now + p.settings.sourceBlock))

def Full (p : Prevention) : Prop :=
  p.settings.maxBlockedFlows ≤ size p.flows ∨ p.settings.maxBlockedSources ≤ size p.sources

/-- Blocking pays for new entries only: it is turned away only where it would take a table over its
cap, it renews what is recorded, and no alert is reported of a conversation that is being dropped.
-/
structure ChargesNewEntries (p : Prevention) (tuple : NetTuple) (now : Instant) : Prop where
  full : (p.block tuple now).2 = .full → p.Exceeds tuple now
  renewed : FlowKey.fromTuple tuple ∈ p.flows → tuple.srcIp ∈ p.sources →
    (p.block tuple now).2 = .blocked (some tuple.srcIp) ∧
      (p.block tuple now).1.flows.lookup (FlowKey.fromTuple tuple) = some now ∧
      (p.block tuple now).1.sources.lookup tuple.srcIp = some (now + p.settings.sourceBlock)
  reported : (p.decide tuple now).2.isDrop = true →
    (SharedStore.enforce (.held p) true tuple now).2 ≠ .alerted

theorem withinCaps_new (settings : PreventionSettings) : WithinCaps settings (new settings) :=
  ⟨rfl, rfl, Nat.zero_le _, Nat.zero_le _⟩

theorem WithinCaps.block {settings : PreventionSettings} {p : Prevention}
    (h : WithinCaps settings p)
    (tuple : NetTuple) (now : Instant) : WithinCaps settings (p.block tuple now).1 := by
  rcases block_cases p tuple now with
    ⟨-, hflows, hsources, hsettings⟩ | ⟨-, -, -, hroom, hroom', hflows, hsources, hsettings⟩
  · exact ⟨hsettings ▸ h.maxBlockedFlows_eq, hsettings ▸ h.maxBlockedSources_eq, hflows ▸ h.flows,
      hsources ▸ h.sources⟩
  · refine ⟨hsettings ▸ h.maxBlockedFlows_eq, hsettings ▸ h.maxBlockedSources_eq, ?_, ?_⟩
    · rw [hflows]
      exact (size_insert_le _ _ _).trans (h.maxBlockedFlows_eq ▸ hroom)
    · rw [hsources]
      exact (size_insert_le _ _ _).trans (h.maxBlockedSources_eq ▸ hroom')

theorem WithinCaps.decide {settings : PreventionSettings} {p : Prevention}
    (h : WithinCaps settings p)
    (tuple : NetTuple) (now : Instant) : WithinCaps settings (p.decide tuple now).1 := by
  obtain ⟨hflows, hsettings, hsources⟩ := decide_cases p tuple now
  refine ⟨hsettings ▸ h.maxBlockedFlows_eq, hsettings ▸ h.maxBlockedSources_eq,
    hflows ▸ h.flows, ?_⟩
  rcases hsources with hsame | ⟨expiry, -, -, herased⟩
  · exact hsame ▸ h.sources
  · rw [herased]
    exact (size_erase_le _ _).trans h.sources

theorem WithinCaps.step {settings : PreventionSettings} {p : Prevention} (h : WithinCaps settings p)
    (op : Op) : WithinCaps settings (p.step op).1 := by
  cases op with
  | block tuple now => exact h.block tuple now
  | decide tuple now => exact h.decide tuple now
  | expire now =>
    exact ⟨h.maxBlockedFlows_eq, h.maxBlockedSources_eq, (size_retain_le _ _).trans h.flows,
      (size_retain_le _ _).trans h.sources⟩
  | setMode mode => exact ⟨h.maxBlockedFlows_eq, h.maxBlockedSources_eq, h.flows, h.sources⟩

theorem WithinCaps.exceeds_iff {settings : PreventionSettings} {p : Prevention}
    (h : WithinCaps settings p) (tuple : NetTuple) (now : Instant) :
    p.Exceeds tuple now ↔
      (p.settings.maxBlockedFlows ≤ size p.flows ∧ FlowKey.fromTuple tuple ∉ p.flows) ∨
        (p.settings.maxBlockedSources ≤ size p.sources ∧ tuple.srcIp ∉ p.sources) := by
  obtain ⟨hflows_eq, hsources_eq, hflows, hsources⟩ := h
  rw [← hflows_eq] at hflows
  rw [← hsources_eq] at hsources
  rw [Exceeds, size_insert, size_insert, ← AList.lookup_isSome, ← AList.lookup_isSome]
  apply or_congr
  · split_ifs with hmem
    · exact iff_of_false (by omega) fun hnew => hnew.2 hmem
    · exact ⟨fun hlt => ⟨by omega, hmem⟩, fun hfull => by omega⟩
  · split_ifs with hmem
    · exact iff_of_false (by omega) fun hnew => hnew.2 hmem
    · exact ⟨fun hlt => ⟨by omega, hmem⟩, fun hfull => by omega⟩

/-- With room in both tables, the conversation and the source are recorded. -/
theorem block_of_room {p : Prevention} {tuple : NetTuple} {now : Instant}
    (h : p.enforces tuple = true) (hroom : ¬ p.Full) :
    (p.block tuple now).2 = .blocked (some tuple.srcIp) ∧
      (p.block tuple now).1.flows = p.flows.insert (FlowKey.fromTuple tuple) now ∧
      (p.block tuple now).1.sources =
        p.sources.insert tuple.srcIp (now + p.settings.sourceBlock) := by
  obtain ⟨harmed, hsrc, hdest⟩ : p.armed = true ∧ p.isAllowListed tuple.srcIp = false ∧
      p.isAllowListed tuple.destIp = false := by
    simpa [enforces, and_assoc] using h
  have hfind : [tuple.srcIp, tuple.destIp].find? p.isAllowListed = none := by
    rw [List.find?_cons_of_neg (by rw [hsrc]; exact Bool.false_ne_true),
      List.find?_cons_of_neg (by rw [hdest]; exact Bool.false_ne_true), List.find?_nil]
  rw [Full] at hroom
  rw [Prevention.block, harmed, hfind]
  simp only [Bool.not_true, Bool.false_eq_true, if_false]
  rw [if_neg hroom]
  exact ⟨rfl, rfl, rfl⟩

theorem decide_isDrop_iff_of_enforces {p : Prevention} {tuple : NetTuple} {now : Instant}
    (h : p.enforces tuple = true) :
    (p.decide tuple now).2.isDrop = true ↔
      FlowKey.fromTuple tuple ∈ p.flows ∨
        ∃ expiry, p.sources.lookup tuple.srcIp = some expiry ∧ now < expiry := by
  obtain ⟨harmed, hsrc, hdest⟩ : p.armed = true ∧ p.isAllowListed tuple.srcIp = false ∧
      p.isAllowListed tuple.destIp = false := by
    simpa [enforces, and_assoc] using h
  rw [decide_isDrop_iff]
  have hmode : p.settings.mode = .prevent := of_decide_eq_true harmed
  exact ⟨fun hdrop => hdrop.2.2.2, fun hdrop => ⟨hmode, hsrc, hdest, hdrop⟩⟩

theorem chargesNewEntries_of_room {p : Prevention} {tuple : NetTuple} {now : Instant}
    (h : p.enforces tuple = true) (hroom : ¬ p.Full) : p.ChargesNewEntries tuple now := by
  obtain ⟨houtcome, hflows, hsources⟩ := block_of_room h hroom
  refine ⟨fun hfull => ?_, fun _ _ => ⟨houtcome, ?_, ?_⟩, fun _ halerted => ?_⟩
  · exact absurd (houtcome.symm.trans hfull) BlockOutcome.noConfusion
  · rw [hflows, AList.lookup_insert]
  · rw [hsources, AList.lookup_insert]
  · exact (enforce_alerted_iff p tuple now).1 halerted _ houtcome

theorem WithinCaps.chargesNewEntries_of_full_iff {settings : PreventionSettings} {p : Prevention}
    (hcaps : WithinCaps settings p) {tuple : NetTuple} {now : Instant} (h : p.enforces tuple = true)
    (hfull : p.Full) :
    p.ChargesNewEntries tuple now ↔
      FlowKey.fromTuple tuple ∉ p.flows ∧ ∀ expiry ∈ p.sources.lookup tuple.srcIp,
        expiry ≤ now ∧ p.settings.maxBlockedFlows ≤ size p.flows := by
  have houtcome : (p.block tuple now).2 = .full := (block_eq_full_iff p tuple now).2 ⟨h, hfull⟩
  have halerted : (SharedStore.enforce (.held p) true tuple now).2 = .alerted := by
    rw [enforce_alerted_iff, houtcome]
    exact fun source => BlockOutcome.noConfusion
  constructor
  · rintro ⟨hexceeds, hrenewed, hreported⟩
    have hkept : ¬ _ := fun hdrop => hreported hdrop halerted
    rw [decide_isDrop_iff_of_enforces h, not_or] at hkept
    refine ⟨hkept.1, fun expiry hexpiry => ⟨?_, ?_⟩⟩
    · by_contra hrunning
      exact hkept.2 ⟨expiry, hexpiry, not_le.1 hrunning⟩
    · rcases (hcaps.exceeds_iff tuple now).1 (hexceeds houtcome) with hflows | hsources
      · exact hflows.1
      · rw [← AList.lookup_isSome, hexpiry] at hsources
        exact absurd rfl hsources.2
  · rintro ⟨hnew, hlapsed⟩
    refine ⟨fun _ => (hcaps.exceeds_iff tuple now).2 ?_, fun hflow =>
      absurd hflow hnew, fun hdrop _ => ?_⟩
    · cases hlookup : p.sources.lookup tuple.srcIp with
      | none =>
        have hsource : tuple.srcIp ∉ p.sources := by
          rw [← AList.lookup_isSome, hlookup]
          exact Bool.false_ne_true
        exact hfull.imp (fun hflows => ⟨hflows, hnew⟩) fun hsources => ⟨hsources, hsource⟩
      | some expiry => exact Or.inl ⟨(hlapsed expiry hlookup).2, hnew⟩
    · rcases (decide_isDrop_iff_of_enforces h).1 hdrop with hflow | ⟨expiry, hexpiry, hrunning⟩
      · exact hnew hflow
      · exact absurd (hlapsed expiry hexpiry).1 (not_le.2 hrunning)

/-- Blocking pays for new entries only, exactly where neither table is full, or where the
conversation is new, its source has no block that runs, and the table of conversations is full if
there is a lapsed one. -/
theorem blocks_charge_new_entries_iff (settings : PreventionSettings) (ops : List Op)
    (tuple : NetTuple) (now : Instant) :
    let p := (Runs.run step (new settings) ops).1
    p.enforces tuple = true →
      (p.ChargesNewEntries tuple now ↔ (p.Full →
        FlowKey.fromTuple tuple ∉ p.flows ∧ ∀ expiry ∈ p.sources.lookup tuple.srcIp,
          expiry ≤ now ∧ p.settings.maxBlockedFlows ≤ size p.flows)) := by
  intro p h
  have hcaps : WithinCaps settings p :=
    Runs.invariant step (WithinCaps settings) (fun p op hp =>
      hp.step op) (withinCaps_new settings) ops
  by_cases hfull : p.Full
  · rw [hcaps.chargesNewEntries_of_full_iff h hfull]
    exact ⟨fun hcond _ => hcond, fun hcond => hcond hfull⟩
  · exact iff_of_true (chargesNewEntries_of_room h hfull) fun hcond => absurd hcond hfull

def singleSettings : PreventionSettings :=
  { mode := .prevent, maxBlockedFlows := 1, maxBlockedSources := 1 }

/-- Both tables are full, and the block on the source has lapsed when it starts another
conversation. -/
theorem blocks_charge_new_entries_iff_lapsed :
    let p := (Runs.run step (new singleSettings) [.block sampleTuple 0]).1
    let other := { sampleTuple with srcPort := some 2048 }
    p.Full ∧ p.ChargesNewEntries other (600 * nanosPerSecond) := by
  intro p other
  have hflows : FlowKey.fromTuple other ∉ p.flows := by
    simp only [AList.mem_keys]
    decide +kernel
  have hsource : p.sources.lookup other.srcIp = some (600 * nanosPerSecond) := by decide +kernel
  refine ⟨Or.inl (by decide +kernel), ?_⟩
  refine (blocks_charge_new_entries_iff singleSettings [.block sampleTuple 0] other _
    (by decide)).2 fun _ => ⟨hflows, fun expiry hexpiry => ?_⟩
  rw [Option.mem_def] at hexpiry
  have hsame : expiry = 600 * nanosPerSecond := Option.some.inj (hexpiry.symm.trans hsource)
  exact ⟨hsame.le, by decide +kernel⟩

/-- A conversation blocked twice: the second time it is turned away and an alert reported, while its
packets are being dropped. -/
theorem repeated_block_turned_away :
    let p := (Runs.run step (new singleSettings) [.block sampleTuple 0]).1
    p.enforces sampleTuple = true ∧ (p.block sampleTuple 5).2 = .full ∧ ¬ p.Exceeds sampleTuple 5 ∧
      (p.decide sampleTuple 5).2 = .drop .flowVerdict ∧
      (SharedStore.enforce (.held p) true sampleTuple 5).2 = .alerted := by
  intro p
  have hfull : (p.block sampleTuple 5).2 = .full := by decide +kernel
  refine ⟨by decide, hfull, ?_, by decide +kernel, ?_⟩
  · rw [Exceeds]
    decide +kernel
  · rw [enforce_alerted_iff, hfull]
    exact fun source => BlockOutcome.noConfusion

end Prevention
end Prevent
end CyberSentinel
