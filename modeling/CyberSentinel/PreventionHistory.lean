import CyberSentinel.Prevention
import CyberSentinel.Runs

/-!
# What the verdict store drops, by its history

The store is described by what has been asked of it and what it answered. A conversation stays
condemned from its latest successful block until an expiry that comes late enough; a source is
blocked for a fixed time from its latest successful block. The invariant `Follows` reads both tables
off the history; lapsed sources may be forgotten early by the packet that notices, which no later
decision can tell.
-/

namespace CyberSentinel
namespace Prevent

open Tables Runs

def SameConversation (t u : NetTuple) : Prop :=
  t.proto = u.proto ∧ ((t.source = u.source ∧ t.destination = u.destination) ∨
    (t.source = u.destination ∧ t.destination = u.source))

theorem fromTuple_eq_iff (t u : NetTuple) :
    FlowKey.fromTuple t = FlowKey.fromTuple u ↔ SameConversation t u := by
  unfold FlowKey.fromTuple SameConversation
  split_ifs with ht hu hu
  · rw [FlowKey.mk.injEq]
    refine and_congr_right (fun _ => ⟨Or.inl, ?_⟩)
    intro h
    rcases h with h | ⟨hsource, hdest⟩
    · exact h
    · rw [hsource, hdest] at ht
      have heq := le_antisymm ht hu
      exact ⟨hsource.trans heq, hdest.trans heq.symm⟩
  · rw [FlowKey.mk.injEq]
    refine and_congr_right (fun _ => ⟨Or.inr, ?_⟩)
    intro h
    rcases h with ⟨hsource, hdest⟩ | h
    · rw [hsource, hdest] at ht
      exact absurd ht hu
    · exact h
  · rw [FlowKey.mk.injEq]
    refine and_congr_right (fun _ => ⟨fun h => Or.inr ⟨h.2, h.1⟩, ?_⟩)
    intro h
    rcases h with ⟨hsource, hdest⟩ | h
    · rw [hsource, hdest] at ht
      exact absurd hu ht
    · exact ⟨h.2, h.1⟩
  · rw [FlowKey.mk.injEq]
    refine and_congr_right (fun _ => ⟨fun h => Or.inl ⟨h.2, h.1⟩, ?_⟩)
    intro h
    rcases h with h | ⟨hsource, hdest⟩
    · exact ⟨h.2, h.1⟩
    · rw [hsource, hdest] at ht
      exact absurd (le_of_not_ge hu) ht

theorem elapsed_lt_iff {later earlier : ℤ} (h : earlier ≤ later) (k : ℕ) :
    elapsed later earlier < k ↔ later < earlier + k := by
  unfold elapsed
  omega

/-- A block is refused and changes neither table, or it records the conversation and the source. -/
theorem block_cases (p : Prevention) (t : NetTuple) (now : Instant) :
    ((∀ source, (p.block t now).2 ≠ .blocked source) ∧ (p.block t now).1.flows = p.flows ∧
      (p.block t now).1.sources = p.sources ∧ (p.block t now).1.settings = p.settings) ∨
    ((p.block t now).2 = .blocked (some t.srcIp) ∧ p.isAllowListed t.srcIp = false ∧
      p.isAllowListed t.destIp = false ∧ size p.flows < p.settings.maxBlockedFlows ∧
      size p.sources < p.settings.maxBlockedSources ∧
      (p.block t now).1.flows = p.flows.insert (FlowKey.fromTuple t) now ∧
      (p.block t now).1.sources = p.sources.insert t.srcIp (now + p.settings.sourceBlock) ∧
      (p.block t now).1.settings = p.settings) := by
  unfold Prevention.block
  by_cases harmed : p.armed = true
  · simp only [harmed, Bool.not_true, Bool.false_eq_true, if_false]
    cases hfind : [t.srcIp, t.destIp].find? p.isAllowListed with
    | some address => exact Or.inl ⟨by simp, rfl, rfl, rfl⟩
    | none =>
      rw [List.find?_eq_none] at hfind
      by_cases hfull : p.settings.maxBlockedFlows ≤ size p.flows ∨
          p.settings.maxBlockedSources ≤ size p.sources
      · rw [if_pos hfull]
        exact Or.inl ⟨by simp, rfl, rfl, rfl⟩
      · rw [if_neg hfull]
        obtain ⟨hflows, hsources⟩ := not_or.1 hfull
        exact Or.inr ⟨rfl, by simpa using hfind t.srcIp (by simp),
          by simpa using hfind t.destIp (by simp), not_le.1 hflows, not_le.1 hsources,
          rfl, rfl, rfl⟩
  · simp only [harmed]
    exact Or.inl ⟨by simp, rfl, rfl, rfl⟩

/-- A decision changes the tables at most by forgetting a source whose block has lapsed. -/
theorem decide_cases (p : Prevention) (t : NetTuple) (now : Instant) :
    (p.decide t now).1.flows = p.flows ∧ (p.decide t now).1.settings = p.settings ∧
      ((p.decide t now).1.sources = p.sources ∨
        ∃ expiry, p.sources.lookup t.srcIp = some expiry ∧ expiry ≤ now ∧
          (p.decide t now).1.sources = p.sources.erase t.srcIp) := by
  simp only [Prevention.decide, Prevention.decideSource]
  split_ifs
  · exact ⟨rfl, rfl, Or.inl rfl⟩
  · exact ⟨rfl, rfl, Or.inl rfl⟩
  · exact ⟨rfl, rfl, Or.inl rfl⟩
  · cases hlookup : p.sources.lookup t.srcIp with
    | none => exact ⟨rfl, rfl, Or.inl rfl⟩
    | some expiry =>
      by_cases hlive : now < expiry
      · dsimp only
        rw [if_pos hlive]
        exact ⟨rfl, rfl, Or.inl rfl⟩
      · dsimp only
        rw [if_neg hlive]
        exact ⟨rfl, rfl, Or.inr ⟨expiry, rfl, not_lt.1 hlive, rfl⟩⟩

theorem decideSource_isDrop_iff (p : Prevention) (t : NetTuple) (now : Instant) :
    (p.decideSource t now).2.isDrop = true ↔
      ∃ expiry, p.sources.lookup t.srcIp = some expiry ∧ now < expiry := by
  unfold Prevention.decideSource
  cases p.sources.lookup t.srcIp with
  | none => simp [Decision.isDrop]
  | some expiry =>
    by_cases hlive : now < expiry
    · simp [hlive, Decision.isDrop]
    · simp [hlive, Decision.isDrop]

theorem decide_isDrop_eq (p : Prevention) (t : NetTuple) (now : Instant) :
    (p.decide t now).2.isDrop =
      (p.armed && !(p.isAllowListed t.srcIp || p.isAllowListed t.destIp) &&
        (FlowKey.fromTuple t ∈ p.flows || (p.decideSource t now).2.isDrop)) := by
  let counted := { p with stats := { p.stats with packetsJudged := p.stats.packetsJudged + 1 } }
  have hsource : (counted.decideSource t now).2 = (p.decideSource t now).2 := by
    simp only [Prevention.decideSource, counted]
    cases p.sources.lookup t.srcIp with
    | none => rfl
    | some expiry =>
      dsimp only
      split_ifs <;> rfl
  have harmed : counted.armed = p.armed := rfl
  have hallow : ∀ address, counted.isAllowListed address = p.isAllowListed address := fun _ => rfl
  change Decision.isDrop (if !counted.armed then (counted, Decision.accept) else _).2 = _
  rw [harmed, hallow, hallow]
  cases p.armed <;> cases p.isAllowListed t.srcIp || p.isAllowListed t.destIp
  · rfl
  · rfl
  · by_cases hflow : FlowKey.fromTuple t ∈ p.flows
    · simp [hflow, Decision.isDrop]
    · simp [hflow, hsource, counted]
  · rfl

theorem decide_isDrop_iff (p : Prevention) (t : NetTuple) (now : Instant) :
    (p.decide t now).2.isDrop = true ↔
      p.settings.mode = .prevent ∧ p.isAllowListed t.srcIp = false ∧
        p.isAllowListed t.destIp = false ∧
        (FlowKey.fromTuple t ∈ p.flows ∨
          ∃ expiry, p.sources.lookup t.srcIp = some expiry ∧ now < expiry) := by
  rw [decide_isDrop_eq, ← decideSource_isDrop_iff]
  simp [Prevention.armed, and_assoc]

abbrev History := List (Op × Answer)

/-- A block on the conversation of `t` that was recorded. -/
def BlockedFlow (t : NetTuple) (e : Op × Answer) : Prop :=
  ∃ u now source, e = (.block u now, .block (.blocked source)) ∧ SameConversation u t

def BlockedSource (address : IpAddr) (e : Op × Answer) : Prop :=
  ∃ u now source, e = (.block u now, .block (.blocked source)) ∧ u.srcIp = address

/-- The latest recorded block on the conversation was made at `blockedAt`, and no expiry since then
came `sourceBlock` or more after it. -/
def CondemnedAt (sourceBlock : ℕ) (history : History) (t : NetTuple) (blockedAt : Instant) : Prop :=
  ∃ u source since,
    Latest (BlockedFlow t) history (.block u blockedAt, .block (.blocked source)) since ∧
      ∀ now answer, (Op.expire now, answer) ∈ since → now < blockedAt + sourceBlock

/-- The latest recorded block with the given source was made at `blockedAt`. -/
def LatestSource (history : History) (address : IpAddr) (blockedAt : Instant) : Prop :=
  ∃ u source since,
    Latest (BlockedSource address) history (.block u blockedAt, .block (.blocked source)) since

def NotBefore (i j : Op) : Prop := ∀ a ∈ i.instant, ∀ b ∈ j.instant, a ≤ b

structure Follows (settings : PreventionSettings) (p : Prevention) (history : History) : Prop where
  settings_eq : ∃ mode, p.settings = { settings with mode }
  flow_iff : ∀ t blockedAt, p.flows.lookup (FlowKey.fromTuple t) = some blockedAt ↔
    CondemnedAt settings.sourceBlock history t blockedAt
  source_latest : ∀ address expiry, p.sources.lookup address = some expiry →
    ∃ blockedAt, LatestSource history address blockedAt ∧ expiry = blockedAt + settings.sourceBlock
  source_lapsed : ∀ address blockedAt, LatestSource history address blockedAt →
    p.sources.lookup address = none →
      ∃ e ∈ history, ∃ now ∈ e.1.instant, blockedAt + settings.sourceBlock ≤ now
  flow_clear : ∀ key ∈ p.flows,
    settings.isAllowListed key.lower.ip = false ∧ settings.isAllowListed key.upper.ip = false
  source_clear : ∀ address ∈ p.sources, settings.isAllowListed address = false
  flows_le : size p.flows ≤ settings.maxBlockedFlows
  sources_le : size p.sources ≤ settings.maxBlockedSources

theorem LatestSource.unique {history : History} {address : IpAddr} {a b : Instant}
    (ha : LatestSource history address a) (hb : LatestSource history address b) : a = b := by
  obtain ⟨u, _, _, hu⟩ := ha
  obtain ⟨v, _, _, hv⟩ := hb
  have heq := congrArg Prod.fst (Latest.unique hu hv)
  exact (Op.block.inj heq).2

section Snoc

variable {history : History} {x : Op × Answer} {sourceBlock : ℕ}

theorem condemnedAt_snoc_of_not (t : NetTuple) (blockedAt : Instant) (hx : ¬ BlockedFlow t x) :
    CondemnedAt sourceBlock (history ++ [x]) t blockedAt ↔
      CondemnedAt sourceBlock history t blockedAt ∧
        ∀ now answer, x = (Op.expire now, answer) → now < blockedAt + sourceBlock := by
  constructor
  · rintro ⟨u, source, since, hlatest, hexpire⟩
    obtain ⟨earlier, hsince, hearlier⟩ := (latest_snoc_of_neg hx).1 hlatest
    subst hsince
    refine ⟨⟨u, source, earlier, hearlier, ?_⟩, ?_⟩
    · exact fun now answer hmem => hexpire now answer (by simp [hmem])
    · exact fun now answer heq => hexpire now answer (by simp [heq])
  · rintro ⟨⟨u, source, earlier, hearlier, hexpire⟩, hlast⟩
    refine ⟨u, source, earlier ++ [x], (latest_snoc_of_neg hx).2 ⟨earlier, rfl, hearlier⟩, ?_⟩
    intro now answer hmem
    rcases List.mem_append.1 hmem with hmem | hmem
    · exact hexpire now answer hmem
    · exact hlast now answer (List.mem_singleton.1 hmem).symm

theorem condemnedAt_snoc_block {t u : NetTuple} {now : Instant} {source : Option IpAddr}
    (hsame : SameConversation u t) (blockedAt : Instant) :
    CondemnedAt sourceBlock (history ++ [(.block u now, .block (.blocked source))]) t blockedAt ↔
      blockedAt = now := by
  have hx : BlockedFlow t (.block u now, .block (.blocked source)) := ⟨u, now, source, rfl, hsame⟩
  constructor
  · rintro ⟨v, source', since, hlatest, _⟩
    have heq := congrArg Prod.fst ((latest_snoc_of_pos hx).1 hlatest).1
    exact (Op.block.inj heq).2
  · intro heq
    subst heq
    exact ⟨u, source, [], (latest_snoc_of_pos hx).2 ⟨rfl, rfl⟩, by simp⟩

theorem latestSource_snoc_of_not {address : IpAddr} (blockedAt : Instant)
    (hx : ¬ BlockedSource address x) :
    LatestSource (history ++ [x]) address blockedAt ↔ LatestSource history address blockedAt := by
  constructor
  · rintro ⟨u, source, since, hlatest⟩
    obtain ⟨earlier, _, hearlier⟩ := (latest_snoc_of_neg hx).1 hlatest
    exact ⟨u, source, earlier, hearlier⟩
  · rintro ⟨u, source, earlier, hearlier⟩
    exact ⟨u, source, earlier ++ [x], (latest_snoc_of_neg hx).2 ⟨earlier, rfl, hearlier⟩⟩

theorem latestSource_snoc_block (u : NetTuple) (now : Instant) (source : Option IpAddr)
    (blockedAt : Instant) :
    LatestSource (history ++ [(.block u now, .block (.blocked source))]) u.srcIp blockedAt ↔
      blockedAt = now := by
  have hx : BlockedSource u.srcIp (.block u now, .block (.blocked source)) :=
    ⟨u, now, source, rfl, rfl⟩
  constructor
  · rintro ⟨v, source', since, hlatest⟩
    have heq := congrArg Prod.fst ((latest_snoc_of_pos hx).1 hlatest).1
    exact (Op.block.inj heq).2
  · intro heq
    subst heq
    exact ⟨u, source, [], (latest_snoc_of_pos hx).2 ⟨rfl, rfl⟩⟩

theorem other_source {address : IpAddr} {u : NetTuple} {now : Instant} {source : Option IpAddr}
    (h : ¬ address = u.srcIp) :
    ¬ BlockedSource address (.block u now, .block (.blocked source)) := by
  rintro ⟨v, _, _, heq, hv⟩
  obtain ⟨rfl, _⟩ := Op.block.inj (congrArg Prod.fst heq)
  exact h hv.symm

end Snoc

namespace Follows

variable {settings : PreventionSettings} {p : Prevention} {history : History}

theorem new (settings : PreventionSettings) : Follows settings (Prevention.new settings) [] where
  settings_eq := ⟨settings.mode, rfl⟩
  flow_iff := by
    intro t blockedAt
    constructor
    · intro h
      simp [Prevention.new] at h
    · rintro ⟨_, _, _, ⟨before, heq, _⟩, _⟩
      simp at heq
  source_latest := by
    intro address expiry h
    simp [Prevention.new] at h
  source_lapsed := by
    rintro address blockedAt ⟨_, _, _, before, heq, _⟩
    simp at heq
  flow_clear := by
    intro key hkey
    simp [Prevention.new] at hkey
  source_clear := by
    intro address haddress
    simp [Prevention.new] at haddress
  flows_le := Nat.zero_le _
  sources_le := Nat.zero_le _

theorem sourceBlock_eq (h : Follows settings p history) :
    p.settings.sourceBlock = settings.sourceBlock := by
  obtain ⟨mode, heq⟩ := h.settings_eq
  rw [heq]

theorem isAllowListed_eq (h : Follows settings p history) (address : IpAddr) :
    p.isAllowListed address = settings.isAllowListed address := by
  obtain ⟨mode, heq⟩ := h.settings_eq
  rw [Prevention.isAllowListed, heq]
  rfl

/-- A call that records no block and expires nothing, and leaves both tables alone. -/
theorem quiet (h : Follows settings p history) {p' : Prevention} {x : Op × Answer}
    (hsettings : ∃ mode, p'.settings = { settings with mode }) (hflows : p'.flows = p.flows)
    (hsources : p'.sources = p.sources)
    (hblock : ∀ u now source, x ≠ (.block u now, .block (.blocked source)))
    (hexpire : ∀ now answer, x ≠ (.expire now, answer)) :
    Follows settings p' (history ++ [x]) := by
  have hflow : ∀ t, ¬ BlockedFlow t x := fun t ⟨u, now, source, heq, _⟩ => hblock u now source heq
  have hsource : ∀ a, ¬ BlockedSource a x := fun a ⟨u, now, source, heq, _⟩ =>
    hblock u now source heq
  constructor
  · exact hsettings
  · intro t blockedAt
    rw [hflows, condemnedAt_snoc_of_not t blockedAt (hflow t), h.flow_iff]
    exact ⟨fun hc => ⟨hc, fun now answer heq => absurd heq (hexpire now answer)⟩, And.left⟩
  · intro address expiry hlookup
    rw [hsources] at hlookup
    obtain ⟨blockedAt, hlatest, heq⟩ := h.source_latest address expiry hlookup
    exact ⟨blockedAt, (latestSource_snoc_of_not blockedAt (hsource address)).2 hlatest, heq⟩
  · intro address blockedAt hlatest hlookup
    rw [hsources] at hlookup
    obtain ⟨e, he, hlapsed⟩ := h.source_lapsed address blockedAt
      ((latestSource_snoc_of_not blockedAt (hsource address)).1 hlatest) hlookup
    exact ⟨e, by simp [he], hlapsed⟩
  · rw [hflows]
    exact h.flow_clear
  · rw [hsources]
    exact h.source_clear
  · rw [hflows]
    exact h.flows_le
  · rw [hsources]
    exact h.sources_le

theorem block (h : Follows settings p history) (u : NetTuple) (now : Instant) :
    Follows settings (p.block u now).1 (history ++ [(.block u now, .block (p.block u now).2)]) := by
  rcases block_cases p u now with ⟨hrefused, hflows, hsources, hset⟩ |
    ⟨hblocked, hsrc, hdest, hroom, hroom', hflows, hsources, hset⟩
  · apply h.quiet _ hflows hsources
    · intro v now' source heq
      exact hrefused source (Answer.block.inj (congrArg Prod.snd heq))
    · intro now' answer heq
      exact absurd (congrArg Prod.fst heq) (by simp)
    · rw [hset]
      exact h.settings_eq
  · rw [h.isAllowListed_eq] at hsrc hdest
    obtain ⟨mode, hmode⟩ := h.settings_eq
    rw [hblocked]
    constructor
    · exact ⟨mode, hset.trans hmode⟩
    · intro t blockedAt
      rw [hflows]
      by_cases hsame : SameConversation u t
      · rw [condemnedAt_snoc_block hsame, (fromTuple_eq_iff u t).2 hsame, AList.lookup_insert,
          Option.some.injEq]
        exact eq_comm
      · have hkey : FlowKey.fromTuple t ≠ FlowKey.fromTuple u :=
          fun heq => hsame ((fromTuple_eq_iff u t).1 heq.symm)
        have hnot : ¬ BlockedFlow t (.block u now, .block (.blocked (some u.srcIp))) := by
          rintro ⟨v, _, _, heq, hsame'⟩
          obtain ⟨rfl, _⟩ := Op.block.inj (congrArg Prod.fst heq)
          exact hsame hsame'
        rw [AList.lookup_insert_ne hkey, h.flow_iff, condemnedAt_snoc_of_not t blockedAt hnot]
        exact ⟨fun hc => ⟨hc, fun now' answer heq => absurd (congrArg Prod.fst heq) (by simp)⟩,
          And.left⟩
    · intro address expiry hlookup
      rw [hsources] at hlookup
      by_cases haddr : address = u.srcIp
      · subst haddr
        rw [AList.lookup_insert, h.sourceBlock_eq, Option.some.injEq] at hlookup
        exact ⟨now, (latestSource_snoc_block u now _ now).2 rfl, hlookup.symm⟩
      · rw [AList.lookup_insert_ne haddr] at hlookup
        obtain ⟨blockedAt, hlatest, heq⟩ := h.source_latest address expiry hlookup
        exact ⟨blockedAt, (latestSource_snoc_of_not blockedAt (other_source haddr)).2 hlatest, heq⟩
    · intro address blockedAt hlatest hlookup
      rw [hsources] at hlookup
      by_cases haddr : address = u.srcIp
      · subst haddr
        rw [AList.lookup_insert] at hlookup
        exact absurd hlookup (by simp)
      · rw [AList.lookup_insert_ne haddr] at hlookup
        obtain ⟨e, he, hlapsed⟩ := h.source_lapsed address blockedAt
          ((latestSource_snoc_of_not blockedAt (other_source haddr)).1 hlatest) hlookup
        exact ⟨e, by simp [he], hlapsed⟩
    · intro key hkey
      rw [hflows, AList.mem_insert] at hkey
      rcases hkey with hkey | hkey
      · rw [hkey, FlowKey.fromTuple]
        split_ifs
        · exact ⟨hsrc, hdest⟩
        · exact ⟨hdest, hsrc⟩
      · exact h.flow_clear key hkey
    · intro address haddress
      rw [hsources, AList.mem_insert] at haddress
      rcases haddress with haddress | haddress
      · rw [haddress]
        exact hsrc
      · exact h.source_clear address haddress
    · have hsize := size_insert_le p.flows (FlowKey.fromTuple u) now
      rw [hmode] at hroom
      rw [hflows]
      exact hsize.trans hroom
    · have hsize := size_insert_le p.sources u.srcIp (now + p.settings.sourceBlock)
      rw [hsources]
      rw [hmode] at hroom'
      exact hsize.trans hroom'

theorem decide (h : Follows settings p history) (t : NetTuple) (now : Instant) :
    Follows settings (p.decide t now).1
      (history ++ [(.decide t now, .decide (p.decide t now).2)]) := by
  obtain ⟨hflows, hset, hsources⟩ := decide_cases p t now
  have hquiet : Follows settings p (history ++ [(.decide t now, .decide (p.decide t now).2)]) := by
    apply h.quiet h.settings_eq rfl rfl
    · intro u now' source heq
      exact absurd (congrArg Prod.fst heq) (by simp)
    · intro now' answer heq
      exact absurd (congrArg Prod.fst heq) (by simp)
  constructor
  · rw [hset]
    exact hquiet.settings_eq
  · rw [hflows]
    exact hquiet.flow_iff
  · intro address expiry hlookup
    rcases hsources with hsame | ⟨_, _, _, herase⟩
    · exact hquiet.source_latest address expiry (hsame ▸ hlookup)
    · rw [herase] at hlookup
      exact hquiet.source_latest address expiry (lookup_of_lookup_erase hlookup).2
  · intro address blockedAt hlatest hlookup
    rcases hsources with hsame | ⟨expiry, hexpiry, hlapsed, herase⟩
    · exact hquiet.source_lapsed address blockedAt hlatest (hsame ▸ hlookup)
    · by_cases haddr : address = t.srcIp
      · subst haddr
        obtain ⟨blockedAt', hlatest', heq⟩ := hquiet.source_latest t.srcIp expiry hexpiry
        rw [hlatest.unique hlatest', ← heq]
        exact ⟨(.decide t now, .decide (p.decide t now).2), by simp, now, rfl, hlapsed⟩
      · rw [herase, AList.lookup_erase_ne haddr] at hlookup
        exact hquiet.source_lapsed address blockedAt hlatest hlookup
  · rw [hflows]
    exact hquiet.flow_clear
  · intro address haddress
    rcases hsources with hsame | ⟨_, _, _, herase⟩
    · exact hquiet.source_clear address (hsame ▸ haddress)
    · rw [herase, AList.mem_erase] at haddress
      exact hquiet.source_clear address haddress.2
  · rw [hflows]
    exact hquiet.flows_le
  · rcases hsources with hsame | ⟨_, _, _, herase⟩
    · rw [hsame]
      exact hquiet.sources_le
    · rw [herase]
      exact (size_erase_le _ _).trans hquiet.sources_le

theorem expire (h : Follows settings p history) (now : Instant)
    (hpast : ∀ e ∈ history, NotBefore e.1 (.expire now)) :
    Follows settings (p.expire now) (history ++ [(.expire now, .none)]) := by
  have hnot : ∀ t, ¬ BlockedFlow t (.expire now, .none) := by
    rintro t ⟨_, _, _, heq, _⟩
    exact absurd (congrArg Prod.fst heq) (by simp)
  have hnot' : ∀ a, ¬ BlockedSource a (.expire now, .none) := by
    rintro a ⟨_, _, _, heq, _⟩
    exact absurd (congrArg Prod.fst heq) (by simp)
  constructor
  · exact h.settings_eq
  · intro t blockedAt
    rw [condemnedAt_snoc_of_not t blockedAt (hnot t), ← h.flow_iff]
    simp only [Prevention.expire, lookup_retain, Option.filter_eq_some_iff, h.sourceBlock_eq,
      decide_eq_true_eq]
    apply and_congr_right
    intro hlookup
    obtain ⟨u, source, since, ⟨before, heq, _⟩, _⟩ := (h.flow_iff t blockedAt).1 hlookup
    have hmem : (Op.block u blockedAt, Answer.block (.blocked source)) ∈ history := by
      rw [heq]
      simp
    have hle : blockedAt ≤ now := hpast _ hmem blockedAt rfl now rfl
    have hlapse := elapsed_lt_iff hle settings.sourceBlock
    rw [hlapse]
    constructor
    · intro hlt now' answer heq
      cases heq
      exact hlt
    · exact fun hall => hall now .none rfl
  · intro address expiry hlookup
    simp only [Prevention.expire, lookup_retain, Option.filter_eq_some_iff] at hlookup
    obtain ⟨blockedAt, hlatest, heq⟩ := h.source_latest address expiry hlookup.1
    exact ⟨blockedAt, (latestSource_snoc_of_not blockedAt (hnot' address)).2 hlatest, heq⟩
  · intro address blockedAt hlatest hlookup
    rw [latestSource_snoc_of_not blockedAt (hnot' address)] at hlatest
    simp only [Prevention.expire, lookup_retain] at hlookup
    cases hold : p.sources.lookup address with
    | none =>
      obtain ⟨e, he, hlapsed⟩ := h.source_lapsed address blockedAt hlatest hold
      exact ⟨e, by simp [he], hlapsed⟩
    | some expiry =>
      obtain ⟨blockedAt', hlatest', heq⟩ := h.source_latest address expiry hold
      rw [hold, Option.filter_some, ite_eq_right_iff] at hlookup
      have hlapsed : expiry ≤ now := by
        by_contra hlive
        exact absurd (hlookup (decide_eq_true (not_le.1 hlive))) (by simp)
      rw [hlatest.unique hlatest', ← heq]
      exact ⟨(.expire now, .none), by simp, now, rfl, hlapsed⟩
  · exact fun key hkey => h.flow_clear key (mem_of_mem_retain hkey)
  · exact fun address haddress => h.source_clear address (mem_of_mem_retain haddress)
  · exact (size_retain_le _ _).trans h.flows_le
  · exact (size_retain_le _ _).trans h.sources_le

theorem step (h : Follows settings p history) (op : Op)
    (hpast : ∀ e ∈ history, NotBefore e.1 op) :
    Follows settings (p.step op).1 (history ++ [(op, (p.step op).2)]) := by
  cases op with
  | block u now => exact h.block u now
  | decide t now => exact h.decide t now
  | expire now => exact h.expire now hpast
  | setMode mode =>
    obtain ⟨_, hmode⟩ := h.settings_eq
    refine h.quiet ⟨mode, ?_⟩ rfl rfl (by simp) (by simp)
    change { p.settings with mode } = { settings with mode }
    rw [hmode]

end Follows

/-- Whatever is asked of the store, in whatever order and with the kill switch thrown at any time: a
packet is dropped exactly when the store is armed, neither endpoint is allow-listed, and its
conversation is condemned or its source blocked; a refused block changes neither table; no
allow-listed address enters a table; and both tables respect their bounds. -/
theorem drop_iff_history (settings : PreventionSettings) (ops : List Op) (t : NetTuple)
    (now : Instant) (hops : (ops ++ [Op.decide t now]).Pairwise NotBefore) :
    let run := Runs.run Prevention.step (Prevention.new settings) ops
    let history := ops.zip run.2
    ((run.1.decide t now).2.isDrop = true ↔
      run.1.settings.mode = .prevent ∧ settings.isAllowListed t.srcIp = false ∧
        settings.isAllowListed t.destIp = false ∧
        ((∃ blockedAt, CondemnedAt settings.sourceBlock history t blockedAt) ∨
          ∃ blockedAt, LatestSource history t.srcIp blockedAt ∧
            now < blockedAt + settings.sourceBlock)) ∧
    (∀ u now', (∀ source, (run.1.block u now').2 ≠ .blocked source) →
      (run.1.block u now').1.flows = run.1.flows ∧
        (run.1.block u now').1.sources = run.1.sources) ∧
    (∀ address, settings.isAllowListed address = true → address ∉ run.1.sources ∧
      ∀ key ∈ run.1.flows, key.lower.ip ≠ address ∧ key.upper.ip ≠ address) ∧
    size run.1.flows ≤ settings.maxBlockedFlows ∧
    size run.1.sources ≤ settings.maxBlockedSources := by
  intro run history
  obtain ⟨hpairs, _, hlast⟩ := List.pairwise_append.1 hops
  have hfollows : Follows settings run.1 history := by
    have hinv := Runs.history_invariant Prevention.step (Follows settings) NotBefore
      (fun p h op hp hpast => hp.step op hpast) (Follows.new settings) (by simp) hpairs
    simpa using hinv
  have hpast : ∀ e ∈ history, NotBefore e.1 (.decide t now) :=
    fun e he => hlast e.1 (List.of_mem_zip (a := e.1) (b := e.2) he).1 _ (by simp)
  refine ⟨?_, ?_, ?_, hfollows.flows_le, hfollows.sources_le⟩
  · rw [decide_isDrop_iff, hfollows.isAllowListed_eq, hfollows.isAllowListed_eq]
    have hflow : FlowKey.fromTuple t ∈ run.1.flows ↔
        ∃ blockedAt, CondemnedAt settings.sourceBlock history t blockedAt := by
      rw [← AList.lookup_isSome, Option.isSome_iff_exists]
      exact exists_congr (fun blockedAt => hfollows.flow_iff t blockedAt)
    have hsource : (∃ expiry, run.1.sources.lookup t.srcIp = some expiry ∧ now < expiry) ↔
        ∃ blockedAt, LatestSource history t.srcIp blockedAt ∧
          now < blockedAt + settings.sourceBlock := by
      constructor
      · rintro ⟨expiry, hlookup, hlive⟩
        obtain ⟨blockedAt, hlatest, heq⟩ := hfollows.source_latest t.srcIp expiry hlookup
        exact ⟨blockedAt, hlatest, heq ▸ hlive⟩
      · rintro ⟨blockedAt, hlatest, hlive⟩
        cases hlookup : run.1.sources.lookup t.srcIp with
        | none =>
          obtain ⟨e, he, now', hnow, hlapsed⟩ :=
            hfollows.source_lapsed t.srcIp blockedAt hlatest hlookup
          have hle : now' ≤ now := hpast e he now' hnow now rfl
          exact absurd hlive (not_lt.2 (hlapsed.trans hle))
        | some expiry =>
          obtain ⟨blockedAt', hlatest', heq⟩ := hfollows.source_latest t.srcIp expiry hlookup
          rw [hlatest.unique hlatest', ← heq] at hlive
          exact ⟨expiry, rfl, hlive⟩
    rw [hflow, hsource]
  · intro u now' hrefused
    rcases block_cases run.1 u now' with ⟨_, hflows, hsources, _⟩ | ⟨hblocked, _⟩
    · exact ⟨hflows, hsources⟩
    · exact absurd hblocked (hrefused _)
  · intro address hallow
    constructor
    · intro hmem
      rw [hfollows.source_clear address hmem] at hallow
      exact absurd hallow (by simp)
    · intro key hkey
      obtain ⟨hlower, hupper⟩ := hfollows.flow_clear key hkey
      constructor
      · intro heq
        rw [heq, hallow] at hlower
        exact absurd hlower (by simp)
      · intro heq
        rw [heq, hallow] at hupper
        exact absurd hupper (by simp)

/-- A block at time zero still condemns the reply at time five, after an expiry at time four. -/
theorem drop_iff_history_reply :
    let request : NetTuple := ⟨.v4 1, some 1024, .v4 2, some 80, .tcp⟩
    let reply : NetTuple := ⟨.v4 2, some 80, .v4 1, some 1024, .tcp⟩
    let settings : PreventionSettings := { mode := .prevent, sourceBlock := 10 }
    let ops := [Op.block request 0, Op.expire 4]
    let history := ops.zip (Runs.run Prevention.step (Prevention.new settings) ops).2
    (∃ blockedAt, CondemnedAt 10 history reply blockedAt) ∨
      ∃ blockedAt, LatestSource history (.v4 2) blockedAt ∧ 5 < blockedAt + 10 := by
  intro request reply settings ops history
  have hops : (ops ++ [Op.decide reply 5]).Pairwise NotBefore := by
    simp [ops, NotBefore, Op.instant]
  exact ((drop_iff_history settings ops reply 5 hops).1.1 (by decide +kernel)).2.2.2

end Prevent
end CyberSentinel
