import CyberSentinel.Config
import CyberSentinel.Networks

/-!
# The overlap policy of a destination

Of the configured networks that have the address in them, the one with the longest prefix gives the
policy. The configuration is checked for networks that are listed twice, so that there is one of
them, in whatever order they are listed.
-/

namespace CyberSentinel

section Sorted

variable {α : Type*} (key : α → ℕ) (p : α → Bool)

/-- In a list sorted from the greatest key down, the first element with the property has the
greatest key of those that have it. -/
theorem find?_insertionSort_greatest {l : List α} {a : α}
    (h : (l.insertionSort fun a b => key b ≤ key a).find? p = some a) :
    a ∈ l ∧ p a = true ∧ ∀ b ∈ l, p b = true → key b ≤ key a := by
  obtain ⟨ha, before, after, hsplit, hbefore⟩ := List.find?_eq_some_iff_append.1 h
  have hmem (b : α) : b ∈ l ↔ b ∈ before ++ a :: after := by
    rw [← hsplit, List.mem_insertionSort]
  have hsorted : (before ++ a :: after).Pairwise fun a b => key b ≤ key a := by
    rw [← hsplit]
    exact List.pairwise_insertionSort _ _
  refine ⟨(hmem a).2 (by simp), ha, fun b hb hpb => ?_⟩
  rcases List.mem_append.1 ((hmem b).1 hb) with hearlier | hlater
  · have hnot := hbefore b hearlier
    rw [hpb] at hnot
    exact absurd hnot Bool.noConfusion
  · rcases List.mem_cons.1 hlater with rfl | hlater
    · exact le_rfl
    · exact (List.pairwise_cons.1 (List.pairwise_append.1 hsorted).2.1).1 b hlater

theorem find?_insertionSort_none {l : List α}
    (h : (l.insertionSort fun a b => key b ≤ key a).find? p = none) : ∀ a ∈ l, p a = false := by
  intro a ha
  rw [List.find?_eq_none] at h
  exact Bool.eq_false_iff.2 (h a ((List.mem_insertionSort _).2 ha))

end Sorted

theorem firstListedTwice_eq_none {seen : List IpNetwork} {entries : List HostPolicy}
    (h : firstListedTwice seen entries = none) :
    (entries.map HostPolicy.network).Nodup ∧ ∀ entry ∈ entries, entry.network ∉ seen := by
  induction entries generalizing seen with
  | nil => exact ⟨List.nodup_nil, fun entry hentry => absurd hentry List.not_mem_nil⟩
  | cons entry rest ih =>
    rw [firstListedTwice] at h
    split_ifs at h with hseen
    obtain ⟨hnodup, hnew⟩ := ih h
    refine ⟨?_, fun other hother => ?_⟩
    · rw [List.map_cons, List.nodup_cons]
      refine ⟨fun hmem => ?_, hnodup⟩
      obtain ⟨other, hother, heq⟩ := List.mem_map.1 hmem
      exact hnew other hother (heq ▸ List.mem_cons_self)
    · rcases List.mem_cons.1 hother with rfl | hother
      · exact hseen
      · exact fun hmem => hnew other hother (List.mem_cons_of_mem _ hmem)

theorem refuseIf_bind_eq_ok {bad : Bool} {message : String} {x : Except ConfigError Unit}
    (h : (refuseIf bad message >>= fun _ => x) = .ok ()) : x = .ok () := by
  rw [refuseIf] at h
  split_ifs at h
  · cases h
  · exact h

theorem ReassemblyConfig.check_networks {c : ReassemblyConfig} (h : c.check = .ok ()) :
    (c.hostPolicies.map HostPolicy.network).Nodup := by
  rw [ReassemblyConfig.check] at h
  iterate 6 replace h := refuseIf_bind_eq_ok h
  cases htwice : firstListedTwice [] c.hostPolicies with
  | some network =>
    rw [htwice] at h
    cases h
  | none => exact (firstListedTwice_eq_none htwice).1

/-- The policy of the longest of the networks that have the address in them, and that of the
configuration where none has. -/
def ReassemblyConfig.PolicyOf (c : ReassemblyConfig) (address : IpAddr)
    (policy : OverlapPolicy) : Prop :=
  (∃ entry ∈ c.hostPolicies, entry.network.contains address = true ∧ entry.policy = policy ∧
    ∀ other ∈ c.hostPolicies, other.network.contains address = true → other ≠ entry →
      other.network.prefixLen < entry.network.prefixLen) ∨
  ((∀ entry ∈ c.hostPolicies, entry.network.contains address = false) ∧ c.overlapPolicy = policy)

theorem ReassemblyConfig.PolicyOf.unique {c : ReassemblyConfig} {address : IpAddr}
    {policy policy' : OverlapPolicy}
    (h : c.PolicyOf address policy) (h' : c.PolicyOf address policy') : policy = policy' := by
  rcases h with ⟨entry, hentry, hcontains, hpolicy, hlongest⟩ | ⟨hnone, hpolicy⟩
  · rcases h' with ⟨entry', hentry', hcontains', hpolicy', hlongest'⟩ | ⟨hnone', -⟩
    · by_cases heq : entry = entry'
      · rw [← hpolicy, ← hpolicy', heq]
      · have hlt := hlongest' entry hentry hcontains heq
        have hgt := hlongest entry' hentry' hcontains' (Ne.symm heq)
        omega
    · rw [hnone' entry hentry] at hcontains
      exact absurd hcontains Bool.noConfusion
  · rcases h' with ⟨entry', hentry', hcontains', -, -⟩ | ⟨-, hpolicy'⟩
    · rw [hnone entry' hentry'] at hcontains'
      exact absurd hcontains' Bool.noConfusion
    · rw [← hpolicy, ← hpolicy']

/-- The meaning of a configuration does not depend on the order of its networks. -/
theorem ReassemblyConfig.PolicyOf.perm {c d : ReassemblyConfig} {address : IpAddr}
    {policy : OverlapPolicy}
    (h : c.PolicyOf address policy) (hpolicies : d.hostPolicies.Perm c.hostPolicies)
    (hdefault : d.overlapPolicy = c.overlapPolicy) : d.PolicyOf address policy := by
  simpa only [PolicyOf, hpolicies.mem_iff, hdefault] using h

theorem PolicyResolver.forDestination_policyOf {c : ReassemblyConfig}
    (h : (c.hostPolicies.map HostPolicy.network).Nodup) (address : IpAddr) :
    c.PolicyOf address ((PolicyResolver.ofConfig c).forDestination address) := by
  rw [forDestination, ofConfig, new]
  cases hfind : ((c.hostPolicies.map fun entry => (entry.network, entry.policy)).insertionSort
      fun a b => b.1.prefixLen ≤ a.1.prefixLen).find? fun entry => entry.1.contains address with
  | none =>
    refine .inr ⟨fun entry hentry => ?_, rfl⟩
    exact find?_insertionSort_none (fun pair : IpNetwork × OverlapPolicy =>
      pair.1.prefixLen) _ hfind _
      (List.mem_map_of_mem hentry)
  | some found =>
    obtain ⟨hfound, hcontains, hgreatest⟩ :=
      find?_insertionSort_greatest (fun pair : IpNetwork × OverlapPolicy =>
        pair.1.prefixLen) _ hfind
    obtain ⟨entry, hentry, rfl⟩ := List.mem_map.1 hfound
    refine .inl ⟨entry, hentry, hcontains, rfl, fun other hother hother' hne => ?_⟩
    have hle := hgreatest _ (List.mem_map_of_mem hother) hother'
    refine lt_of_le_of_ne hle fun heq => hne ?_
    -- networks of one length that have the same address in them are one network, which is listed
    -- once
    have hnetwork : other.network = entry.network := IpNetwork.eq_of_contains hother' hcontains heq
    exact List.inj_on_of_nodup_map h hother hentry hnetwork

/-- The policy of an address is that of the longest configured network with the address in it, and
there is only one such, or the policy of the configuration. It is the same in every order of the
list. What is written as an address, host bits and all, and a prefix length of its family is a
network of that length, and an address is in it exactly if it is of the same family and begins with
as many of the same bits. -/
theorem longest_network_decides (c : ReassemblyConfig) (h : c.check = .ok ()) :
    (∀ address, c.PolicyOf address ((PolicyResolver.ofConfig c).forDestination address)) ∧
    (∀ (d : ReassemblyConfig) (address : IpAddr), d.hostPolicies.Perm c.hostPolicies →
      d.overlapPolicy = c.overlapPolicy →
      (PolicyResolver.ofConfig d).forDestination address =
      (PolicyResolver.ofConfig c).forDestination address) ∧
    (∀ (written : IpAddr) (prefixLen : ℕ), prefixLen ≤ written.maxPrefixLen →
      ∃ network, IpNetwork.parse (written.display ++ '/' :: Nat.toDigits 10 prefixLen) =
        some network ∧
        network.prefixLen = prefixLen ∧
        ∀ address, network.contains address = true ↔
          written.SameFamily address ∧ ∀ i < prefixLen, address.bit i = written.bit i) := by
  have hnodup := ReassemblyConfig.check_networks h
  refine ⟨PolicyResolver.forDestination_policyOf hnodup, fun d address hperm hdefault => ?_,
    fun written prefixLen hle => ?_⟩
  · have hnodup' : (d.hostPolicies.map HostPolicy.network).Nodup := (hperm.map _).nodup_iff.2 hnodup
    have hd := PolicyResolver.forDestination_policyOf hnodup' address
    exact hd.unique ((PolicyResolver.forDestination_policyOf hnodup address).perm hperm hdefault)
  · obtain ⟨network, hnew⟩ : ∃ network, IpNetwork.new written prefixLen = some network :=
      ⟨_, dif_pos hle⟩
    have hbyte : prefixLen < 2 ^ 8 := hle.trans_lt written.maxPrefixLen_lt
    refine ⟨network, ?_, IpNetwork.prefixLen_new hnew, IpNetwork.contains_new hnew⟩
    rw [IpNetwork.parse_written written hbyte, hnew]

def hostOverrideConfig : ReassemblyConfig where
  hostPolicies :=
    [{ network := { address := .v4 0x0A000000#32, prefixLen := 8, prefixLen_le := by decide,
                    mask_eq := by decide },
       policy := .last },
      { network := IpNetwork.host (.v4 0x0A000001#32), policy := .first }]

theorem longest_network_decides_host :
    (∀ address, hostOverrideConfig.PolicyOf address
      ((PolicyResolver.ofConfig hostOverrideConfig).forDestination address)) ∧
    (PolicyResolver.ofConfig hostOverrideConfig).forDestination (.v4 0x0A000001#32) = .first ∧
    (PolicyResolver.ofConfig hostOverrideConfig).forDestination (.v4 0x0A000002#32) = .last :=
  ⟨(longest_network_decides hostOverrideConfig rfl).1, by decide +kernel, by decide +kernel⟩

end CyberSentinel
