import CyberSentinel.FragmentHoles

/-!
# Frames for the fragments of a packet

Any cut of a packet with extension headers can be put on the wire: the fragments are framed as the
packet is, with its own fixed header but for the length and the first next header. A pipeline that
has room for all of them takes them without evicting anything. So the packet is seen in every
delivery exactly if it is not cut at all.
-/

namespace CyberSentinel

open Decode Bytes Tables Detect

/-- A number in `n` bytes, most significant first. -/
def toBigEndian : ℕ → ℕ → List UInt8
  | 0, _ => []
  | n + 1, value => toBigEndian n (value / 256) ++ [UInt8.ofNat value]

theorem length_toBigEndian (n value : ℕ) : (toBigEndian n value).length = n := by
  induction n generalizing value with
  | zero => rfl
  | succ n ih => rw [toBigEndian, List.length_append, ih, List.length_singleton]

theorem fromBigEndian_toBigEndian {n value : ℕ} (h : value < 256 ^ n) :
    fromBigEndian (toBigEndian n value) = value := by
  induction n generalizing value with
  | zero =>
    rw [pow_zero] at h
    obtain rfl : value = 0 := by omega
    rfl
  | succ n ih =>
    have hquotient : value / 256 < 256 ^ n := by
      rw [pow_succ] at h
      exact Nat.div_lt_of_lt_mul (by rwa [Nat.mul_comm])
    have hstep : fromBigEndian (toBigEndian n (value / 256) ++ [UInt8.ofNat value]) =
        fromBigEndian (toBigEndian n (value / 256)) * 256 + (UInt8.ofNat value).toNat := by
      rw [fromBigEndian, List.foldl_append]
      rfl
    rw [toBigEndian, hstep, ih hquotient, UInt8.toNat_ofNat']
    omega

def fragmentHeader (named : UInt8) (offset : ℕ) (more : Bool) (identification : UInt32) :
    List UInt8 :=
  [named, 0] ++ (toBigEndian 2 (offset * 8 + more.toNat) ++ toBigEndian 4 identification.toNat)

theorem fragmentHeader_spec (named : UInt8) {offset : ℕ} (h : offset < 8192) (more : Bool)
    (identification : UInt32) :
    FragmentHeader (fragmentHeader named offset more identification) named
      (UInt16.ofNat offset) more
      identification := by
  have hmore : more.toNat < 2 := Bool.toNat_lt more
  have htwo := length_toBigEndian 2 (offset * 8 + more.toNat)
  have hfour := length_toBigEndian 4 identification.toNat
  have hfield : Bytes.slice (fragmentHeader named offset more identification) 2 (2 + 2) =
      toBigEndian 2 (offset * 8 + more.toNat) := by
    have hmiddle := slice_middle [named, 0] (toBigEndian 2 (offset * 8 + more.toNat))
      (toBigEndian 4 identification.toNat)
    rwa [htwo] at hmiddle
  have hid : Bytes.slice (fragmentHeader named offset more identification) 4 8 =
      toBigEndian 4 identification.toNat := by
    have hmiddle := slice_middle ([named, 0] ++ toBigEndian 2 (offset * 8 + more.toNat))
      (toBigEndian 4 identification.toNat) []
    rwa [List.append_nil, List.append_assoc, List.length_append, htwo, hfour] at hmiddle
  refine ⟨?_, rfl, ?_, ?_, ?_⟩
  · rw [fragmentHeader, List.length_append, List.length_append, htwo, hfour]
    rfl
  · rw [u16At, hfield, fromBigEndian_toBigEndian (by omega)]
    apply UInt16.toNat_inj.1
    rw [UInt16.toNat_shiftRight, UInt16.toNat_ofNat', UInt16.toNat_ofNat',
      show (3 : UInt16).toNat % 16 = 3 from rfl, Nat.shiftRight_eq_div_pow]
    omega
  · have hbyte : (fragmentHeader named offset more identification).getD 3 0 =
        UInt8.ofNat (offset * 8 + more.toNat) := rfl
    rw [hbyte]
    cases more with
    | false =>
      rw [bne_eq_false_iff_eq]
      apply UInt8.toNat_inj.1
      rw [UInt8.toNat_and, UInt8.toNat_ofNat', show (1 : UInt8).toNat = 1 from rfl,
        Nat.and_one_is_mod, show (0 : UInt8).toNat = 0 from rfl]
      simp only [Bool.toNat_false]
      omega
    | true =>
      rw [bne_iff_ne]
      intro heq
      have hnat := congrArg UInt8.toNat heq
      rw [UInt8.toNat_and, UInt8.toNat_ofNat', show (1 : UInt8).toNat = 1 from rfl,
        Nat.and_one_is_mod, show (0 : UInt8).toNat = 0 from rfl] at hnat
      simp only [Bool.toNat_true] at hnat
      omega
  · rw [hid, fromBigEndian_toBigEndian identification.toNat_lt, UInt32.ofNat_toNat]

/-- The headers of a packet can stand in front of a fragment header. -/
theorem ExtensionChain.renamed {first last : UInt8} {headers : List UInt8} {n : ℕ}
    (h : ExtensionChain first headers last n) (renamed : UInt8) :
    ∃ first' headers', headers'.length = headers.length ∧
      ExtensionChain first' headers' renamed n := by
  induction h with
  | nil protocol => exact ⟨renamed, [], rfl, .nil renamed⟩
  | @cons kind last header tail n hextension hkind hlength _ ih =>
    obtain ⟨first', headers', hsame, hchain⟩ := ih
    have height := eight_le_extensionHeaderLen kind (header.getD 1 0)
    cases header with
    | nil =>
      rw [List.length_nil] at hlength
      omega
    | cons byte bytes =>
      refine ⟨kind, (first' :: bytes) ++ headers', ?_, .cons hextension hkind ?_ hchain⟩
      · simp only [List.length_append, List.length_cons, hsame]
      · cases bytes with
        | nil =>
          rw [List.length_singleton] at hlength
          omega
        | cons second bytes => exact hlength

/-- An IPv6 packet like the given one, with another first next header and other bytes after the
fixed header. -/
def likePacket (bytes : List UInt8) (next : UInt8) (rest : List UInt8) : List UInt8 :=
  (bytes.take 4 ++ (toBigEndian 2 rest.length ++ ([next] ++ Bytes.slice bytes 7 40))) ++ rest

theorem Ipv6Packet.like {bytes : List UInt8} {source destination : BitVec 128}
    {headers payload : List UInt8} {n : ℕ} {named : UInt8}
    (h : Ipv6Packet bytes source destination headers n named payload) {next named' : UInt8}
    {headers' payload' : List UInt8} {m : ℕ} (hchain : ExtensionChain next headers' named' m)
    (hfits : (headers' ++ payload').length ≤ 65535) :
    Ipv6Packet (likePacket bytes next (headers' ++ payload')) source destination headers' m named'
      payload' := by
  have hheader := h.header_le
  have htake : (bytes.take 4).length = 4 := by
    rw [List.length_take]
    omega
  have htwo := length_toBigEndian 2 (headers' ++ payload').length
  have hslice : (Bytes.slice bytes 7 40).length = 33 := length_slice bytes (by omega)
  have hfixed : (bytes.take 4 ++ (toBigEndian 2 (headers' ++ payload').length ++
      ([next] ++ Bytes.slice bytes 7 40))).length = 40 := by
    simp only [List.length_append, List.length_singleton, htake, length_toBigEndian, hslice]
  have hlength : (likePacket bytes next (headers' ++ payload')).length =
      40 + (headers' ++ payload').length := by
    rw [likePacket, List.length_append, hfixed]
  have hvalue : u16At (likePacket bytes next (headers' ++ payload')) 4 =
      UInt16.ofNat (headers' ++ payload').length := by
    have hmiddle := slice_middle (bytes.take 4) (toBigEndian 2 (headers' ++ payload').length)
      (([next] ++ Bytes.slice bytes 7 40) ++ (headers' ++ payload'))
    rw [htake, htwo, ← List.append_assoc (toBigEndian _ _), ← List.append_assoc (bytes.take 4)]
      at hmiddle
    rw [u16At, likePacket, hmiddle, fromBigEndian_toBigEndian (by omega)]
  have hkept (k : ℕ) (hlo : 7 ≤ k) (hhi : k < 40) :
      (likePacket bytes next (headers' ++ payload'))[k]? = bytes[k]? := by
    rw [likePacket, List.getElem?_append_left (by omega), List.getElem?_append_right (by omega),
      List.getElem?_append_right (by omega), List.getElem?_append_right (by
        rw [List.length_singleton]; omega), getElem?_slice, htake, htwo, List.length_singleton,
      if_pos (by omega)]
    congr 1
    omega
  refine ⟨?_, ?_, ?_, ?_, ?_, ?_, ?_⟩
  · have hfirst : (likePacket bytes next (headers' ++ payload')).getD 0 0 = bytes.getD 0 0 := by
      apply getD_congr
      rw [likePacket, List.getElem?_append_left (by omega), List.getElem?_append_left (by omega),
        List.getElem?_take_of_lt (by omega)]
    rw [hfirst]
    exact h.version
  · omega
  · rw [hvalue, UInt16.toNat_ofNat', hlength, Nat.mod_eq_of_lt (by omega)]
  · rw [v6At, slice_congr (fun k hlo hhi => hkept k (by omega) (by omega))]
    exact h.source_eq
  · rw [v6At, slice_congr (fun k hlo hhi => hkept k (by omega) (by omega))]
    exact h.destination_eq
  · rw [likePacket, List.drop_left' hfixed]
  · have hnext : (likePacket bytes next (headers' ++ payload')).getD 6 0 = next := by
      rw [likePacket, getD_append_of_lt _ (by omega), List.getD_eq_getElem?_getD,
        List.getElem?_append_right (by omega), List.getElem?_append_right (by omega), htake, htwo]
      rfl
    rw [hnext]
    exact hchain

namespace Defragmenter

theorem push_limits (d : Defragmenter) (order : HashOrder FragmentKey) (fragment : FragmentView)
    (now : Instant) (policy : OverlapPolicy) :
    let d' := (d.push order fragment now policy).1
    d'.maxSets = d.maxSets ∧ d'.maxBytesTotal = d.maxBytesTotal ∧ d'.timeout = d.timeout := by
  let Same (d' : Defragmenter) : Prop :=
    d'.maxSets = d.maxSets ∧ d'.maxBytesTotal = d.maxBytesTotal ∧ d'.timeout = d.timeout
  have hevict (d' : Defragmenter) (key : FragmentKey) (h : Same d') : Same (d'.evictSet key) := by
    unfold evictSet
    cases d'.sets.lookup key with
    | none => exact h
    | some _ => exact h
  have harrive : Same (d.arrive fragment now) :=
    arrive_invariant (P := Same) (fun _ _ h => h) (fun _ _ h => h) fragment now ⟨rfl, rfl, rfl⟩
  have hroom : Same (d.room order fragment now).1 :=
    room_invariant (P := Same) hevict (fun _ _ h => h) (fun _ _ h => h) order fragment now
      ⟨rfl, rfl, rfl⟩
  dsimp only
  change Same (d.push order fragment now policy).1
  by_cases hlarge : maxDatagramLen < fragment.offset.toNat * 8 + fragment.payload.length
  · rw [push, if_pos hlarge]
    exact harrive
  · generalize hpush : d.push order fragment now policy = result
    simp only [push, if_neg hlarge] at hpush
    split at hpush
    · rw [← hpush]
      exact hroom
    · rw [← hpush]
      exact hroom

/-- All that the table holds came at the first instant, and `n` more datagrams fit. -/
structure Roomy (n : ℕ) (d : Defragmenter) : Prop where
  recent : ∀ key set, d.sets.lookup key = some set → set.Sound ∧ set.lastSeen = 0
  patient : 0 < d.timeout
  sets_le : size d.sets + n ≤ d.maxSets
  bytes_le : (size d.sets + n) * maxDatagramLen ≤ d.maxBytesTotal

section Roomy

variable {n : ℕ} {d : Defragmenter}

theorem Roomy.sweep_sets (h : Roomy n d) : (d.sweep 0).sets = d.sets := by
  refine AList.ext (List.filter_eq_self.2 ?_)
  intro entry hentry
  obtain ⟨-, hrecent⟩ := h.recent entry.1 entry.2 (AList.mem_lookup_iff.2 hentry)
  apply decide_eq_true
  rw [hrecent]
  exact h.patient

theorem Roomy.arrive (h : Roomy n d) (fragment : FragmentView) :
    (d.arrive fragment 0).sets = d.sets ∧ (d.arrive fragment 0).maxSets = d.maxSets ∧
      (d.arrive fragment 0).maxBytesTotal = d.maxBytesTotal ∧
      (d.arrive fragment 0).counters.timedOut = d.counters.timedOut ∧
      (d.arrive fragment 0).counters.evicted = d.counters.evicted := by
  have hsets := h.sweep_sets
  have hcount : (d.sweep 0).counters.timedOut =
      d.counters.timedOut + (size d.sets - size (d.sweep 0).sets) := rfl
  rw [hsets, Nat.sub_self, Nat.add_zero] at hcount
  simp only [Defragmenter.arrive, maybeSweep]
  split_ifs
  · exact ⟨hsets, rfl, rfl, hcount, rfl⟩
  · exact ⟨rfl, rfl, rfl, rfl, rfl⟩

theorem Roomy.withinLimits (h : Roomy (n + 1) d) : d.withinLimits = true := by
  have hsets := h.sets_le
  have hbytes := h.bytes_le
  have htotal : d.bufferedBytes ≤ size d.sets * maxDatagramLen :=
    total_le (fun key set hset => (h.recent key set hset).1.bytes_le)
  have hlen : maxDatagramLen = 65535 := rfl
  rw [Defragmenter.withinLimits, activeSets, Bool.and_eq_true, decide_eq_true_iff,
    decide_eq_true_iff]
  constructor
  · omega
  · rw [hlen] at hbytes htotal
    omega

theorem Roomy.room (h : Roomy (n + 1) d) (order : HashOrder FragmentKey) (fragment : FragmentView) :
    (d.room order fragment 0).1.sets = d.sets ∧
      (d.room order fragment 0).1.counters.timedOut = d.counters.timedOut ∧
      (d.room order fragment 0).1.counters.evicted = d.counters.evicted := by
  obtain ⟨hsets, hmax, hbytes, htimed, hevicted⟩ := h.arrive fragment
  have hlimits : (d.arrive fragment 0).withinLimits = true := by
    rw [Defragmenter.withinLimits, activeSets, bufferedBytes, hsets, hmax, hbytes]
    exact h.withinLimits
  simp only [Defragmenter.room, entry]
  cases (d.arrive fragment 0).sets.lookup fragment.key with
  | some set => exact ⟨hsets, htimed, hevicted⟩
  | none =>
    simp only [makeRoom, if_pos hlimits]
    exact ⟨hsets, htimed, hevicted⟩

/-- The set that a fragment leaves, if any, is one that came at the first instant. -/
theorem Roomy.insert (h : Roomy n d) {key : FragmentKey} {set : FragmentSet} (hset : set.Sound)
    (hseen : set.lastSeen = 0) (drop : Bool) {sets : Table FragmentKey FragmentSet}
    (hsets : sets = if drop then (d.sets.insert key set).erase key else d.sets.insert key set) :
    (∀ key set, sets.lookup key = some set → set.Sound ∧ set.lastSeen = 0) ∧
      size sets ≤ size d.sets + 1 := by
  have hinserted : ∀ other found, (d.sets.insert key set).lookup other = some found →
      found.Sound ∧ found.lastSeen = 0 := by
    intro other found hfound
    by_cases hother : other = key
    · rw [hother, AList.lookup_insert] at hfound
      cases hfound
      exact ⟨hset, hseen⟩
    · rw [AList.lookup_insert_ne hother] at hfound
      exact h.recent other found hfound
  have hsize := size_insert_le d.sets key set
  rw [hsets]
  cases drop with
  | false => exact ⟨hinserted, hsize⟩
  | true =>
    refine ⟨?_, (size_erase_le _ key).trans hsize⟩
    intro other found hfound
    rw [if_pos rfl] at hfound
    exact hinserted other found (lookup_of_lookup_erase hfound).2

theorem Roomy.push (h : Roomy (n + 1) d) (order : HashOrder FragmentKey) (fragment : FragmentView)
    (policy : OverlapPolicy) :
    d.Calm (.push order fragment 0 policy) ∧ Roomy n (d.push order fragment 0 policy).1 := by
  obtain ⟨-, -, -, htimed, hevicted⟩ := h.arrive fragment
  obtain ⟨-, htimed', hevicted'⟩ := h.room order fragment
  have hcalm : d.Calm (.push order fragment 0 policy) := by
    obtain ⟨-, -, -, ht, he⟩ | ⟨-, -, -, ht, he⟩ := d.push_spec order fragment 0 policy
    · exact ⟨ht.trans htimed, he.trans hevicted⟩
    · exact ⟨ht.trans htimed', he.trans hevicted'⟩
  refine ⟨hcalm, ?_⟩
  have hkept : (∀ key set, (d.push order fragment 0 policy).1.sets.lookup key = some set →
      set.Sound ∧ set.lastSeen = 0) ∧
      size (d.push order fragment 0 policy).1.sets ≤ size d.sets + 1 := by
    obtain ⟨-, -, hsets⟩ | ⟨-, set, hset, -, hsets⟩ := push_calm hcalm
    · rw [hsets]
      exact ⟨h.recent, Nat.le_succ _⟩
    · have hfound : ((d.sets.lookup fragment.key).getD (fragment.emptySet 0)).Sound ∧
          ((d.sets.lookup fragment.key).getD (fragment.emptySet 0)).lastSeen = 0 := by
        cases hlookup : d.sets.lookup fragment.key with
        | none => exact ⟨fragment.sound_emptySet 0, rfl⟩
        | some found => exact h.recent _ found hlookup
      have hsound := gatherInto_sound hfound.1 fragment 0 policy
      rw [← hset] at hsound
      have hseen : set.lastSeen = 0 := by
        rw [hset]
        exact (congrArg (max · 0) hfound.2).trans (max_self 0)
      exact h.insert hsound hseen _ hsets
  obtain ⟨hmax, hbytes, htimeout⟩ := d.push_limits order fragment 0 policy
  have hsetsLe := h.sets_le
  refine ⟨hkept.1, htimeout ▸ h.patient, ?_, ?_⟩
  · rw [hmax]
    exact (Nat.add_le_add_right hkept.2 n).trans (by omega)
  · rw [hbytes]
    exact (Nat.mul_le_mul_right _ (by omega)).trans h.bytes_le

theorem Roomy.run_calm (h : Roomy n d) {ops : List DefragOp} (hlength : ops.length ≤ n)
    (hops : ∀ op ∈ ops, ∃ order fragment policy, op = .push order fragment 0 policy) :
    Runs.Along act Calm d ops := by
  induction ops generalizing n d with
  | nil => trivial
  | cons op rest ih =>
    obtain ⟨order, fragment, policy, rfl⟩ := hops op List.mem_cons_self
    rw [List.length_cons] at hlength
    obtain ⟨n, rfl⟩ : ∃ k, n = k + 1 := ⟨n - 1, by omega⟩
    obtain ⟨hcalm, hroomy⟩ := h.push order fragment policy
    exact ⟨hcalm, ih hroomy (Nat.le_of_succ_le_succ hlength)
      (fun other hother => hops other (List.mem_cons_of_mem _ hother))⟩

end Roomy
end Defragmenter

theorem Fragmentation.dvd_partStart {payload : List UInt8} {parts : List (List UInt8)}
    (h : Fragmentation payload parts) {i : ℕ} (hi : i < parts.length) : 8 ∣ partStart parts i := by
  induction i with
  | zero => exact Nat.dvd_zero 8
  | succ i ih =>
    have hpart := List.getElem?_eq_getElem (show i < parts.length by omega)
    rw [partStart_succ hpart]
    exact Nat.dvd_add (ih (by omega)) (h.aligned i _ hpart hi).2

theorem Fragmentation.length_le {payload : List UInt8} {parts : List (List UInt8)}
    (h : Fragmentation payload parts) : parts.length ≤ payload.length + 1 := by
  have hstart (i : ℕ) (hi : i < parts.length) : i ≤ partStart parts i := by
    induction i with
    | zero => exact Nat.zero_le _
    | succ i ih =>
      have hpart := List.getElem?_eq_getElem (show i < parts.length by omega)
      have hpos := List.length_pos_of_ne_nil (h.aligned i _ hpart hi).1
      have hle := ih (by omega)
      rw [partStart_succ hpart]
      omega
  have hpos := List.length_pos_of_ne_nil h.ne_nil
  have hlast := hstart (parts.length - 1) (by omega)
  have hle := partStart_le parts (show parts.length - 1 ≤ parts.length by omega)
  rw [h.flatten_eq] at hle
  omega

theorem ExtendedPacket.length_fragmentable_le (packet : ExtendedPacket) :
    packet.fragmentable.length ≤ 65535 := by
  have hlength := congrArg List.length packet.packet.eq_append
  have htotal := packet.packet.payloadLength
  have hbound := (u16At packet.bytes 4).toNat_lt
  have hheader := packet.packet.header_le
  rw [List.length_append, List.length_append, List.length_take] at hlength
  rw [fragmentable]
  omega

section Delivery

variable {R : Regex} {A : AhoCorasick} {E : Etherparse} {packet : ExtendedPacket}
  {identification : UInt32} {parts : List (List UInt8)}

/-- The call with the `i`-th fragment, framed as the packet is. -/
def fragmentCall (packet : ExtendedPacket) (identification : UInt32) (parts : List (List UInt8))
    (next : UInt8) (headers : List UInt8) (i : ℕ) : PipelineOp :=
  let bytes := likePacket packet.bytes next (headers ++ (fragmentHeader packet.first
    (partStart parts i / 8) (decide (i + 1 < parts.length)) identification ++ parts.getD i []))
  let frame := packet.link ++ (bytes ++ [])
  .packet ⟨HashOrder.asStored _, HashOrder.asStored _⟩ ⟨HashOrder.asStored _, HashOrder.asStored _⟩
    (HashOrder.asStored _) ⟨frame, frame.length, 0⟩

theorem fragmentCall_brings (hcut : Fragmentation packet.fragmentable parts)
    (hfits : ∀ part ∈ parts, packet.headers.length + 8 + part.length ≤ 65535) {next : UInt8}
    {headers : List UInt8} (hlength : headers.length = packet.headers.length)
    (hchain : ExtensionChain next headers 44 packet.outer) {i : ℕ} (hi : i < parts.length) :
    (fragmentCall packet identification parts next headers i).BringsPart packet identification parts
      [] i := by
  have hpart := List.getElem?_eq_getElem hi
  have hget : parts.getD i [] = parts[i] := by
    rw [List.getD_eq_getElem?_getD, hpart, Option.getD_some]
  have hstart : partStart parts i ≤ 65535 := by
    have hle := partStart_le parts hi.le
    rw [hcut.flatten_eq] at hle
    exact hle.trans packet.length_fragmentable_le
  have hdvd := hcut.dvd_partStart hi
  have hheader := fragmentHeader_spec packet.first (show partStart parts i / 8 < 8192 by omega)
    (decide (i + 1 < parts.length)) identification
  have hroom := hfits parts[i] (List.getElem_mem hi)
  refine ⟨packet.link, _, headers, _, parts[i], UInt16.ofNat (partStart parts i / 8), rfl, hpart,
    packet.link_header, ?_, hlength, hheader, ?_⟩
  · rw [hget]
    apply packet.packet.like hchain
    rw [List.length_append, List.length_append, hheader.length_eq]
    omega
  · rw [UInt16.toNat_ofNat']
    omega

theorem exists_unclaimed (hcut : Fragmentation packet.fragmentable parts) :
    ∃ identification, Unclaimed packet parts identification := by
  -- what the walk over a part reads, if it comes over a fragment header
  let claim (part : List UInt8) : UInt32 := (walkExtensions
    (maxIpv6ExtensionHeaders - (packet.outer + 1))
    ⟨packet.first, part, false, 0, false, 0, none⟩).identification
  have hfree : ∃ identification, identification ∉ parts.map claim := by
    by_contra hall
    push Not at hall
    have hlength : parts.length ≤ 65536 :=
      hcut.length_le.trans (Nat.succ_le_succ packet.length_fragmentable_le)
    have hsubset : (Finset.range (parts.length + 1)).image UInt32.ofNat ⊆
        (parts.map claim).toFinset := by
      intro identification _
      exact List.mem_toFinset.2 (hall identification)
    have hinjective : Set.InjOn UInt32.ofNat (Finset.range (parts.length + 1) : Set ℕ) := by
      intro n hn m hm hsame
      rw [Finset.coe_range, Set.mem_Iio] at hn hm
      have hnat := congrArg UInt32.toNat hsame
      rw [UInt32.toNat_ofNat', UInt32.toNat_ofNat'] at hnat
      omega
    have hcard := Finset.card_le_card hsubset
    rw [Finset.card_image_of_injOn hinjective, Finset.card_range] at hcard
    have hle := List.toFinset_card_le (parts.map claim)
    rw [List.length_map] at hle
    omega
  obtain ⟨identification, hnot⟩ := hfree
  refine ⟨identification, ?_⟩
  intro part hpart own hown hsame
  have hclaim : claim part = own := hown ⟨packet.first, part, false, 0, false, 0, none⟩
  exact hnot (List.mem_map.2 ⟨part, hpart, hclaim.trans hsame.symm⟩)

def roomyConfig (parts : List (List UInt8)) : Config :=
  { smallWindowConfig with reassembly := {
      maxFragmentSets := parts.length
      maxFragmentBytesTotal := parts.length * maxDatagramLen } }

theorem fragmentCall_calm (next : UInt8) (headers : List UInt8) :
    Runs.Along (PacketPipeline.step (decoder E)) (PacketPipeline.Calm (decoder E))
      (PacketPipeline.new R A (roomyConfig parts))
      ((List.range parts.length).map (fragmentCall packet identification parts next headers)) := by
  rw [PacketPipeline.along_calm]
  refine Defragmenter.Roomy.run_calm (n := parts.length) ⟨?_, ?_, ?_, ?_⟩ ?_ ?_
  · intro key set hset
    exact absurd hset (by simp [PacketPipeline.new, Defragmenter.new])
  · exact Nat.mul_pos (Nat.lt_of_lt_of_le Nat.one_pos (le_max_right _ _)) (by decide)
  · exact (Nat.zero_add _).le.trans (le_max_left _ _)
  · exact (Nat.mul_le_mul_right _ (Nat.zero_add _).le).trans (le_max_left _ _)
  · apply (List.length_filterMap_le _ _).trans
    rw [List.length_map, List.length_range]
  · intro call hcall
    obtain ⟨op, hop, hcalled⟩ := List.mem_filterMap.1 hcall
    obtain ⟨i, -, rfl⟩ := List.mem_map.1 hop
    obtain ⟨network, -, rfl⟩ := Option.map_eq_some_iff.1 hcalled
    exact ⟨_, _, _, rfl⟩

theorem arrives_fragmentCall (hcut : Fragmentation packet.fragmentable parts)
    (hfits : ∀ part ∈ parts, packet.headers.length + 8 + part.length ≤ 65535) {next : UInt8}
    {headers : List UInt8} (hlength : headers.length = packet.headers.length)
    (hchain : ExtensionChain next headers 44 packet.outer) :
    Arrives E packet identification parts (PacketPipeline.new R A (roomyConfig parts))
      ((List.range parts.length).map (fragmentCall packet identification parts next headers)) := by
  refine ⟨fun protocol => rfl, fragmentCall_calm next headers, _, _, List.Perm.refl _, rfl, ?_⟩
  intro i hi
  exact ⟨[], fragmentCall_brings hcut hfits hlength hchain hi⟩

theorem not_seen_fragmentCall (hE : E.ReadsFragmentFields)
    (hcut : Fragmentation packet.fragmentable parts)
    (hfits : ∀ part ∈ parts, packet.headers.length + 8 + part.length ≤ 65535)
    (hmany : 1 < parts.length) (hunclaimed : Unclaimed packet parts identification) {next : UInt8}
    {headers : List UInt8} (hlength : headers.length = packet.headers.length)
    (hchain : ExtensionChain next headers 44 packet.outer) :
    ¬ Seen E packet (PacketPipeline.new R A (roomyConfig parts))
      ((List.range parts.length).map (fragmentCall packet identification parts next headers)) := by
  refine not_seen hE hcut hmany hunclaimed (fun protocol => rfl) (List.Perm.refl _) ?_
  intro i hi
  exact fragmentCall_brings hcut hfits hlength hchain hi

/-- A packet whose fragmentable part begins with extension headers is seen in every delivery exactly
if that part travels in one fragment. -/
theorem fragmented_extensions_handled_iff (hE : E.ReadsFragmentFields)
    (hcut : Fragmentation packet.fragmentable parts)
    (hfits : ∀ part ∈ parts, packet.headers.length + 8 + part.length ≤ 65535) :
    Handled R A E packet parts ↔ parts.length = 1 := by
  refine ⟨?_, handled_of_single hE hcut⟩
  intro hhandled
  by_contra hnot
  have hmany : 1 < parts.length := by
    have hpos := List.length_pos_of_ne_nil hcut.ne_nil
    omega
  obtain ⟨identification, hunclaimed⟩ := exists_unclaimed hcut
  obtain ⟨next, headers, hlength, hchain⟩ := packet.packet.chain.renamed 44
  exact not_seen_fragmentCall hE hcut hfits hmany hunclaimed hlength hchain
    (hhandled identification _ _ (arrives_fragmentCall hcut hfits hlength hchain))

end Delivery

/-- Destination options in front of a UDP header, and eight bytes of data. -/
def optionsPacket : ExtendedPacket where
  link := [2, 0, 0, 0, 0, 1, 2, 0, 0, 0, 0, 2, 0x86, 0xdd]
  bytes := [0x60, 0, 0, 0, 0, 24, 60, 64, 0x20, 1, 0x0d, 0xb8, 0, 0, 0, 0, 0, 0, 0, 0, 0, 0, 0, 1,
    0x20, 1, 0x0d, 0xb8, 0, 0, 0, 0, 0, 0, 0, 0, 0, 0, 0, 2, 17, 0, 1, 4, 0, 0, 0, 0,
    0x13, 0x88, 0, 53, 0, 16, 0, 0, 1, 2, 3, 4, 5, 6, 7, 8]
  trailer := []
  source := 0x20010db8000000000000000000000001
  destination := 0x20010db8000000000000000000000002
  headers := []
  outer := 0
  first := 60
  extensions := [17, 0, 1, 4, 0, 0, 0, 0]
  inner := 1
  protocol := 17
  segment := [0x13, 0x88, 0, 53, 0, 16, 0, 0, 1, 2, 3, 4, 5, 6, 7, 8]
  link_header := ⟨[2, 0, 0, 0, 0, 1, 2, 0, 0, 0, 0, 2, 0x86, 0xdd], [], etherTypeIpv6, 0, rfl,
    ⟨rfl, by decide⟩, .nil _, Nat.zero_le _⟩
  packet := ⟨by decide, by decide, by decide, by decide +kernel, by decide +kernel, rfl, .nil _⟩
  chain := ExtensionChain.cons (by decide)
    (by decide) (show [17, 0, 1, 4, 0, 0, 0, 0].length = _ by rfl)
    (.nil 17)
  inner_pos := Nat.one_pos
  few := by decide
  transport := Or.inr rfl

theorem optionsPacket_fragmentation : Fragmentation optionsPacket.fragmentable
    [optionsPacket.fragmentable] := by
  refine ⟨by rw [List.flatten_cons, List.flatten_nil, List.append_nil], by simp, ?_⟩
  intro i part _ hlast
  simp at hlast

/-- The options and the UDP header in one fragment, the data in the next. -/
def optionsParts : List (List UInt8) :=
  [[17, 0, 1, 4, 0, 0, 0, 0, 0x13, 0x88, 0, 53, 0, 16, 0, 0], [1, 2, 3, 4, 5, 6, 7, 8]]

theorem optionsParts_fragmentation : Fragmentation optionsPacket.fragmentable optionsParts := by
  refine ⟨rfl, by decide, ?_⟩
  intro i part hi hlast
  rw [show optionsParts.length = 2 from rfl] at hlast
  obtain rfl : i = 0 := by omega
  cases hi
  exact ⟨by decide, by decide⟩

theorem optionsParts_fit :
    ∀ part ∈ optionsParts, optionsPacket.headers.length + 8 + part.length ≤ 65535 := by
  decide

/-- Whole, the packet is handled; cut behind its UDP header it is not. -/
theorem fragmented_extensions_handled_iff_options :
    Handled Regex.none AhoCorasick.exhaustive Etherparse.standard optionsPacket
        [optionsPacket.fragmentable] ∧
      ¬ Handled Regex.none AhoCorasick.exhaustive Etherparse.standard optionsPacket
        optionsParts := by
  have hwhole := fragmented_extensions_handled_iff (R := Regex.none) (A := AhoCorasick.exhaustive)
    Etherparse.standard_readsFragmentFields optionsPacket_fragmentation (by decide)
  have hcut := fragmented_extensions_handled_iff (R := Regex.none) (A := AhoCorasick.exhaustive)
    Etherparse.standard_readsFragmentFields optionsParts_fragmentation optionsParts_fit
  exact ⟨hwhole.2 rfl, fun hhandled => absurd (hcut.1 hhandled) (by decide)⟩

/-- All of the packet arrives, in order, and it is not seen. -/
theorem options_fragments_not_seen :
    let p := PacketPipeline.new Regex.none AhoCorasick.exhaustive (roomyConfig optionsParts)
    let ops := (List.range 2).map (fragmentCall optionsPacket 7 optionsParts 44 [])
    Fragmentation optionsPacket.fragmentable optionsParts ∧
      Arrives Etherparse.standard optionsPacket 7 optionsParts p ops ∧
      ¬ Seen Etherparse.standard optionsPacket p ops := by
  have hunclaimed : Unclaimed optionsPacket optionsParts 7 := by
    intro part hpart own hown
    -- no part has a fragment header of its own, so a walk leaves any identification as it was
    have hzero := hown ⟨0, [], true, 0, false, 0, none⟩
    rw [← hzero]
    simp only [optionsParts, List.mem_cons, List.not_mem_nil, or_false] at hpart
    rcases hpart with rfl | rfl
    · decide
    · decide
  exact ⟨optionsParts_fragmentation,
    arrives_fragmentCall optionsParts_fragmentation optionsParts_fit rfl (.nil 44),
    not_seen_fragmentCall Etherparse.standard_readsFragmentFields optionsParts_fragmentation
      optionsParts_fit (by decide) hunclaimed rfl (.nil 44)⟩

end CyberSentinel
