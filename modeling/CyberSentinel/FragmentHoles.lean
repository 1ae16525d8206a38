import CyberSentinel.FragmentedExtensions

/-!
# Fragments that leave a hole

A set one byte of which no fragment brings is never complete. That is what the first fragment of a
packet leaves behind when the decoder takes extension headers off its front, so a packet with
extension headers in its fragmentable part is seen exactly if it travels in one fragment.
-/

namespace CyberSentinel

open Decode Pieces Bytes Tables Spans

namespace Defragmenter

/-- A new set of the datagram has the property, and gathering the fragment of the call keeps it. -/
def Feeds (Q : FragmentSet → Prop) (key : FragmentKey) : DefragOp → Prop
  | .push _ fragment now policy => fragment.key = key → Q (fragment.emptySet now) ∧
      ∀ set, Q set → Q (gatherInto set fragment now policy).1
  | .sweep _ => True

theorem act_sets {Q : FragmentSet → Prop} {key : FragmentKey} {d : Defragmenter}
    (h : ∀ set, d.sets.lookup key = some set → Q set) {op : DefragOp} (hfeeds : Feeds Q key op) :
    (∀ set, (d.act op).1.sets.lookup key = some set → Q set) ∧
      (op.Offers key → ∀ datagram, (d.act op).2 = some datagram →
        ∃ set, Q set ∧ complete set = some datagram) := by
  have hswept (d : Defragmenter) (now : Instant) (h : ∀ set, d.sets.lookup key = some set → Q set) :
      ∀ set, (d.sweep now).sets.lookup key = some set → Q set := by
    intro set hset
    change (retain _ d.sets).lookup key = some set at hset
    rw [lookup_retain, Option.filter_eq_some_iff] at hset
    exact h set hset.1
  have hevicted (d : Defragmenter) (other : FragmentKey)
      (h : ∀ set, d.sets.lookup key = some set → Q set) :
      ∀ set, (d.evictSet other).sets.lookup key = some set → Q set := by
    intro set hset
    unfold evictSet at hset
    cases hother : d.sets.lookup other with
    | none => exact h set (by rwa [hother] at hset)
    | some _ =>
      rw [hother] at hset
      exact h set (lookup_of_lookup_erase hset).2
  cases op with
  | sweep now => exact ⟨hswept d now h, fun hoffers => absurd hoffers id⟩
  | push order fragment now policy =>
    have harrive := arrive_invariant (P := fun d => ∀ set, d.sets.lookup key = some set → Q set)
      hswept (fun _ _ h => h) fragment now h
    have hroom := room_invariant (P := fun d => ∀ set, d.sets.lookup key = some set → Q set)
      hevicted hswept (fun _ _ h => h) order fragment now h
    have hgrown (hkey : fragment.key = key) : Q (d.grown order fragment now policy) := by
      obtain ⟨hnew, hgather⟩ := hfeeds hkey
      apply hgather
      rw [room_set, hkey]
      cases hlookup : (d.arrive fragment now).sets.lookup key with
      | none => exact hnew
      | some set => exact harrive set hlookup
    have hinserted (set : FragmentSet)
        (hset : ((d.room order fragment now).1.sets.insert fragment.key
        (d.grown order fragment now policy)).lookup key = some set) : Q set := by
      by_cases hkey : key = fragment.key
      · rw [hkey, AList.lookup_insert] at hset
        rw [← Option.some.inj hset]
        exact hgrown hkey.symm
      · rw [AList.lookup_insert_ne hkey] at hset
        exact hroom set hset
    obtain ⟨_, hnone, hsets, _⟩ | ⟨_, hanswer, hsets, _⟩ := d.push_spec order fragment now policy
    · refine ⟨?_, fun _ datagram hdatagram => ?_⟩
      · change ∀ set, (d.push order fragment now policy).1.sets.lookup key = some set → Q set
        rw [hsets]
        exact harrive
      · exact absurd (hnone.symm.trans hdatagram) (by simp)
    · refine ⟨?_, fun hkey datagram hdatagram => ⟨_, hgrown hkey, hanswer.symm.trans hdatagram⟩⟩
      change ∀ set, (d.push order fragment now policy).1.sets.lookup key = some set → Q set
      rw [hsets]
      split_ifs
      · intro set hset
        exact hinserted set (lookup_of_lookup_erase hset).2
      · exact hinserted

theorem run_sets {Q : FragmentSet → Prop} {key : FragmentKey} {d : Defragmenter}
    (h : ∀ set, d.sets.lookup key = some set → Q set) {ops : List DefragOp}
    (hfeeds : ∀ op ∈ ops, Feeds Q key op) :
    ∀ set, (Runs.run act d ops).1.sets.lookup key = some set → Q set := by
  induction ops generalizing d with
  | nil => exact h
  | cons op rest ih =>
    exact ih (act_sets h (hfeeds op List.mem_cons_self)).1
      (fun other hother => hfeeds other (List.mem_cons_of_mem _ hother))

/-- The byte at `x` has not come, and the datagram, if its length is known, reaches over it. -/
structure Starved (x : ℕ) (set : FragmentSet) : Prop where
  sound : set.Sound
  hole : set.buffer.byteAt x = none
  lt_total : ∀ total, set.totalLen = some total → x < total

theorem starved_emptySet (x : ℕ) (f : FragmentView) (now : Instant) :
    Starved x (f.emptySet now) := by
  refine ⟨f.sound_emptySet now, ?_, ?_⟩
  · simp [RangeBuffer.byteAt, FragmentView.emptySet, RangeBuffer.new, points]
  · intro total htotal
    cases htotal

theorem Starved.gatherInto {x : ℕ} {set : FragmentSet} (h : Starved x set) {f : FragmentView}
    (hmiss : ¬ (f.start ≤ x ∧ x < f.stop)) (hfinal : f.moreFragments = false → x < f.stop)
    (now : Instant) (policy : OverlapPolicy) :
    Starved x (Defragmenter.gatherInto set f now policy).1 := by
  refine ⟨gatherInto_sound h.sound f now policy, ?_, ?_⟩
  · have hbuffer : (Defragmenter.gatherInto set f now policy).1.buffer =
        (set.buffer.write f.start f.payload policy).1 := by
      rw [Defragmenter.gatherInto, FragmentView.start]
    rw [hbuffer]
    by_cases hadmits : set.buffer.Admits (max f.start set.buffer.base)
        (min (f.start + f.payload.length) set.buffer.windowEnd)
    · rw [FragmentView.stop] at hmiss
      rw [RangeBuffer.write_byteAt_of_admits h.sound.wf _ _ _ hadmits, if_neg (by omega), h.hole]
    · rw [RangeBuffer.write_byteAt_of_not_admits h.sound.wf _ _ _ hadmits, h.hole]
  · intro total htotal
    have hclaims : (Defragmenter.gatherInto set f now policy).1.totalLen =
        if f.moreFragments then set.totalLen else some (set.totalLen.getD f.stop) := rfl
    rw [hclaims] at htotal
    split_ifs at htotal with hmore
    · exact h.lt_total total htotal
    · cases hknown : set.totalLen with
      | none =>
        rw [hknown] at htotal
        rw [← Option.some.inj htotal]
        exact hfinal (Bool.eq_false_iff.2 hmore)
      | some known =>
        rw [hknown] at htotal
        rw [← Option.some.inj htotal]
        exact h.lt_total known hknown

theorem Starved.complete_eq {x : ℕ} {set : FragmentSet} (h : Starved x set) :
    complete set = none := by
  have hend : set.buffer.contiguousEnd ≤ x := by
    by_contra hlt
    have hmem : x ∈ points set.buffer.covered :=
      mem_points_of_lt_firstHole (h.sound.base_eq ▸ Nat.zero_le x) (not_le.1 hlt)
    exact (RangeBuffer.Wf.byteAt_eq_none_iff h.sound.wf x).1 h.hole hmem
  rw [complete, Option.map_eq_none_iff, Option.filter_eq_none_iff]
  intro total htotal hreached
  have hlt := h.lt_total total htotal
  rw [decide_eq_true_iff] at hreached
  omega

end Defragmenter

section Delivery

open Detect

variable {R : Regex} {A : AhoCorasick} {E : Etherparse} {packet : ExtendedPacket}
  {identification : UInt32} {parts : List (List UInt8)}

def partView (packet : ExtendedPacket) (identification : UInt32) (parts : List (List UInt8)) (i : ℕ)
    (offset : UInt16) (part : List UInt8) : FragmentView :=
  let w := partWalk packet identification parts i offset part
  walkedView packet w w.cursor

/-- A fragment whose frame ends with it is offered as the walk over its bytes says. -/
theorem PipelineOp.BringsPart.defragOp_eq (hE : E.ReadsFragmentFields) {op : PipelineOp} {i : ℕ}
    (h : op.BringsPart packet identification parts [] i) :
    ∃ part offset, parts[i]? = some part ∧ offset.toNat * 8 = partStart parts i ∧
      ∀ policy, ∃ sets now overlap, op.defragOp? (decoder E) policy =
        some (.push sets (partView packet identification parts i offset part) now overlap) := by
  cases op with
  | flush order => exact absurd h id
  | packet walks again sets raw =>
    obtain ⟨link, bytes, headers, header, part, offset, hdata, hcarries⟩ := h
    obtain ⟨⟨walked, hwalked⟩, hmarked⟩ := walkExtensions_suffix
      (maxIpv6ExtensionHeaders - (packet.outer + 1))
      ⟨packet.first, part, true, offset, decide (i + 1 < parts.length), identification, none⟩
    refine ⟨part, offset, hcarries.part_eq, hcarries.offset_eq, fun policy => ?_⟩
    have hwalk : partWalk packet identification parts i offset (part ++ []) =
        partWalk packet identification parts i offset part := by
      rw [List.append_nil]
    have hreads := hcarries.reads hE hwalk hwalked (List.append_nil _).symm raw.originalLen
    rw [← hdata] at hreads
    exact ⟨_, _, _, defragOp_eq_of_reads (hmarked rfl) hreads policy⟩

/-- A datagram that is handed over came out of the set of the call. -/
theorem exists_datagram_of_handedBy {D : Decoder} {q : PacketPipeline R A} {op : PipelineOp}
    {call : DefragOp} (hcall : op.defragOp? D q.policy = some call)
    {counted reassembled : PacketSummary}
    (hhanded : q.handedBy D op = [counted, reassembled]) :
    ∃ datagram timestamp, (q.defrag.act call).2 = some datagram ∧
      reassembled = datagram.summary D timestamp := by
  obtain ⟨counted', timestamp, heq⟩ := PacketPipeline.handedBy_of_defragOp hcall
  rw [heq] at hhanded
  cases hanswer : (q.defrag.act call).2 with
  | none =>
    rw [hanswer] at hhanded
    simp at hhanded
  | some datagram =>
    rw [hanswer] at hhanded
    simp only [Option.map_some, Option.toList_some, List.cons.injEq, and_true] at hhanded
    exact ⟨datagram, timestamp, rfl, hhanded.2.symm⟩

/-- What every call of the delivery keeps holds of the set that a datagram handed over came out of.
-/
theorem exists_set_of_handedBy {D : Decoder} {p : PacketPipeline R A}
    {before after : List PipelineOp}
    {op : PipelineOp} {counted reassembled : PacketSummary}
    (hhanded : (Runs.run (PacketPipeline.step D) p before).1.handedBy D op = [counted, reassembled])
    {key : FragmentKey} (hfresh : p.defrag.sets.lookup key = none) {Q : FragmentSet → Prop}
    (hcalls : ∀ other ∈ before ++ op :: after, ∃ call, other.defragOp? D p.policy = some call ∧
      call.Offers key ∧ Defragmenter.Feeds Q key call) :
    ∃ set datagram timestamp, Q set ∧ Defragmenter.complete set = some datagram ∧
      reassembled = Reassembled.summary datagram D timestamp := by
  obtain ⟨call, hcall, hoffers, hfeeds⟩ := hcalls op (by simp)
  have hpolicy : (Runs.run (PacketPipeline.step D) p before).1.policy = p.policy :=
    Runs.invariant (PacketPipeline.step D) (fun q => q.policy = p.policy)
      (fun q op hq => (q.step_policy D op).trans hq) rfl before
  have hcall' : op.defragOp? D (Runs.run (PacketPipeline.step D) p before).1.policy =
      some call := by
    rwa [hpolicy]
  obtain ⟨datagram, timestamp, hanswer, hsummary⟩ := exists_datagram_of_handedBy hcall' hhanded
  rw [PacketPipeline.run_defrag] at hanswer
  have hstart : ∀ set, p.defrag.sets.lookup key = some set → Q set :=
    fun set hset => absurd (hfresh.symm.trans hset) (by simp)
  have hfed : ∀ made ∈ before.filterMap (PipelineOp.defragOp? D p.policy),
      Defragmenter.Feeds Q key made := by
    intro made hmade
    obtain ⟨other, hother, hcalled⟩ := List.mem_filterMap.1 hmade
    obtain ⟨known, hknown, -, hfeed⟩ := hcalls other (List.mem_append_left _ hother)
    rw [hknown] at hcalled
    cases hcalled
    exact hfeed
  have hsets := Defragmenter.run_sets hstart hfed
  obtain ⟨set, hset, hcomplete⟩ :=
    (Defragmenter.act_sets hsets hfeeds).2 hoffers datagram hanswer
  exact ⟨set, datagram, timestamp, hset, hcomplete, hsummary⟩

/-- Walking over none of the parts comes over a fragment header of its own with the identification.
-/
def Unclaimed (packet : ExtendedPacket) (parts : List (List UInt8))
    (identification : UInt32) : Prop :=
  ∀ part ∈ parts, ∀ own, (∀ w : ExtensionWalk, (walkExtensions
    (maxIpv6ExtensionHeaders - (packet.outer + 1))
    { w with protocol := packet.first, cursor := part }).identification = own) →
      identification ≠ own

/-- A part of which the walk has left the identification as it was is at the place its fragment
header says. -/
theorem partView_eq {i : ℕ} {part : List UInt8} {offset : UInt16}
    (hunclaimed : Unclaimed packet parts identification) (hpart : part ∈ parts)
    (hkept : (partView packet identification parts i offset part).identification = identification) :
    (partView packet identification parts i offset part).start = offset.toNat * 8 ∧
      (partView packet identification parts i offset part).moreFragments =
        decide (i + 1 < parts.length) := by
  rcases walkExtensions_fields (maxIpv6ExtensionHeaders - (packet.outer + 1)) packet.first part with
    hfields | ⟨own, hown⟩
  · obtain ⟨-, hoffset, hmore⟩ :=
      hfields ⟨0, [], true, offset, decide (i + 1 < parts.length), identification, none⟩
    exact ⟨congrArg (fun n : UInt16 => n.toNat * 8) hoffset, hmore⟩
  · have hclaims := hown ⟨0, [], true, offset, decide (i + 1 < parts.length), identification, none⟩
    exact absurd (hkept.symm.trans hclaims) (hunclaimed part hpart own hown)

def OneSet (E : Etherparse) (packet : ExtendedPacket) (identification : UInt32)
    (parts : List (List UInt8)) (key : FragmentKey) (policy : PolicyResolver)
    (ops : List PipelineOp) :
    Prop :=
  ∀ op ∈ ops, ∃ i part offset sets now overlap, parts[i]? = some part ∧
    offset.toNat * 8 = partStart parts i ∧
    (partView packet identification parts i offset part).key = key ∧
    op.defragOp? (decoder E) policy =
      some (.push sets (partView packet identification parts i offset part) now overlap)

/-- What the fragments keep in the set of the datagram holds of the set it is handed over from. -/
theorem OneSet.exists_set {key : FragmentKey} {p : PacketPipeline R A}
    {before after : List PipelineOp}
    {op : PipelineOp}
    (h : OneSet E packet identification parts key p.policy (before ++ op :: after))
    {counted reassembled : PacketSummary}
    (hhanded : (Runs.run (PacketPipeline.step (decoder E)) p before).1.handedBy (decoder E) op =
      [counted, reassembled])
    (hfresh : p.defrag.sets.lookup key = none) {Q : FragmentSet → Prop}
    (hnew : ∀ (f : FragmentView) now, f.key = key → Q (f.emptySet now))
    (hgather : ∀ i part offset, parts[i]? = some part → offset.toNat * 8 = partStart parts i →
      (partView packet identification parts i offset part).key = key → ∀ now overlap set, Q set →
        Q (Defragmenter.gatherInto set (partView packet identification parts i offset part) now
          overlap).1) :
    ∃ set datagram timestamp, Q set ∧ Defragmenter.complete set = some datagram ∧
      reassembled = Reassembled.summary datagram (decoder E) timestamp := by
  have hcalls : ∀ other ∈ before ++ op :: after, ∃ call,
      other.defragOp? (decoder E) p.policy = some call ∧ call.Offers key ∧
        Defragmenter.Feeds Q key call := by
    intro other hother
    obtain ⟨i, part, offset, sets, now, overlap, hpart, hoffset, hkey, hcall⟩ := h other hother
    exact ⟨_, hcall, hkey, fun _ => ⟨hnew _ now hkey,
      hgather i part offset hpart hoffset hkey now overlap⟩⟩
  exact exists_set_of_handedBy hhanded hfresh hcalls

/-- The first fragment begins with headers that the walk takes off: nothing brings the bytes in
their place, so the set is never complete. -/
theorem OneSet.starved {key : FragmentKey} {p : PacketPipeline R A} {before after : List PipelineOp}
    {op : PipelineOp}
    (h : OneSet E packet identification parts key p.policy (before ++ op :: after))
    {counted reassembled : PacketSummary}
    (hhanded : (Runs.run (PacketPipeline.step (decoder E)) p before).1.handedBy (decoder E) op =
      [counted, reassembled])
    (hfresh : p.defrag.sets.lookup key = none) (hmany : 1 < parts.length)
    (hunclaimed : Unclaimed packet parts identification)
    (hkey : key.identification = identification)
    {first : List UInt8} {offset : UInt16} (hfirst : parts[0]? = some first)
    (hoffset : offset.toNat * 8 = 0)
    (hfront : packet.extensions ++ (partView packet identification parts 0 offset first).payload =
      first) : False := by
  have hlength := congrArg List.length hfront
  rw [List.length_append] at hlength
  have hextensions := packet.chain.length_le
  have hinner := packet.inner_pos
  obtain ⟨set, datagram, timestamp, hstarved, hcomplete, -⟩ := h.exists_set hhanded hfresh
    (Q := Defragmenter.Starved (partView packet identification parts 0 offset first).payload.length)
    (fun f now _ => Defragmenter.starved_emptySet _ f now) (by
      intro i part offset' hpart hoffset' hview now overlap set hset
      have hkept : (partView packet identification parts i offset' part).identification =
          identification := (congrArg FragmentKey.identification hview).trans hkey
      obtain ⟨hstart, hmore⟩ := partView_eq hunclaimed (List.mem_of_getElem? hpart) hkept
      rw [hoffset'] at hstart
      cases i with
      | zero =>
        rw [hfirst] at hpart
        cases hpart
        have hsame : offset' = offset := by
          rw [show partStart parts 0 = 0 from rfl] at hoffset'
          exact UInt16.toNat_inj.1 (by omega)
        subst hsame
        rw [show partStart parts 0 = 0 from rfl] at hstart
        refine hset.gatherInto ?_ ?_ now overlap
        · rw [FragmentView.stop]
          omega
        · intro hfinal
          rw [hmore, decide_eq_false_iff_not] at hfinal
          exact absurd hmany hfinal
      | succ i =>
        have hmono : partStart parts 1 ≤ partStart parts (i + 1) :=
          partStart_mono parts (Nat.succ_le_succ (Nat.zero_le i))
        rw [partStart_succ hfirst, show partStart parts 0 = 0 from rfl] at hmono
        refine hset.gatherInto ?_ ?_ now overlap
        · omega
        · intro _
          rw [FragmentView.stop]
          omega)
  rw [hstarved.complete_eq] at hcomplete
  cases hcomplete

/-- A packet in two or more fragments is not seen, in whatever order they come, when their frames
end with them and no part of the packet claims the identification for itself. -/
theorem not_seen (hE : E.ReadsFragmentFields) (hcut : Fragmentation packet.fragmentable parts)
    (hmany : 1 < parts.length) (hunclaimed : Unclaimed packet parts identification)
    {p : PacketPipeline R A}
    (hfresh : ∀ protocol, p.defrag.sets.lookup
      ⟨.v6 packet.source, .v6 packet.destination, identification, protocol⟩ = none)
    {arrival : List ℕ} (hperm : arrival.Perm (List.range parts.length)) {call : ℕ → PipelineOp}
    (hbrings : ∀ i < parts.length, (call i).BringsPart packet identification parts [] i) :
    ¬ Seen E packet p (arrival.map call) := by
  rintro ⟨⟨key, hkey⟩, before, op, after, counted, reassembled, hops, hhanded, hsame⟩
  have hview (i : ℕ) (hi : i < parts.length) : ∃ part offset sets now overlap,
      parts[i]? = some part ∧
      offset.toNat * 8 = partStart parts i ∧
      (partView packet identification parts i offset part).key = key ∧
      (call i).defragOp? (decoder E) p.policy =
        some (.push sets (partView packet identification parts i offset part) now overlap) := by
    obtain ⟨part, offset, hpart, hoffset, hcalls⟩ := (hbrings i hi).defragOp_eq hE
    obtain ⟨sets, now, overlap, hcall⟩ := hcalls p.policy
    obtain ⟨made, hmade, hoffers⟩ := hkey (call i)
      (List.mem_map_of_mem ((hperm.mem_iff).2 (List.mem_range.2 hi)))
    rw [hcall] at hmade
    cases hmade
    exact ⟨part, offset, sets, now, overlap, hpart, hoffset, hoffers, hcall⟩
  have hset : OneSet E packet identification parts key p.policy (before ++ op :: after) := by
    intro other hother
    rw [← hops] at hother
    obtain ⟨i, hi, rfl⟩ := List.mem_map.1 hother
    exact ⟨i, hview i (List.mem_range.1 (hperm.mem_iff.1 hi))⟩
  obtain ⟨first, offset, -, -, -, hfirst, hzero, hfirstKey, -⟩ := hview 0 (by omega)
  have hrest : first ++ parts.tail.flatten = packet.extensions ++ packet.segment := by
    rw [show packet.extensions ++ packet.segment = packet.fragmentable from rfl, ← hcut.flatten_eq]
    cases parts with
    | nil => cases hfirst
    | cons head tail =>
      cases hfirst
      rfl
  have hfew := packet.few
  obtain ⟨hidentification, hwalked⟩ := walkExtensions_first packet.chain packet.not_extension hrest
    (show packet.inner ≤ maxIpv6ExtensionHeaders - (packet.outer + 1) by omega)
    ⟨packet.first, first, true, offset, decide (0 + 1 < parts.length), identification, none⟩
  have hkeyEq : key.identification = identification := by
    rw [← hfirstKey]
    exact hidentification
  have hfreshKey : p.defrag.sets.lookup key = none := by
    have hlookup := hfresh key.protocol
    rwa [← hkeyEq, show IpAddr.v6 packet.source = key.source from
      congrArg FragmentKey.source hfirstKey, show IpAddr.v6 packet.destination =
      key.destination from
      congrArg FragmentKey.destination hfirstKey] at hlookup
  rcases hwalked with hfront | hextension
  · exact hset.starved hhanded hfreshKey hmany hunclaimed hkeyEq hfirst hzero hfront
  · -- the set goes by the protocol of an extension header, and so would the datagram
    obtain ⟨set, datagram, timestamp, hprotocol, hcomplete, rfl⟩ :=
      hset.exists_set hhanded hfreshKey
      (Q := fun set => set.protocol = key.protocol)
      (fun f now hf => congrArg FragmentKey.protocol hf)
      (fun i part offset _ _ _ now overlap set hset => hset)
    have hdatagram : datagram.protocol = set.protocol := by
      rw [Defragmenter.complete] at hcomplete
      obtain ⟨total, -, rfl⟩ := Option.map_eq_some_iff.1 hcomplete
      rfl
    obtain ⟨whole, hwhole, hcontent⟩ := hsame p (HashOrder.asStored _) 0 0
    rw [handed_whole hE] at hwhole
    cases hwhole
    have hpacket : datagram.protocol = packet.protocol := hcontent.1
    have hfirstProtocol : (partWalk packet identification parts 0 offset first).protocol =
        packet.protocol :=
      ((congrArg FragmentKey.protocol hfirstKey).trans
        (hdatagram.trans hprotocol).symm).trans hpacket
    have hnot := packet.not_extension
    rw [← hfirstProtocol] at hnot
    exact absurd (hnot.symm.trans hextension) (by decide)

end Delivery

end CyberSentinel
