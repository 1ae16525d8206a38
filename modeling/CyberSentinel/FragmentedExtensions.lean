import CyberSentinel.FragmentFlows

/-!
# Fragments that begin with extension headers

Extension headers in front of the transport header may stand behind the fragment header and are then
cut into fragments with the rest. The decoder walks over them in every fragment: in the first it
moves the start of the fragment's bytes behind them, and in the others it takes what it walks over
for headers. A datagram that travels in one fragment is seen as the packet it is. In two or more the
set is left with a hole, or goes by the protocol of an extension header, or is scattered over
several sets.
-/

namespace CyberSentinel

open Decode Pieces Bytes Tables Detect

/-- An IPv6 packet in a frame: extension headers that every fragment repeats, at least one more that
is fragmented with the rest, and a TCP or UDP segment. With a fragment header there are no more
headers than the decoder walks over. -/
structure ExtendedPacket where
  link : List UInt8
  bytes : List UInt8
  trailer : List UInt8
  source : BitVec 128
  destination : BitVec 128
  headers : List UInt8
  outer : ℕ
  first : UInt8
  extensions : List UInt8
  inner : ℕ
  protocol : UInt8
  segment : List UInt8
  link_header : LinkHeader link etherTypeIpv6
  packet : Ipv6Packet bytes source destination headers outer first (extensions ++ segment)
  chain : ExtensionChain first extensions protocol inner
  inner_pos : 0 < inner
  few : outer + inner < maxIpv6ExtensionHeaders
  transport : protocol = 6 ∨ protocol = 17

namespace ExtendedPacket

def frame (packet : ExtendedPacket) : List UInt8 :=
  packet.link ++ (packet.bytes ++ packet.trailer)

def fragmentable (packet : ExtendedPacket) : List UInt8 := packet.extensions ++ packet.segment

def network (packet : ExtendedPacket) : Network :=
  .ipv6 ⟨packet.source, packet.destination, packet.protocol, false, 0, false, 0⟩

theorem not_extension (packet : ExtendedPacket) : isIpv6Extension packet.protocol = false := by
  rcases packet.transport with h | h
  · rw [h]
    decide
  · rw [h]
    decide

end ExtendedPacket

/-- The frame carries the `i`-th fragment of the packet, with as many headers of the same length in
front of the fragment header as the packet has in front of its fragmentable part. -/
structure CarriesPart (packet : ExtendedPacket) (identification : UInt32)
    (parts : List (List UInt8))
    (i : ℕ) (link bytes headers header part : List UInt8) (offset : UInt16) : Prop where
  part_eq : parts[i]? = some part
  link_header : LinkHeader link etherTypeIpv6
  ipv6 : Ipv6Packet bytes packet.source packet.destination headers packet.outer 44 (header ++ part)
  headers_length : headers.length = packet.headers.length
  fragment : FragmentHeader header packet.first offset
    (decide (i + 1 < parts.length)) identification
  offset_eq : offset.toNat * 8 = partStart parts i

/-- A call with the `i`-th fragment of the packet, in a frame that ends in these bytes. -/
def PipelineOp.BringsPart (packet : ExtendedPacket) (identification : UInt32)
    (parts : List (List UInt8)) (trailer : List UInt8) (i : ℕ) : PipelineOp → Prop
  | .packet _ _ _ raw => ∃ link bytes headers header part offset,
      raw.data = link ++ (bytes ++ trailer) ∧
        CarriesPart packet identification parts i link bytes headers header part offset
  | .flush _ => False

namespace Decode

/-- The walk leaves what the fragment header said, or comes over another fragment header and then
the bytes it walks over determine the identification. -/
theorem walkExtensions_fields (remaining : ℕ) (protocol : UInt8) (cursor : List UInt8) :
    (∀ w : ExtensionWalk,
      let walked := walkExtensions remaining { w with protocol := protocol, cursor := cursor }
      walked.identification = w.identification ∧ walked.fragmentOffset = w.fragmentOffset ∧
        walked.moreFragments = w.moreFragments) ∨
    ∃ own, ∀ w : ExtensionWalk, (walkExtensions remaining
      { w with protocol := protocol, cursor := cursor }).identification = own := by
  induction remaining generalizing protocol cursor with
  | zero =>
    refine Or.inl (fun w => ?_)
    dsimp only
    rw [walkExtensions]
    split_ifs
    · exact ⟨rfl, rfl, rfl⟩
    · exact ⟨rfl, rfl, rfl⟩
  | succ remaining ih =>
    by_cases hextension : isIpv6Extension protocol = true
    · cases hlen : ipv6ExtensionLen protocol cursor with
      | none =>
        refine Or.inl (fun w => ?_)
        dsimp only
        rw [walkExtensions, if_pos hextension, hlen]
        exact ⟨rfl, rfl, rfl⟩
      | some len =>
        have hnext (w : ExtensionWalk) :
            walkExtensions (remaining + 1) { w with protocol := protocol, cursor := cursor } =
              walkExtensions remaining
                (ExtensionWalk.next { w with protocol := protocol, cursor := cursor } len) := by
          rw [walkExtensions, if_pos hextension, hlen]
        by_cases hkind : protocol = 44
        · -- another fragment header
          right
          rcases ih (cursor.getD 0 0) (cursor.drop len) with hkept | ⟨own, hown⟩
          · refine ⟨UInt32.ofNat (fromBigEndian (Bytes.slice cursor 4 8)), fun w => ?_⟩
            rw [hnext]
            simp only [ExtensionWalk.next, if_pos hkind]
            exact (hkept { w with
              isFragment := true
              fragmentOffset := u16At cursor 2 >>> 3
              moreFragments := cursor.getD 3 0 &&& 1 != 0
              identification := UInt32.ofNat (fromBigEndian (Bytes.slice cursor 4 8)) }).1
          · refine ⟨own, fun w => ?_⟩
            rw [hnext]
            simp only [ExtensionWalk.next, if_pos hkind]
            exact hown { w with
              isFragment := true
              fragmentOffset := u16At cursor 2 >>> 3
              moreFragments := cursor.getD 3 0 &&& 1 != 0
              identification := UInt32.ofNat (fromBigEndian (Bytes.slice cursor 4 8)) }
        · rcases ih (cursor.getD 0 0) (cursor.drop len) with hkept | ⟨own, hown⟩
          · refine Or.inl (fun w => ?_)
            dsimp only
            rw [hnext]
            simp only [ExtensionWalk.next, if_neg hkind]
            exact hkept w
          · refine Or.inr ⟨own, fun w => ?_⟩
            rw [hnext]
            simp only [ExtensionWalk.next, if_neg hkind]
            exact hown w
    · refine Or.inl (fun w => ?_)
      dsimp only
      rw [walkExtensions, if_neg hextension]
      exact ⟨rfl, rfl, rfl⟩

/-- Of the first bytes of a packet's extension headers and segment the walk takes all headers, or it
stops at one that is not all there. -/
theorem walkExtensions_first {first last : UInt8} {extensions : List UInt8} {n : ℕ}
    (h : ExtensionChain first extensions last n) (hlast : isIpv6Extension last = false)
    {part rest segment : List UInt8} (hpart : part ++ rest = extensions ++ segment) {remaining : ℕ}
    (hle : n ≤ remaining) (w : ExtensionWalk) :
    let walked := walkExtensions remaining { w with protocol := first, cursor := part }
    walked.identification = w.identification ∧
      (extensions ++ walked.cursor = part ∨ isIpv6Extension walked.protocol = true) := by
  induction h generalizing part remaining with
  | nil protocol =>
    dsimp only
    rw [walkExtensions_transport hlast]
    exact ⟨rfl, Or.inl rfl⟩
  | @cons kind last header tail n hextension hkind hlength _ ih =>
    obtain ⟨remaining, rfl⟩ : ∃ k, remaining = k + 1 := ⟨remaining - 1, by omega⟩
    have height := eight_le_extensionHeaderLen kind (header.getD 1 0)
    dsimp only
    rw [walkExtensions, if_pos hextension]
    by_cases hwhole : header.length ≤ part.length
    · obtain ⟨part, rfl⟩ : ∃ after, part = header ++ after := by
        have hbegins : header <+: part := by
          have hwire : header <+: part ++ rest := by
            rw [hpart, List.append_assoc]
            exact List.prefix_append _ _
          exact List.prefix_of_prefix_length_le hwire (List.prefix_append _ _) hwhole
        exact ⟨_, hbegins.choose_spec.symm⟩
      rw [ipv6ExtensionLen_append hkind hlength]
      simp only [ExtensionWalk.next, if_neg hkind, List.drop_left]
      rw [getD_append_of_lt _ (by omega)]
      rw [List.append_assoc, List.append_assoc, List.append_cancel_left_eq] at hpart
      obtain ⟨hidentification, hcases⟩ := ih hlast hpart (Nat.le_of_succ_le_succ hle)
      refine ⟨hidentification, hcases.imp_left (fun hcursor => ?_)⟩
      rw [List.append_assoc, hcursor]
    · have hnone : ipv6ExtensionLen kind part = none := by
        rw [ipv6ExtensionLen]
        by_cases hshort : part.length < 2
        · rw [if_pos hshort]
        · have hsecond : part.getD 1 0 = header.getD 1 0 := by
            rw [← getD_append_of_lt rest (by omega), hpart, List.append_assoc,
              getD_append_of_lt _ (by omega)]
          have hlen : (if kind = 44 then 8
              else if kind = 51 then ((part.getD 1 0).toNat + 2) * 4
              else ((part.getD 1 0).toNat + 1) * 8) = header.length := by
            rw [if_neg hkind, hsecond, hlength, extensionHeaderLen]
          simp only [hlen]
          rw [if_neg hshort, if_neg hwhole]
      rw [hnone]
      exact ⟨rfl, Or.inr hextension⟩

end Decode

theorem ExtensionChain.append {first middle last : UInt8} {headers rest : List UInt8} {n m : ℕ}
    (h : ExtensionChain first headers middle n) (h' : ExtensionChain middle rest last m) :
    ExtensionChain first (headers ++ rest) last (n + m) := by
  induction h with
  | nil protocol => rwa [List.nil_append, Nat.zero_add]
  | cons hextension hkind hlength _ ih =>
    rw [List.append_assoc, Nat.add_right_comm]
    exact .cons hextension hkind hlength (ih h')

theorem ExtensionChain.length_le {first last : UInt8} {headers : List UInt8} {n : ℕ}
    (h : ExtensionChain first headers last n) : 8 * n ≤ headers.length := by
  induction h with
  | nil protocol => exact Nat.zero_le _
  | @cons kind last header tail n _ _ hlength _ ih =>
    have height := eight_le_extensionHeaderLen kind (header.getD 1 0)
    rw [List.length_append]
    omega

/-- The packet in its frame, all its extension headers in front of the segment. -/
theorem ExtendedPacket.carries (packet : ExtendedPacket) :
    CarriesPacket packet.frame packet.network packet.segment := by
  have hpacket := packet.packet
  have hwhole : Ipv6Packet packet.bytes packet.source packet.destination
      (packet.headers ++ packet.extensions) (packet.outer + packet.inner) packet.protocol
      packet.segment :=
    ⟨hpacket.version, hpacket.header_le, hpacket.payloadLength, hpacket.source_eq,
      hpacket.destination_eq, by rw [hpacket.rest_eq, List.append_assoc],
      hpacket.chain.append packet.chain⟩
  exact .ipv6 rfl packet.link_header hwhole packet.few packet.not_extension

section Delivery

variable {R : Regex} {A : AhoCorasick} {E : Etherparse} {packet : ExtendedPacket}
  {identification : UInt32} {parts : List (List UInt8)}

/-- How far the headers of a fragment are walked that brings these bytes. -/
def partWalk (packet : ExtendedPacket) (identification : UInt32) (parts : List (List UInt8)) (i : ℕ)
    (offset : UInt16) (bytes : List UInt8) : ExtensionWalk :=
  walkExtensions (maxIpv6ExtensionHeaders - (packet.outer + 1))
    ⟨packet.first, bytes, true, offset, decide (i + 1 < parts.length), identification, none⟩

def walkedNetwork (packet : ExtendedPacket) (w : ExtensionWalk) : Network :=
  .ipv6 ⟨packet.source, packet.destination, w.protocol, w.isFragment, w.fragmentOffset,
    w.moreFragments, w.identification⟩

theorem CarriesPart.reads (hE : E.ReadsFragmentFields) {i : ℕ}
    {link bytes headers header part trailer : List UInt8} {offset : UInt16}
    (h : CarriesPart packet identification parts i link bytes headers header part offset)
    {w : ExtensionWalk} (hw : partWalk packet identification parts i offset (part ++ trailer) = w)
    {walked rest : List UInt8} (hpart : part = walked ++ rest)
    (hcursor : w.cursor = rest ++ trailer)
    (originalLen : ℕ) :
    Reads E ((decoder E).decode (link ++ (bytes ++ trailer)) originalLen) (walkedNetwork packet w)
      rest := by
  have hfew := packet.few
  obtain ⟨d, hd, hdecode⟩ := decode_network hE h.link_header (by decide) bytes trailer originalLen
  have hreads : Reads E (decode E (link ++ (bytes ++ trailer)) originalLen).toDecoded
      (walkedNetwork packet w) rest := by
    rw [hdecode, decodeNetwork, if_neg (by decide), if_pos rfl]
    refine decodeIpv6_fragment hE.toReadsStandardFields (hd.congr ?_) h.ipv6 h.fragment
      (show packet.outer + (maxIpv6ExtensionHeaders - (packet.outer + 1) + 1) =
        maxIpv6ExtensionHeaders by omega) hw hpart hcursor
    rfl
  exact hreads

/-- What the defragmenter is offered when the walk finds a fragment. -/
def walkedView (packet : ExtendedPacket) (w : ExtensionWalk) (payload : List UInt8) :
    FragmentView where
  source := .v6 packet.source
  destination := .v6 packet.destination
  identification := w.identification
  protocol := w.protocol
  offset := w.fragmentOffset
  moreFragments := w.moreFragments
  payload := payload

theorem defragOp_eq_of_reads {walks again : Walks} {sets : HashOrder FragmentKey} {raw : RawPacket}
    {w : ExtensionWalk} {payload : List UInt8} (hmarked : w.isFragment = true)
    (hreads : Reads E ((decoder E).decode raw.data raw.originalLen)
    (walkedNetwork packet w) payload)
    (policy : PolicyResolver) :
    (PipelineOp.packet walks again sets raw).defragOp? (decoder E) policy =
      some (.push sets (walkedView packet w payload) raw.timestamp
        (policy.forDestination (.v6 packet.destination))) := by
  have hview : ((decoder E).decode raw.data raw.originalLen).fragmentView (walkedNetwork packet w) =
      walkedView packet w payload := by
    simp only [Decoded.fragmentView, hreads.networkPayload_eq]
    rfl
  have hfragment : (walkedNetwork packet w).isFragment = true := hmarked
  simp only [PipelineOp.defragOp?, hreads.network_eq, Option.filter_some, hfragment, if_true,
    Option.map_some, hview]
  rfl

/-- The fragments of a packet come to a pipeline that has nothing of the datagram yet, each of them
once and in any order; nothing times out and nothing is evicted. -/
structure Arrives (E : Etherparse) (packet : ExtendedPacket) (identification : UInt32)
    (parts : List (List UInt8)) (p : PacketPipeline R A) (ops : List PipelineOp) : Prop where
  fresh : ∀ protocol, p.defrag.sets.lookup
    ⟨.v6 packet.source, .v6 packet.destination, identification, protocol⟩ = none
  calm : Runs.Along (PacketPipeline.step (decoder E)) (PacketPipeline.Calm (decoder E)) p ops
  arrival : ∃ (arrival : List ℕ) (call : ℕ → PipelineOp), arrival.Perm (List.range parts.length) ∧
    ops = arrival.map call ∧
    ∀ i < parts.length, ∃ trailer, (call i).BringsPart packet identification parts trailer i

/-- All calls offer a fragment of one datagram, and with one of them the flow table is handed a
packet with the transport layer that it is handed for the whole packet. -/
def Seen (E : Etherparse) (packet : ExtendedPacket) (p : PacketPipeline R A)
    (ops : List PipelineOp) :
    Prop :=
  (∃ key, ∀ op ∈ ops, ∃ call, op.defragOp? (decoder E) p.policy = some call ∧ call.Offers key) ∧
    ∃ before op after counted reassembled, ops = before ++ op :: after ∧
      (Runs.run (PacketPipeline.step (decoder E)) p before).1.handedBy (decoder E) op =
        [counted, reassembled] ∧
      ∀ (q : PacketPipeline R A) sets originalLen timestamp, ∃ whole,
        q.handed (decoder E) sets ((decoder E).decode packet.frame originalLen) timestamp =
        [whole] ∧
          reassembled.SameContent whole

variable (E R A packet parts) in
/-- Cut into these parts the packet is seen, however it is framed, whatever its identification and
in whatever order the fragments come. -/
def Handled : Prop :=
  ∀ (identification : UInt32) (p : PacketPipeline R A) (ops : List PipelineOp),
    Arrives E packet identification parts p ops → Seen E packet p ops

theorem handed_whole (hE : E.ReadsFragmentFields) (q : PacketPipeline R A)
    (sets : HashOrder FragmentKey) (originalLen : ℕ) (timestamp : Instant) :
    q.handed (decoder E) sets ((decoder E).decode packet.frame originalLen) timestamp =
      [((decoder E).decode packet.frame originalLen).summary packet.protocol (.v6 packet.source)
        (.v6 packet.destination) timestamp] := by
  have hreads := decode_reads hE packet.carries originalLen
  have hnetwork : ((decoder E).decode packet.frame originalLen).network = some packet.network :=
    hreads.network_eq
  simp only [PacketPipeline.handed, hnetwork]
  rfl

/-- A packet in one fragment: the walk goes over all its headers, and the datagram is the segment.
-/
theorem offersPart_single (hE : E.ReadsFragmentFields) (hcut : parts = [packet.fragmentable])
    {op : PipelineOp} {trailer : List UInt8}
    (h : op.BringsPart packet identification parts trailer 0) :
    op.OffersPart (decoder E) (packet.network.fragmentKey identification) [packet.segment] 0 := by
  cases op with
  | flush order => exact absurd h id
  | packet walks again sets raw =>
    obtain ⟨link, bytes, headers, header, part, offset, hdata, hcarries⟩ := h
    have hfew := packet.few
    have hpart : part = packet.extensions ++ packet.segment := by
      have heq := hcarries.part_eq
      rw [hcut] at heq
      cases heq
      rfl
    have hoffset : offset = 0 := by
      have heq := hcarries.offset_eq
      rw [show partStart parts 0 = 0 from rfl] at heq
      exact UInt16.toNat_inj.1 (show offset.toNat = 0 by omega)
    have hmore : decide (0 + 1 < parts.length) = false := by
      rw [hcut]
      rfl
    have hwalk : partWalk packet identification parts 0 offset (part ++ trailer) =
        ⟨packet.protocol, packet.segment ++ trailer, true, 0, false, identification, none⟩ := by
      rw [partWalk, hmore, hoffset, hpart, List.append_assoc,
        show maxIpv6ExtensionHeaders - (packet.outer + 1) = packet.inner +
          (maxIpv6ExtensionHeaders - (packet.outer + 1) - packet.inner) by omega]
      refine (walkExtensions_chain packet.chain _ _
        ⟨0, [], true, 0, false, identification, none⟩).trans ?_
      exact walkExtensions_transport packet.not_extension _
    have hreads := hcarries.reads hE hwalk hpart rfl raw.originalLen
    rw [← hdata] at hreads
    refine ⟨_, ?_, ?_, fun policy => ⟨_, _, _, defragOp_eq_of_reads rfl hreads policy⟩⟩
    · rfl
    · exact ⟨rfl, rfl, rfl⟩

theorem handled_of_single (hE : E.ReadsFragmentFields)
    (hcut : Fragmentation packet.fragmentable parts)
    (hsingle : parts.length = 1) : Handled R A E packet parts := by
  intro identification p ops h
  have hparts : parts = [packet.fragmentable] := by
    obtain ⟨part, rfl⟩ := List.length_eq_one_iff.1 hsingle
    rw [← hcut.flatten_eq, List.flatten_cons, List.flatten_nil, List.append_nil]
  obtain ⟨arrival, call, hperm, hops, hbrings⟩ := h.arrival
  rw [hsingle] at hperm hbrings
  rw [show arrival = [0] from List.perm_singleton.1 hperm, List.map_singleton] at hops
  subst hops
  obtain ⟨trailer, hbrought⟩ := hbrings 0 Nat.one_pos
  have hoffers := offersPart_single hE hparts hbrought
  have hsegment : Fragmentation packet.segment [packet.segment] :=
    ⟨by rw [List.flatten_cons, List.flatten_nil, List.append_nil], by simp, by
      intro i part _ hlast
      simp at hlast⟩
  have hoffered : Offered (decoder E) (packet.network.fragmentKey identification) [packet.segment] p
      [] (call 0) := by
    refine ⟨h.fresh packet.protocol, h.calm, ?_, ?_, 0, by simp, by simp⟩
    · intro other hother
      rw [List.nil_append, List.mem_singleton] at hother
      rw [hother]
      exact Or.inl ⟨0, hoffers⟩
    · intro i hi
      rw [List.length_singleton] at hi
      obtain rfl : i = 0 := by omega
      exact ⟨call 0, by simp, hoffers⟩
  obtain ⟨-, counted, reassembled, received, hhanded, hdata, hsource, hdestination, hprotocol⟩ :=
    hoffered.handed hsegment packet.carries.length_le (show 1 ≤ maxHolesPerDatagram by decide)
  constructor
  · obtain ⟨view, hkey, -, hview⟩ := hoffers
    obtain ⟨order, now, overlap, hcall⟩ := hview p.policy
    refine ⟨packet.network.fragmentKey identification, ?_⟩
    intro other hother
    rw [List.mem_singleton] at hother
    rw [hother]
    exact ⟨_, hcall, hkey⟩
  · refine ⟨[], call 0, [], counted, _, rfl, hhanded, ?_⟩
    intro q sets originalLen timestamp
    exact ⟨_, handed_whole hE q sets originalLen timestamp, summary_sameContent
      (decode_reads hE packet.carries originalLen) rfl hprotocol hsource hdestination hdata received
      timestamp⟩

end Delivery

end CyberSentinel
