import CyberSentinel.Fragments
import CyberSentinel.InspectionWindow
import CyberSentinel.Reassembly

/-!
# Fragmentation is transparent to flow tracking

A packet that is cut into fragments is seen by the flow table as the packet it was. The fragments
may come in any order, some of them more than once and other traffic between them: each is counted
by itself, and with the one that fills the last hole the datagram is handed over once, between the
same endpoints and with the same transport layer as the whole packet would have had.
-/

namespace CyberSentinel

open Decode Pieces Bytes Tables Detect

section Delivery

variable {R : Regex} {A : AhoCorasick}

def Network.fragmentKey (network : Network) (identification : UInt32) : FragmentKey :=
  ⟨network.source, network.destination, identification, network.protocol⟩

/-- What the headers of the `i`-th fragment of a packet say. -/
structure FragmentOf (network : Network) (identification : UInt32)
    (parts : List (List UInt8)) (i : ℕ)
    (fragment : Network) : Prop where
  marked : fragment.isFragment = true
  source_eq : fragment.source = network.source
  destination_eq : fragment.destination = network.destination
  protocol_eq : fragment.protocol = network.protocol
  identification_eq : fragment.identification = identification
  offset_eq : fragment.fragmentOffset.toNat * 8 = partStart parts i
  more_eq : fragment.moreFragments = decide (i + 1 < parts.length)

def CarriesFragment (network : Network) (identification : UInt32)
    (parts : List (List UInt8)) (i : ℕ)
    (frame : List UInt8) : Prop :=
  ∃ part fragment, parts[i]? = some part ∧ FragmentOf network identification parts i fragment ∧
    CarriesPacket frame fragment part

/-- The call brings the `i`-th fragment of the packet. -/
def PipelineOp.Brings (network : Network) (identification : UInt32) (parts : List (List UInt8))
    (i : ℕ) : PipelineOp → Prop
  | .packet _ _ _ raw => CarriesFragment network identification parts i raw.data
  | .flush _ => False

/-- The fragments of a packet come to a pipeline that has nothing of the datagram yet, each at least
once and the last missing one with the last call, with other traffic between them; nothing times out
and nothing is evicted. -/
structure Delivered (E : Etherparse) (network : Network) (identification : UInt32)
    (parts : List (List UInt8)) (p : PacketPipeline R A) (before : List PipelineOp)
    (last : PipelineOp) : Prop where
  fresh : p.defrag.sets.lookup (network.fragmentKey identification) = none
  calm : Runs.Along (PacketPipeline.step (decoder E)) (PacketPipeline.Calm (decoder E)) p
    (before ++ [last])
  each : ∀ op ∈ before ++ [last], (∃ i, op.Brings network identification parts i) ∨
    op.Elsewhere (decoder E) (network.fragmentKey identification)
  all : ∀ i < parts.length, ∃ op ∈ before ++ [last], op.Brings network identification parts i
  missing : ∃ i < parts.length, ∀ op ∈ before, ¬ op.Brings network identification parts i

/-- The same packet to the flow table, but for its length and the time. -/
def PacketSummary.SameContent (packet packet' : PacketSummary) : Prop :=
  packet.protocol = packet'.protocol ∧ packet.source = packet'.source ∧
    packet.destination = packet'.destination ∧ packet.payload = packet'.payload ∧
    packet.tcp = packet'.tcp

theorem CarriesPacket.length_le {frame payload : List UInt8} {network : Network}
    (h : CarriesPacket frame network payload) : payload.length ≤ maxDatagramLen := by
  have hbound (bytes : List UInt8) (i : ℕ) : (u16At bytes i).toNat ≤ maxDatagramLen :=
    Nat.le_of_lt_succ (u16At bytes i).toNat_lt
  cases h with
  | @ipv4 link bytes trailer payload ip _ _ packet =>
    have hlength := congrArg List.length packet.payload_eq
    have htotal := packet.totalLen
    have hle := hbound bytes 2
    rw [List.length_drop] at hlength
    omega
  | @ipv6 link bytes trailer headers payload source destination n protocol _ _ packet _ _ =>
    have hlength := congrArg List.length packet.eq_append
    have htotal := packet.payloadLength
    have hheader := packet.header_le
    have hle := hbound bytes 4
    rw [List.length_append, List.length_append, List.length_take] at hlength
    omega
  | @ipv6Fragment link bytes trailer headers header payload source destination n
    protocol offset more
      identification _ _ packet _ _ _ =>
    have hlength := congrArg List.length packet.eq_append
    have htotal := packet.payloadLength
    have hheader := packet.header_le
    have hle := hbound bytes 4
    rw [List.length_append, List.length_append, List.length_take, List.length_append] at hlength
    omega

variable {E : Etherparse} {network : Network} {identification : UInt32} {parts : List (List UInt8)}
  {payload : List UInt8}

/-- A fragment of the packet is offered to the defragmenter as that part of the datagram. -/
theorem PipelineOp.Brings.offersPart (hE : E.ReadsFragmentFields) {op : PipelineOp} {i : ℕ}
    (h : op.Brings network identification parts i) :
    op.OffersPart (decoder E) (network.fragmentKey identification) parts i := by
  cases op with
  | flush order => exact absurd h id
  | packet walks again sets raw =>
    obtain ⟨part, fragment, hpart, hfragment, hcarries⟩ := h
    have hreads := decode_reads hE hcarries raw.originalLen
    refine ⟨((decoder E).decode raw.data raw.originalLen).fragmentView fragment, ?_, ?_, ?_⟩
    · simp only [FragmentView.key, Decoded.fragmentView, Network.fragmentKey, hfragment.source_eq,
        hfragment.destination_eq, hfragment.identification_eq, hfragment.protocol_eq]
    · refine ⟨?_, hfragment.offset_eq, hfragment.more_eq⟩
      rw [hpart]
      exact congrArg some hreads.networkPayload_eq.symm
    · intro policy
      have hnetwork : ((decoder E).decode raw.data raw.originalLen).network = some fragment :=
        hreads.network_eq
      refine ⟨sets, raw.timestamp, policy.forDestination fragment.destination, ?_⟩
      simp only [defragOp?, hnetwork, Option.filter_some, hfragment.marked, if_true,
        Option.map_some]

theorem Delivered.offered (hE : E.ReadsFragmentFields) (hcut : Fragmentation payload parts)
    {p : PacketPipeline R A} {before : List PipelineOp} {last : PipelineOp}
    (h : Delivered E network identification parts p before last) :
    Offered (decoder E) (network.fragmentKey identification) parts p before last := by
  have heach (op : PipelineOp) (hop : op ∈ before ++ [last]) :=
    (h.each op hop).imp_left (fun hbrings => hbrings.imp (fun i hi => hi.offersPart hE))
  refine ⟨h.fresh, h.calm, heach, ?_, ?_⟩
  · intro i hi
    obtain ⟨op, hop, hbrings⟩ := h.all i hi
    exact ⟨op, hop, hbrings.offersPart hE⟩
  · obtain ⟨i, hi, hmissing⟩ := h.missing
    refine ⟨i, hi, ?_⟩
    intro op hop hoffers
    rcases h.each op (List.mem_append_left _ hop) with ⟨j, hbrings⟩ | helsewhere
    · rw [(hbrings.offersPart hE).unique hcut hoffers p.policy] at hbrings
      exact hmissing op hop hbrings
    · exact hoffers.not_elsewhere p.policy helsewhere

/-- A packet whose transport layer is read from the frame is to the flow table what the datagram
with the same payload is. -/
theorem summary_sameContent {d : Decoded} (hreads : Reads E d network payload)
    (hunfragmented : network.isFragment = false) {reassembled : Reassembled}
    (hprotocol : reassembled.protocol = network.protocol)
    (hsource : reassembled.source = network.source)
    (hdestination : reassembled.destination = network.destination)
    (hdata : reassembled.data = payload) (timestamp timestamp' : Instant) :
    (reassembled.summary (decoder E) timestamp).SameContent
      (d.summary network.protocol network.source network.destination timestamp') := by
  obtain ⟨htransport, hpayload⟩ := hreads.transport hunfragmented
  have hdecode : (decoder E).decodeTransportBytes reassembled.data network.protocol =
      (decodeTransportBytes E payload network.protocol).toDecoded := by
    rw [hdata]
    rfl
  simp only [PacketSummary.SameContent, Reassembled.summary, Decoded.summary, hprotocol, hsource,
    hdestination, hdecode, htransport, hpayload, and_self]

/-- IP fragmentation is transparent to flow tracking. A packet that is no fragment is handed to the
flow table once. Cut into at most 128 fragments that come in any order, with any of them more than
once before the last missing one and with other traffic between them, it is handed over once as
well: every fragment but the last counts as itself and nothing more, and the last one also hands
over the datagram, between the same endpoints, with the ports, the payload and the TCP segment of
the whole packet. -/
theorem fragmentation_transparent {E : Etherparse} (hE : E.ReadsFragmentFields)
    {frame payload : List UInt8} {network : Network} (hwhole : CarriesPacket frame network payload)
    (hunfragmented : network.isFragment = false) {parts : List (List UInt8)}
    (hcut : Fragmentation payload parts) (hfew : parts.length ≤ 128) {identification : UInt32}
    {p : PacketPipeline R A} {before : List PipelineOp} {last : PipelineOp}
    (h : Delivered E network identification parts p before last) (q : PacketPipeline R A)
    (sets : HashOrder FragmentKey) (originalLen : ℕ) (timestamp : Instant) :
    ∃ whole counted reassembled,
      q.handed (decoder E) sets ((decoder E).decode frame originalLen) timestamp = [whole] ∧
      Runs.Along (PacketPipeline.step (decoder E))
        (fun r op => (∃ i, op.Brings network identification parts i) →
          ∃ fragment, r.handedBy (decoder E) op = [fragment]) p before ∧
      (Runs.run (PacketPipeline.step (decoder E)) p before).1.handedBy (decoder E) last =
        [counted, reassembled] ∧
      reassembled.SameContent whole := by
  have hreads := decode_reads hE hwhole originalLen
  obtain ⟨hpending, counted, reassembled, received, hhanded, hdata, hsource, hdestination,
      hprotocol⟩ :=
    (h.offered hE hcut).handed hcut hwhole.length_le hfew
  refine ⟨((decoder E).decode frame originalLen).summary network.protocol network.source
    network.destination timestamp, counted, reassembled.summary (decoder E) received, ?_,
    ?_, hhanded,
    ?_⟩
  · simp only [PacketPipeline.handed, show ((decoder E).decode frame originalLen).network =
      some network from hreads.network_eq, hunfragmented, Bool.false_eq_true, if_false]
  · rw [Runs.along_iff] at hpending ⊢
    intro xs op ys hsplit hbrings
    exact hpending xs op ys hsplit (hbrings.imp (fun i hi => hi.offersPart hE))
  · exact summary_sameContent hreads hunfragmented hprotocol hsource hdestination hdata received
      timestamp

/-- A UDP header, from port 5000 of one host to port 53 of another, and four bytes of data. -/
def datagramParts : List (List UInt8) := [[0x13, 0x88, 0, 53, 0, 12, 0, 0], [1, 2, 3, 4]]

def datagramNetwork (offset : UInt16) (more : Bool) : Network :=
  .ipv4 ⟨0x0a000001, 0x0a000002, 17, 7, offset, more⟩

/-- The frame of a packet with a header of twenty bytes, padded with two. -/
def datagramFrame (length flags offset : UInt8) (payload : List UInt8) : List UInt8 :=
  linkToIpv4 ++ (([0x45, 0, 0, length, 0, 7, flags, offset, 64, 17, 0, 0, 10, 0, 0, 1,
    10, 0, 0, 2] ++
    payload) ++ [0, 0])

theorem linkToIpv4_linkHeader : LinkHeader linkToIpv4 etherTypeIpv4 :=
  ⟨linkToIpv4, [], etherTypeIpv4, 0, rfl, ⟨rfl, by decide⟩, .nil _, Nat.zero_le _⟩

theorem datagramFrame_carries :
    CarriesPacket (datagramFrame 32 0 0 datagramParts.flatten) (datagramNetwork 0 false)
      datagramParts.flatten :=
  .ipv4 rfl linkToIpv4_linkHeader (by decide +kernel)

def datagramOp (length flags offset : UInt8) (payload : List UInt8) : PipelineOp :=
  .packet ⟨HashOrder.asStored _, HashOrder.asStored _⟩ ⟨HashOrder.asStored _, HashOrder.asStored _⟩
    (HashOrder.asStored _)
    ⟨datagramFrame length flags offset payload,
      (datagramFrame length flags offset payload).length, 0⟩

theorem datagramOp_brings_first : (datagramOp 28 0x20 0 [0x13, 0x88, 0, 53, 0, 12, 0, 0]).Brings
    (datagramNetwork 0 false) 7 datagramParts 0 :=
  ⟨_, datagramNetwork 0 true, rfl, ⟨rfl, rfl, rfl, rfl, rfl, rfl, rfl⟩,
    .ipv4 rfl linkToIpv4_linkHeader (by decide +kernel)⟩

theorem datagramOp_brings_second : (datagramOp 24 0 1 [1, 2, 3, 4]).Brings
    (datagramNetwork 0 false) 7 datagramParts 1 :=
  ⟨_, datagramNetwork 1 false, rfl, ⟨rfl, rfl, rfl, rfl, rfl, rfl, rfl⟩,
    .ipv4 rfl linkToIpv4_linkHeader (by decide +kernel)⟩

theorem datagramParts_fragmentation : Fragmentation datagramParts.flatten datagramParts := by
  refine ⟨rfl, by decide, ?_⟩
  intro i part hi hlast
  have hzero : i = 0 := by
    simp only [datagramParts, List.length_cons, List.length_nil] at hlast
    omega
  subst hzero
  cases hi
  exact ⟨by decide, by decide⟩

theorem datagram_delivered (R : Regex) (A : AhoCorasick) :
    Delivered Etherparse.standard (datagramNetwork 0 false) 7 datagramParts
      (PacketPipeline.new R A smallWindowConfig)
      [datagramOp 24 0 1 [1, 2, 3, 4], datagramOp 24 0 1 [1, 2, 3, 4]]
      (datagramOp 28 0x20 0 [0x13, 0x88, 0, 53, 0, 12, 0, 0]) := by
  have hfirst := datagramOp_brings_first
  have hsecond := datagramOp_brings_second
  have hcalm : Runs.Along Defragmenter.act Defragmenter.Calm
      (Defragmenter.new smallWindowConfig.reassembly)
      ([datagramOp 24 0 1 [1, 2, 3, 4], datagramOp 24 0 1 [1, 2, 3, 4],
        datagramOp 28 0x20 0 [0x13, 0x88, 0, 53, 0, 12, 0, 0]].filterMap
        (PipelineOp.defragOp? (decoder Etherparse.standard)
          (PolicyResolver.ofConfig smallWindowConfig.reassembly))) := by
    decide +kernel
  refine ⟨rfl, (PacketPipeline.along_calm _ _ _).2 hcalm, ?_, ?_, ?_⟩
  · intro op hop
    simp only [List.cons_append, List.nil_append, List.mem_cons, List.not_mem_nil, or_false] at hop
    rcases hop with rfl | rfl | rfl
    · exact Or.inl ⟨1, hsecond⟩
    · exact Or.inl ⟨1, hsecond⟩
    · exact Or.inl ⟨0, hfirst⟩
  · intro i hi
    have hlength : datagramParts.length = 2 := rfl
    obtain rfl | rfl : i = 0 ∨ i = 1 := by omega
    · exact ⟨_, by simp, hfirst⟩
    · exact ⟨_, by simp, hsecond⟩
  · refine ⟨0, by decide, ?_⟩
    intro op hop hbrings
    simp only [List.mem_cons, List.not_mem_nil, or_false, or_self] at hop
    rw [hop] at hbrings
    have hreads := Etherparse.standard_readsFragmentFields
    exact absurd ((hbrings.offersPart hreads).unique datagramParts_fragmentation
      (hsecond.offersPart hreads) (PolicyResolver.ofConfig {})) (by decide)

end Delivery

/-- The second fragment comes twice before the first. -/
theorem fragmentation_transparent_two_fragments :
    let p := PacketPipeline.new Detect.Regex.none Detect.AhoCorasick.exhaustive
      Detect.smallWindowConfig
    let before := [datagramOp 24 0 1 [1, 2, 3, 4], datagramOp 24 0 1 [1, 2, 3, 4]]
    let last := datagramOp 28 0x20 0 [0x13, 0x88, 0, 53, 0, 12, 0, 0]
    Delivered Etherparse.standard (datagramNetwork 0 false) 7 datagramParts p before last ∧
    ∃ whole counted reassembled,
      p.handed (decoder Etherparse.standard) (HashOrder.asStored _)
        ((decoder Etherparse.standard).decode (datagramFrame 32 0 0 datagramParts.flatten) 48) 0 =
        [whole] ∧
      Runs.Along (PacketPipeline.step (decoder Etherparse.standard))
        (fun r op => (∃ i, op.Brings (datagramNetwork 0 false) 7 datagramParts i) →
          ∃ fragment, r.handedBy (decoder Etherparse.standard) op = [fragment]) p before ∧
      (Runs.run (PacketPipeline.step (decoder Etherparse.standard)) p before).1.handedBy
        (decoder Etherparse.standard) last = [counted, reassembled] ∧
      reassembled.SameContent whole := by
  intro p before last
  have hdelivered := datagram_delivered Detect.Regex.none Detect.AhoCorasick.exhaustive
  exact ⟨hdelivered, fragmentation_transparent Etherparse.standard_readsFragmentFields
    datagramFrame_carries rfl datagramParts_fragmentation (by decide) hdelivered p
    (HashOrder.asStored _) 48 0⟩

end CyberSentinel
