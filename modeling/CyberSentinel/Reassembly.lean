import CyberSentinel.DefragExact
import CyberSentinel.Pipeline

/-!
# Reassembled datagrams in the pipeline

What the pipeline hands to the flow table for a packet is a list of summaries: one for a packet that
is no fragment, and for a fragment its own and, when it fills the last hole, that of the datagram.
The defragmenter is a part of the pipeline that only the offered fragments change, so its runs are
those of the calls made on it. When the parts of a datagram are offered in any order, with others
between them, the datagram is handed over once, with the last missing part.
-/

namespace CyberSentinel

open Pieces Bytes Tables

/-- A payload cut into fragments: all but the last have a positive multiple of eight bytes. -/
structure Fragmentation (payload : List UInt8) (parts : List (List UInt8)) : Prop where
  flatten_eq : parts.flatten = payload
  ne_nil : parts ≠ []
  aligned : ∀ i part, parts[i]? = some part → i + 1 < parts.length → part ≠ [] ∧ 8 ∣ part.length

/-- The view of the `i`-th fragment. -/
structure FragmentView.IsPart (parts : List (List UInt8)) (i : ℕ) (f : FragmentView) : Prop where
  part_eq : parts[i]? = some f.payload
  start_eq : f.start = partStart parts i
  more_eq : f.moreFragments = decide (i + 1 < parts.length)

namespace FragmentView.IsPart

variable {parts : List (List UInt8)} {i j : ℕ} {f : FragmentView}

theorem lt_length (h : f.IsPart parts i) : i < parts.length :=
  (List.getElem?_eq_some_iff.1 h.part_eq).1

theorem stop_eq (h : f.IsPart parts i) : f.stop = partStart parts (i + 1) := by
  rw [FragmentView.stop, h.start_eq, partStart_succ h.part_eq]

theorem partOf (h : f.IsPart parts i) : f.PartOf parts.flatten := by
  refine ⟨?_, ?_, ?_⟩
  · rw [h.stop_eq]
    exact partStart_le parts h.lt_length
  · rw [h.stop_eq, h.start_eq, partStart_succ h.part_eq, slice_flatten h.part_eq]
  · intro hfinal
    have hlast : ¬ i + 1 < parts.length := by
      rw [h.more_eq] at hfinal
      exact of_decide_eq_false hfinal
    have hlt := h.lt_length
    rw [h.stop_eq, show i + 1 = parts.length by omega, partStart_length]

/-- A fragment that reaches over an offset which starts a part with data in it is that part. -/
theorem eq_of_start (h : f.IsPart parts i) {part : List UInt8} (hj : parts[j]? = some part)
    (hne : part ≠ []) (hle : f.start ≤ partStart parts j) (hlt : partStart parts j < f.stop) :
    i = j := by
  have hpos := List.length_pos_of_ne_nil hne
  rw [h.start_eq] at hle
  rw [h.stop_eq] at hlt
  rcases Nat.lt_trichotomy i j with hij | hij | hij
  · have hmono : partStart parts (i + 1) ≤ partStart parts j := partStart_mono parts hij
    omega
  · exact hij
  · have hmono : partStart parts (j + 1) ≤ partStart parts i := partStart_mono parts hij
    rw [partStart_succ hj] at hmono
    omega

end FragmentView.IsPart

namespace Fragmentation

variable {payload : List UInt8} {parts : List (List UInt8)}

theorem ne_nil_or_last (h : Fragmentation payload parts) {i : ℕ} {part : List UInt8}
    (hi : parts[i]? = some part) : part ≠ [] ∨ i + 1 = parts.length := by
  by_cases hlast : i + 1 < parts.length
  · exact Or.inl (h.aligned i part hi hlast).1
  · have := (List.getElem?_eq_some_iff.1 hi).1
    exact Or.inr (by omega)

theorem unique (h : Fragmentation payload parts) {i j : ℕ} {f : FragmentView}
    (hi : f.IsPart parts i) (hj : f.IsPart parts j) : i = j := by
  by_cases hempty : f.payload = []
  · have hlast := (h.ne_nil_or_last hi.part_eq).resolve_left (not_not.2 hempty)
    have hlast' := (h.ne_nil_or_last hj.part_eq).resolve_left (not_not.2 hempty)
    omega
  · have hpos := List.length_pos_of_ne_nil hempty
    apply hi.eq_of_start hj.part_eq hempty
    · rw [hj.start_eq]
    · rw [← hj.start_eq, FragmentView.stop]
      omega

theorem covers_iff (h : Fragmentation payload parts) {pieces : List Piece}
    (hpieces : ∀ piece ∈ pieces, ∃ i, piece.1.IsPart parts i) :
    Covers payload pieces ↔ ∀ i < parts.length, ∃ piece ∈ pieces, piece.1.IsPart parts i := by
  rw [← h.flatten_eq]
  constructor
  · intro hcovers i hi
    rcases h.ne_nil_or_last (List.getElem?_eq_getElem hi) with hne | hlast
    · have hpos := List.length_pos_of_ne_nil hne
      have hsucc := partStart_succ (List.getElem?_eq_getElem hi)
      have hle := partStart_le parts (Nat.succ_le_of_lt hi)
      rw [Nat.succ_eq_add_one] at hle
      obtain ⟨piece, hmem, hstart, hstop⟩ := hcovers.1 (partStart parts i) (by omega)
      obtain ⟨j, hj⟩ := hpieces piece hmem
      have hji := hj.eq_of_start (List.getElem?_eq_getElem hi) hne hstart hstop
      exact ⟨piece, hmem, hji ▸ hj⟩
    · obtain ⟨piece, hmem, hfinal⟩ := hcovers.2
      obtain ⟨j, hj⟩ := hpieces piece hmem
      have hlt := hj.lt_length
      rw [hj.more_eq, decide_eq_false_iff_not] at hfinal
      have hji : j = i := by omega
      exact ⟨piece, hmem, hji ▸ hj⟩
  · intro hall
    refine ⟨?_, ?_⟩
    · intro x hx
      obtain ⟨i, part, hi, hle, hlt⟩ := exists_part hx
      obtain ⟨piece, hmem, hpart⟩ := hall i (List.getElem?_eq_some_iff.1 hi).1
      rw [← partStart_succ hi] at hlt
      exact ⟨piece, hmem, by rw [hpart.start_eq]; exact hle, by rw [hpart.stop_eq]; exact hlt⟩
    · have hpos := List.length_pos_of_ne_nil h.ne_nil
      obtain ⟨piece, hmem, hpart⟩ := hall (parts.length - 1) (by omega)
      refine ⟨piece, hmem, ?_⟩
      rw [hpart.more_eq]
      exact decide_eq_false (by omega)

theorem tracked {pieces : List Piece} (hpieces : ∀ piece ∈ pieces, ∃ i, piece.1.IsPart parts i)
    (hfew : parts.length ≤ maxHolesPerDatagram) : Tracked pieces := by
  have hcard : ((Finset.range parts.length).image (partStart parts)).card ≤ parts.length := by
    have hle := Finset.card_image_le (s := Finset.range parts.length) (f := partStart parts)
    rwa [Finset.card_range] at hle
  refine tracked_of_starts ?_ (hcard.trans hfew)
  intro piece hmem
  obtain ⟨i, hi⟩ := hpieces piece hmem
  rw [hi.start_eq]
  exact Finset.mem_image_of_mem _ (Finset.mem_range.2 hi.lt_length)

end Fragmentation

section Pipeline

open Detect

variable {R : Regex} {A : AhoCorasick}

namespace PacketPipeline

/-- What `track` hands to the flow table for one decoded packet, in order. -/
def handed (p : PacketPipeline R A) (D : Decoder) (sets : HashOrder FragmentKey) (decoded : Decoded)
    (timestamp : Instant) : List PacketSummary :=
  match decoded.network with
  | none => []
  | some network =>
    if network.isFragment then
      decoded.fragmentSummary network timestamp ::
        ((p.defragment sets network decoded timestamp).2.map
          (fun reassembled => reassembled.summary D timestamp)).toList
    else [decoded.summary network.protocol network.source network.destination timestamp]

def observeAll (p : PacketPipeline R A) :
    List (Walks × PacketSummary) → PacketPipeline R A × List Event
  | [] => (p, [])
  | (walks, packet) :: rest =>
    let first := p.observe walks packet
    let others := first.1.observeAll rest
    (others.1, first.2 ++ others.2)

/-- A part of the pipeline that neither reads nor changes the defragmenter, nor changes the policy.
-/
structure KeepsDefrag (f : PacketPipeline R A → PacketPipeline R A × List Event) : Prop where
  with_defrag : ∀ p d, f { p with defrag := d } = ({ (f p).1 with defrag := d }, (f p).2)
  policy_eq : ∀ p, (f p).1.policy = p.policy

theorem KeepsDefrag.defrag_eq {f : PacketPipeline R A → PacketPipeline R A × List Event}
    (h : KeepsDefrag f) (p : PacketPipeline R A) : (f p).1.defrag = p.defrag :=
  congrArg (fun result => result.1.defrag) (h.with_defrag p p.defrag)

theorem KeepsDefrag.nothing : KeepsDefrag (fun p : PacketPipeline R A => (p, [])) :=
  ⟨fun _ _ => rfl, fun _ => rfl⟩

theorem KeepsDefrag.andThen {f g : PacketPipeline R A → PacketPipeline R A × List Event}
    (hf : KeepsDefrag f) (hg : KeepsDefrag g) :
    KeepsDefrag (fun p => ((g (f p).1).1, (f p).2 ++ (g (f p).1).2)) := by
  refine ⟨?_, ?_⟩
  · intro p d
    dsimp only
    rw [hf.with_defrag p d, hg.with_defrag (f p).1 d]
  · intro p
    rw [hg.policy_eq, hf.policy_eq]

theorem callEngine_keepsDefrag (call : Call) :
    KeepsDefrag (fun p : PacketPipeline R A => p.callEngine call) := by
  refine ⟨?_, ?_⟩
  · rintro ⟨flows, defrag, policy, delivered, engine⟩ d
    cases engine with
    | none => rfl
    | some engine => rfl
  · rintro ⟨flows, defrag, policy, delivered, engine⟩
    cases engine with
    | none => rfl
    | some engine => rfl

theorem callAll_keepsDefrag (calls : List Call) :
    KeepsDefrag (fun p : PacketPipeline R A => p.callAll calls) := by
  induction calls with
  | nil => exact KeepsDefrag.nothing
  | cons call rest ih => exact (callEngine_keepsDefrag call).andThen ih

theorem consumeReady_keepsDefrag (walks : Walks) (flowId : UInt64) (oriented : NetTuple)
    (timestamp : Instant) (ready : StreamReady) :
    KeepsDefrag (fun p : PacketPipeline R A =>
      p.consumeReady walks flowId oriented timestamp ready) := by
  have hcalls := callAll_keepsDefrag (R := R) (A := A)
    (streamCalls walks flowId oriented timestamp ready)
  simp only [consumeReady]
  split_ifs
  · exact KeepsDefrag.nothing
  · refine ⟨?_, ?_⟩
    · intro p d
      exact hcalls.with_defrag { p with
        streamBytesDelivered := p.streamBytesDelivered + ready.len } d
    · intro p
      exact hcalls.policy_eq { p with
        streamBytesDelivered := p.streamBytesDelivered + ready.len }

theorem inspectDatagram_keepsDefrag (walks : Walks) (observed : Observed) (packet : PacketSummary) :
    KeepsDefrag (fun p : PacketPipeline R A => p.inspectDatagram walks observed packet) := by
  simp only [inspectDatagram]
  split_ifs
  · exact callEngine_keepsDefrag _
  · exact KeepsDefrag.nothing

theorem observe_keepsDefrag (walks : Walks) (packet : PacketSummary) :
    KeepsDefrag (fun p : PacketPipeline R A => p.observe walks packet) := by
  have hboth (observed : Observed) (oriented : NetTuple) (ready : StreamReady) :=
    (inspectDatagram_keepsDefrag (R := R) (A := A) walks observed packet).andThen
      (consumeReady_keepsDefrag walks observed.flowId oriented packet.timestamp ready)
  refine ⟨?_, ?_⟩
  · intro p d
    simp only [observe]
    generalize p.flows.observe walks.flows packet p.policy.forDestination = result
    have hkeeps := (hboth result.2.1 (if result.2.1.toServer = true then summaryTuple packet
      else (summaryTuple packet).reverse) result.2.2).with_defrag { p with flows := result.1 } d
    simp only [Prod.mk.injEq] at hkeeps ⊢
    exact ⟨hkeeps.1, by rw [hkeeps.2]⟩
  · intro p
    simp only [observe]
    exact (hboth _ _ _).policy_eq { p with
      flows := (p.flows.observe walks.flows packet p.policy.forDestination).1 }

theorem takeFinalDeliveries_keepsDefrag :
    KeepsDefrag (fun p : PacketPipeline R A => p.takeFinalDeliveries) := by
  refine ⟨?_, ?_⟩
  · intro p d
    have hcalls := (callAll_keepsDefrag (R := R) (A := A)
      (p.flows.ended.map (fun e : EndedFlow => .flowEnd e.flow.id))).with_defrag { p with
        streamBytesDelivered := p.streamBytesDelivered +
          (p.flows.ended.map (fun e : EndedFlow => e.finalReady.len)).sum } d
    simp only [takeFinalDeliveries, Prod.mk.injEq] at hcalls ⊢
    exact ⟨congrArg Prod.fst hcalls, by rw [hcalls]⟩
  · intro p
    exact (callAll_keepsDefrag _).policy_eq _

theorem drainEndedFlows_keepsDefrag :
    KeepsDefrag (fun p : PacketPipeline R A => p.drainEndedFlows) := by
  refine ⟨?_, ?_⟩
  · intro p d
    have htaken := takeFinalDeliveries_keepsDefrag.with_defrag p d
    simp only [drainEndedFlows]
    split_ifs
    · rfl
    · rw [htaken]
  · intro p
    simp only [drainEndedFlows]
    split_ifs
    · rfl
    · exact takeFinalDeliveries_keepsDefrag.policy_eq p

/-- What `track` does with a packet is to observe what is handed to the flow table, and to offer a
fragment to the defragmenter. -/
theorem track_eq_observeAll (p : PacketPipeline R A) (D : Decoder) (walks again : Walks)
    (sets : HashOrder FragmentKey) (decoded : Decoded) (timestamp : Instant) :
    p.track D walks again sets decoded timestamp =
      let seen := p.observeAll ([walks, again].zip (p.handed D sets decoded timestamp))
      let offered := (decoded.network.filter Network.isFragment).elim p.defrag
        (fun network => (p.defragment sets network decoded timestamp).1.defrag)
      ({ seen.1 with defrag := offered }, seen.2) := by
  have hkept := (observe_keepsDefrag (R := R) (A := A) walks)
  simp only [track, handed]
  cases hnetwork : decoded.network with
  | none => rfl
  | some network =>
    cases hfragment : network.isFragment with
    | false =>
      have hsame := (hkept (decoded.summary network.protocol network.source network.destination
        timestamp)).defrag_eq p
      simp only [Bool.false_eq_true, if_false, List.zip_cons_cons, List.zip_nil_right, observeAll,
        List.append_nil, Option.filter_some, hfragment, Option.elim_none]
      rw [← hsame]
    | true =>
      have hcounted := hkept (decoded.fragmentSummary network timestamp)
      have hoffered : (p.observe walks (decoded.fragmentSummary network timestamp)).1.defragment
          sets
          network decoded timestamp =
          ({ (p.observe walks (decoded.fragmentSummary network timestamp)).1 with
              defrag := (p.defragment sets network decoded timestamp).1.defrag },
            (p.defragment sets network decoded timestamp).2) := by
        simp only [defragment, hcounted.defrag_eq p, hcounted.policy_eq p]
      simp only [if_true, hoffered, Option.filter_some, hfragment, Option.elim_some]
      cases hanswer : (p.defragment sets network decoded timestamp).2 with
      | none =>
        simp only [Option.map_none, Option.toList_none, List.zip_cons_cons, List.zip_nil_right,
          observeAll, List.append_nil]
      | some reassembled =>
        simp only [Option.map_some, Option.toList_some, List.zip_cons_cons, List.zip_nil_right,
          observeAll, List.append_nil, onReassembled]
        rw [(observe_keepsDefrag again _).with_defrag]

end PacketPipeline

/-- The call on the defragmenter that a call on the pipeline makes, if any. -/
def PipelineOp.defragOp? (D : Decoder) (policy : PolicyResolver) : PipelineOp → Option DefragOp
  | .packet _ _ sets raw =>
    let decoded := D.decode raw.data raw.originalLen
    (decoded.network.filter Network.isFragment).map fun network =>
      .push sets (decoded.fragmentView network) raw.timestamp
        (policy.forDestination network.destination)
  | .flush _ => none

namespace PacketPipeline

def handedBy (D : Decoder) (p : PacketPipeline R A) : PipelineOp → List PacketSummary
  | .packet _ _ sets packet =>
    p.handed D sets (D.decode packet.data packet.originalLen) packet.timestamp
  | .flush _ => []

theorem observeAll_keepsDefrag (packets : List (Walks × PacketSummary)) :
    KeepsDefrag (fun p : PacketPipeline R A => p.observeAll packets) := by
  induction packets with
  | nil => exact KeepsDefrag.nothing
  | cons packet rest ih => exact (observe_keepsDefrag packet.1 packet.2).andThen ih

theorem step_policy (D : Decoder) (p : PacketPipeline R A) (op : PipelineOp) :
    (p.step D op).1.policy = p.policy := by
  cases op with
  | packet walks again sets packet =>
    apply (drainEndedFlows_keepsDefrag.policy_eq _).trans
    rw [track_eq_observeAll]
    exact (observeAll_keepsDefrag _).policy_eq p
  | flush order =>
    exact drainEndedFlows_keepsDefrag.policy_eq { p with flows := p.flows.flush order }

/-- The defragmenter changes by the call that is made on it, and by nothing else. -/
theorem step_defrag (D : Decoder) (p : PacketPipeline R A) (op : PipelineOp) :
    (p.step D op).1.defrag =
      (op.defragOp? D p.policy).elim p.defrag (fun call => (p.defrag.act call).1) := by
  cases op with
  | packet walks again sets raw =>
    apply (drainEndedFlows_keepsDefrag.defrag_eq _).trans
    rw [track_eq_observeAll, PipelineOp.defragOp?]
    dsimp only
    cases (D.decode raw.data raw.originalLen).network.filter Network.isFragment with
    | none => rfl
    | some network => rfl
  | flush order =>
    exact drainEndedFlows_keepsDefrag.defrag_eq { p with flows := p.flows.flush order }

def Calm (D : Decoder) (p : PacketPipeline R A) (op : PipelineOp) : Prop :=
  (p.step D op).1.defrag.counters.timedOut = p.defrag.counters.timedOut ∧
    (p.step D op).1.defrag.counters.evicted = p.defrag.counters.evicted

theorem calm_iff (D : Decoder) (p : PacketPipeline R A) (op : PipelineOp) :
    p.Calm D op ↔ ∀ call ∈ op.defragOp? D p.policy, p.defrag.Calm call := by
  rw [Calm, step_defrag]
  cases op.defragOp? D p.policy with
  | none => simp
  | some call => simp [Defragmenter.Calm]

theorem run_defrag (D : Decoder) (p : PacketPipeline R A) (ops : List PipelineOp) :
    (Runs.run (step D) p ops).1.defrag =
      (Runs.run Defragmenter.act p.defrag (ops.filterMap (PipelineOp.defragOp? D p.policy))).1 := by
  refine Runs.run_project PacketPipeline.defrag
    (I := fun q : PacketPipeline R A => q.policy = p.policy) ?_ ?_ rfl ops
  · intro q op hpolicy
    rw [step_policy, hpolicy]
  · intro q op hpolicy
    rw [step_defrag, hpolicy]

/-- What holds of the calls on the defragmenter holds of the run of the pipeline. -/
theorem along_defrag (D : Decoder) (B : Defragmenter → DefragOp → Prop) (p : PacketPipeline R A)
    (ops : List PipelineOp) :
    Runs.Along (step D) (fun q op => ∀ call ∈ op.defragOp? D q.policy, B q.defrag call) p ops ↔
      Runs.Along Defragmenter.act B p.defrag (ops.filterMap (PipelineOp.defragOp? D p.policy)) := by
  refine Runs.along_project PacketPipeline.defrag
    (I := fun q : PacketPipeline R A => q.policy = p.policy) ?_ ?_ ?_ rfl ops
  · intro q op hpolicy
    rw [step_policy, hpolicy]
  · intro q op hpolicy
    rw [step_defrag, hpolicy]
  · intro q op hpolicy
    rw [hpolicy]

theorem along_calm (D : Decoder) (p : PacketPipeline R A) (ops : List PipelineOp) :
    Runs.Along (step D) (Calm D) p ops ↔ Runs.Along Defragmenter.act Defragmenter.Calm p.defrag
      (ops.filterMap (PipelineOp.defragOp? D p.policy)) := by
  rw [← along_defrag, show Calm D = fun (q : PacketPipeline R A) op =>
    ∀ call ∈ op.defragOp? D q.policy, q.defrag.Calm call from
      funext fun q => funext fun op => propext (q.calm_iff D op)]

end PacketPipeline

section Offers

variable {D : Decoder} {key : FragmentKey} {parts : List (List UInt8)} {payload : List UInt8}

/-- The call offers the `i`-th part of the datagram to the defragmenter. -/
def PipelineOp.OffersPart (D : Decoder) (key : FragmentKey) (parts : List (List UInt8)) (i : ℕ)
    (op : PipelineOp) : Prop :=
  ∃ view : FragmentView, view.key = key ∧ view.IsPart parts i ∧
    ∀ policy, ∃ order now overlap, op.defragOp? D policy = some (.push order view now overlap)

def PipelineOp.Elsewhere (D : Decoder) (key : FragmentKey) (op : PipelineOp) : Prop :=
  ∀ policy, ∀ call ∈ op.defragOp? D policy, ¬ call.Offers key

/-- The parts of a datagram are offered to a pipeline that has nothing of it yet, each at least once
and the last missing one with the last call, with other traffic between them; nothing times out and
nothing is evicted. -/
structure Offered (D : Decoder) (key : FragmentKey) (parts : List (List UInt8))
    (p : PacketPipeline R A) (before : List PipelineOp) (last : PipelineOp) : Prop where
  fresh : p.defrag.sets.lookup key = none
  calm : Runs.Along (PacketPipeline.step D) (PacketPipeline.Calm D) p (before ++ [last])
  each : ∀ op ∈ before ++ [last], (∃ i, op.OffersPart D key parts i) ∨ op.Elsewhere D key
  all : ∀ i < parts.length, ∃ op ∈ before ++ [last], op.OffersPart D key parts i
  missing : ∃ i < parts.length, ∀ op ∈ before, ¬ op.OffersPart D key parts i

namespace PipelineOp

theorem OffersPart.unique (hcut : Fragmentation payload parts) {op : PipelineOp} {i j : ℕ}
    (hi : op.OffersPart D key parts i) (hj : op.OffersPart D key parts j)
    (policy : PolicyResolver) :
    i = j := by
  obtain ⟨view, -, hpart, hview⟩ := hi
  obtain ⟨view', -, hpart', hview'⟩ := hj
  obtain ⟨order, now, overlap, hcall⟩ := hview policy
  obtain ⟨order', now', overlap', hcall'⟩ := hview' policy
  have hsame : view' = view := by
    rw [hcall] at hcall'
    cases hcall'
    rfl
  exact hcut.unique hpart (hsame ▸ hpart')

theorem OffersPart.not_elsewhere {op : PipelineOp} {i : ℕ} (h : op.OffersPart D key parts i)
    (policy : PolicyResolver) : ¬ op.Elsewhere D key := by
  intro helsewhere
  obtain ⟨view, hkey, -, hview⟩ := h
  obtain ⟨order, now, overlap, hcall⟩ := hview policy
  exact helsewhere policy _ hcall hkey

end PipelineOp

/-- A call on the defragmenter goes with the fragment's own summary, and with that of the datagram
it is answered with. -/
theorem PacketPipeline.handedBy_of_defragOp {q : PacketPipeline R A} {op : PipelineOp}
    {call : DefragOp}
    (h : op.defragOp? D q.policy = some call) :
    ∃ counted timestamp, q.handedBy D op = counted ::
      ((q.defrag.act call).2.map (fun reassembled => reassembled.summary D timestamp)).toList := by
  cases op with
  | flush order => cases h
  | packet walks again sets raw =>
    simp only [PipelineOp.defragOp?, Option.map_eq_some_iff, Option.filter_eq_some_iff] at h
    obtain ⟨network, ⟨hnetwork, hfragment⟩, rfl⟩ := h
    refine ⟨(D.decode raw.data raw.originalLen).fragmentSummary network raw.timestamp,
      raw.timestamp,
      ?_⟩
    simp only [handedBy, handed, hnetwork, hfragment, if_true]
    rfl

theorem mem_gathered {ops : List PipelineOp}
    (heach : ∀ op ∈ ops, (∃ i, op.OffersPart D key parts i) ∨ op.Elsewhere D key)
    {policy : PolicyResolver} {piece : Piece}
    (hmem : piece ∈ gathered key (ops.filterMap (PipelineOp.defragOp? D policy))) :
    ∃ op ∈ ops, ∃ i, op.OffersPart D key parts i ∧ piece.1.IsPart parts i := by
  obtain ⟨call, hcall, hpiece⟩ := List.mem_filterMap.1 hmem
  obtain ⟨op, hop, hdefrag⟩ := List.mem_filterMap.1 hcall
  cases call with
  | sweep now => cases hpiece
  | push order fragment now overlap =>
    rw [DefragOp.piece?] at hpiece
    split_ifs at hpiece with hown
    cases hpiece
    rcases heach op hop with ⟨i, hoffers⟩ | helsewhere
    · obtain ⟨view, hkey, hpart, hview⟩ := hoffers
      obtain ⟨order', now', overlap', hcalled⟩ := hview policy
      have hsame : view = fragment := by
        rw [hcalled] at hdefrag
        cases hdefrag
        rfl
      exact ⟨op, hop, i, ⟨view, hkey, hpart, hview⟩, hsame ▸ hpart⟩
    · exact absurd hown.1 (helsewhere policy _ hdefrag)

theorem exists_gathered (hfits : parts.flatten.length ≤ maxDatagramLen) {ops : List PipelineOp}
    {op : PipelineOp} (hop : op ∈ ops) {i : ℕ} (hoffers : op.OffersPart D key parts i)
    (policy : PolicyResolver) :
    ∃ piece ∈ gathered key (ops.filterMap (PipelineOp.defragOp? D policy)),
      piece.1.IsPart parts i := by
  obtain ⟨view, hkey, hpart, hview⟩ := hoffers
  obtain ⟨order, now, overlap, hcall⟩ := hview policy
  refine ⟨(view, overlap),
    List.mem_filterMap.2 ⟨_, List.mem_filterMap.2 ⟨op, hop, hcall⟩, ?_⟩, hpart⟩
  rw [DefragOp.piece?, if_pos ⟨hkey, hpart.partOf.stop_le.trans hfits⟩]

namespace Offered

variable {p : PacketPipeline R A} {before : List PipelineOp} {last : PipelineOp}

/-- The call that fills the last hole offers the part that was missing. -/
theorem last_offers (h : Offered D key parts p before last) :
    ∃ i, last.OffersPart D key parts i := by
  obtain ⟨i, hi, hmissing⟩ := h.missing
  obtain ⟨op, hop, hoffers⟩ := h.all i hi
  rcases List.mem_append.1 hop with hbefore | hlast
  · exact absurd hoffers (hmissing op hbefore)
  · rw [List.mem_singleton.1 hlast] at hoffers
    exact ⟨i, hoffers⟩

/-- The datagram is not covered before the last call, and is covered with it. -/
theorem covers (h : Offered D key parts p before last) (hcut : Fragmentation payload parts)
    (hfits : payload.length ≤ maxDatagramLen) (policy : PolicyResolver) :
    (∀ part, part <+: gathered key (before.filterMap (PipelineOp.defragOp? D policy)) →
        ¬ Covers payload part) ∧
      Covers payload (gathered key
        ((before ++ [last]).filterMap (PipelineOp.defragOp? D policy))) := by
  have hbefore : ∀ op ∈ before, (∃ i, op.OffersPart D key parts i) ∨ op.Elsewhere D key :=
    fun op hop => h.each op (List.mem_append_left _ hop)
  have hpart {ops : List PipelineOp}
      (heach : ∀ op ∈ ops, (∃ i, op.OffersPart D key parts i) ∨ op.Elsewhere D key) :
      ∀ piece ∈ gathered key (ops.filterMap (PipelineOp.defragOp? D policy)),
        ∃ i, piece.1.IsPart parts i := by
    intro piece hmem
    obtain ⟨op, -, i, -, hi⟩ := mem_gathered heach hmem
    exact ⟨i, hi⟩
  constructor
  · intro part hbegins hcovers
    obtain ⟨i, hi, hmissing⟩ := h.missing
    have hall := (hcut.covers_iff (fun piece hmem => hpart hbefore piece (hbegins.subset hmem))).1
      hcovers
    obtain ⟨piece, hmem, hpiece⟩ := hall i hi
    obtain ⟨op, hop, j, hoffers, hj⟩ := mem_gathered hbefore (hbegins.subset hmem)
    rw [hcut.unique hj hpiece] at hoffers
    exact hmissing op hop hoffers
  · rw [hcut.covers_iff (hpart h.each)]
    intro i hi
    obtain ⟨op, hop, hoffers⟩ := h.all i hi
    exact exists_gathered (by rw [hcut.flatten_eq]; exact hfits) hop hoffers policy

/-- Every part before the last is handed over as itself and nothing more; with the last one comes
the datagram. -/
theorem handed (h : Offered D key parts p before last) (hcut : Fragmentation payload parts)
    (hfits : payload.length ≤ maxDatagramLen) (hfew : parts.length ≤ maxHolesPerDatagram) :
    Runs.Along (PacketPipeline.step D) (fun r op => (∃ i, op.OffersPart D key parts i) →
      ∃ fragment, r.handedBy D op = [fragment]) p before ∧
    ∃ counted reassembled timestamp,
      (Runs.run (PacketPipeline.step D) p before).1.handedBy D last =
        [counted, Reassembled.summary reassembled D timestamp] ∧
      reassembled.data = payload ∧ reassembled.source = key.source ∧
      reassembled.destination = key.destination ∧ reassembled.protocol = key.protocol := by
  obtain ⟨i, view, hkey, -, hview⟩ := h.last_offers
  obtain ⟨order, now, overlap, hcall⟩ := hview p.policy
  have hops : (before ++ [last]).filterMap (PipelineOp.defragOp? D p.policy) =
      before.filterMap (PipelineOp.defragOp? D p.policy) ++ [.push order view now overlap] := by
    rw [List.filterMap_append, List.filterMap_cons_some hcall, List.filterMap_nil]
  have hcalm := (PacketPipeline.along_calm D p (before ++ [last])).1 h.calm
  obtain ⟨hopen, hcovers⟩ := h.covers hcut hfits p.policy
  have hpieces : ∀ piece ∈ gathered key
      ((before ++ [last]).filterMap (PipelineOp.defragOp? D p.policy)),
      ∃ i, piece.1.IsPart parts i := by
    intro piece hmem
    obtain ⟨op, -, i, -, hi⟩ := mem_gathered h.each hmem
    exact ⟨i, hi⟩
  rw [hops] at hcalm hcovers hpieces
  obtain ⟨hdata, -, hheader⟩ := Defragmenter.datagram_reassembled key p.defrag _
    (.push order view now overlap) h.fresh hkey hcalm
  have hparts : ∀ piece ∈ gathered key (before.filterMap (PipelineOp.defragOp? D p.policy) ++
      [.push order view now overlap]), piece.1.PartOf payload := by
    intro piece hmem
    obtain ⟨j, hj⟩ := hpieces piece hmem
    exact hcut.flatten_eq ▸ hj.partOf
  obtain ⟨hpending, hfilled, -, -⟩ :=
    hdata payload (Fragmentation.tracked hpieces hfew) hparts hopen
  constructor
  · rw [Runs.along_iff]
    intro xs op ys hsplit hoffers
    obtain ⟨j, view', hkey', -, hview'⟩ := hoffers
    have hnone := (Runs.along_iff _ _ _ _).1 ((PacketPipeline.along_defrag D
      (Defragmenter.Pending key) p before).2 hpending) xs op ys hsplit
    obtain ⟨order', now', overlap', hcall'⟩ :=
      hview' (Runs.run (PacketPipeline.step D) p xs).1.policy
    obtain ⟨fragment, arrived, hfragment⟩ := PacketPipeline.handedBy_of_defragOp hcall'
    refine ⟨fragment, ?_⟩
    rw [hfragment, hnone _ hcall' hkey']
    rfl
  · obtain ⟨reassembled, hanswer, hpayload⟩ := Option.map_eq_some_iff.1 (hfilled hcovers)
    obtain ⟨-, hsource, hdestination, hprotocol⟩ := hheader hpending reassembled hanswer
    have hpolicy : (Runs.run (PacketPipeline.step D) p before).1.policy = p.policy :=
      Runs.invariant (PacketPipeline.step D) (fun q => q.policy = p.policy)
        (fun q op hq => (q.step_policy D op).trans hq) rfl before
    rw [← hpolicy] at hcall
    obtain ⟨counted, received, hhanded⟩ := PacketPipeline.handedBy_of_defragOp hcall
    refine ⟨counted, reassembled, received, ?_, hpayload, hsource, hdestination, hprotocol⟩
    rw [hhanded, PacketPipeline.run_defrag, hanswer]
    rfl

end Offered

end Offers

end Pipeline

end CyberSentinel
