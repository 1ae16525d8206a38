import CyberSentinel.DefragCeiling

/-!
# Defragmentation is exact

What a datagram is put together from is the list of its own fragments, in the order they came, with
the policy each was pushed under. `resolve` says which byte each offset has after them and
`firstEnd` which length the first final one fixed; `assemble` is the datagram these two give. As
long as nothing times out or is evicted, a push answers with what its own fragments assemble to,
whatever else passes through the defragmenter in between.
-/

namespace CyberSentinel

open Spans Tables Bytes

abbrev Piece := FragmentView × OverlapPolicy

namespace DefragOp

/-- The piece of the given datagram that a call brings, unless no datagram is that long. -/
def piece? (key : FragmentKey) : DefragOp → Option Piece
  | .push _ fragment _ policy =>
    if fragment.key = key ∧ fragment.stop ≤ maxDatagramLen then some (fragment, policy) else none
  | .sweep _ => none

def Offers (key : FragmentKey) : DefragOp → Prop
  | .push _ fragment _ _ => fragment.key = key
  | .sweep _ => False

end DefragOp

namespace Pieces

def gathered (key : FragmentKey) (ops : List DefragOp) : List Piece :=
  ops.filterMap (DefragOp.piece? key)

/-- One more piece: an offset that has a byte keeps it or takes the new one, by policy. -/
def resolveStep (byte : ℕ → Option UInt8) (piece : Piece) (x : ℕ) : Option UInt8 :=
  if (piece.1.start ≤ x ∧ x < piece.1.stop) ∧ (piece.2 = .last ∨ byte x = none)
  then piece.1.payload[x - piece.1.start]? else byte x

def resolve (pieces : List Piece) : ℕ → Option UInt8 := pieces.foldl resolveStep (fun _ => none)

def firstEnd (pieces : List Piece) : Option ℕ :=
  (pieces.find? (fun piece => !piece.1.moreFragments)).map (fun piece => piece.1.stop)

/-- The datagram, once its length is known and every byte of it is there. -/
def assemble (pieces : List Piece) : Option (List UInt8) :=
  ((firstEnd pieces).filter (fun total =>
    (List.range total).all (fun x => (resolve pieces x).isSome))).map
      (fun total => (List.range total).filterMap (resolve pieces))

/-- After no piece are there more runs of covered offsets than a datagram may have. -/
def Tracked (pieces : List Piece) : Prop :=
  ∀ part, part <+: pieces →
    (runStarts {x | (resolve part x).isSome}).ncard ≤ maxHolesPerDatagram

theorem Tracked.of_prefix {part pieces : List Piece} (h : Tracked pieces)
    (hpart : part <+: pieces) :
    Tracked part :=
  fun _ hsub => h _ (hsub.trans hpart)

theorem gathered_append (key : FragmentKey) (xs ys : List DefragOp) :
    gathered key (xs ++ ys) = gathered key xs ++ gathered key ys :=
  List.filterMap_append

theorem resolve_snoc (pieces : List Piece) (piece : Piece) :
    resolve (pieces ++ [piece]) = resolveStep (resolve pieces) piece := by
  rw [resolve, List.foldl_append]
  rfl

theorem firstEnd_snoc (pieces : List Piece) (piece : Piece) :
    firstEnd (pieces ++ [piece]) = if piece.1.moreFragments then firstEnd pieces
      else some ((firstEnd pieces).getD piece.1.stop) := by
  simp only [firstEnd, List.find?_append]
  cases hfirst : pieces.find? (fun piece => !piece.1.moreFragments) with
  | some first => simp
  | none => cases hmore : piece.1.moreFragments <;> simp [hmore]

theorem isSome_resolveStep (byte : ℕ → Option UInt8) (piece : Piece) (x : ℕ) :
    (resolveStep byte piece x).isSome ↔
      (byte x).isSome ∨ (piece.1.start ≤ x ∧ x < piece.1.stop) := by
  unfold resolveStep
  split_ifs with hx
  · have hin : x - piece.1.start < piece.1.payload.length := by
      have := hx.1
      rw [FragmentView.stop] at this
      omega
    simp [List.getElem?_eq_getElem hin, hx.1]
  · by_cases hin : piece.1.start ≤ x ∧ x < piece.1.stop
    · have hsome : byte x ≠ none := fun hnone => hx ⟨hin, Or.inr hnone⟩
      simp [Option.isSome_iff_ne_none, hsome]
    · simp [hin]

theorem isSome_resolve (pieces : List Piece) (x : ℕ) :
    (resolve pieces x).isSome ↔ ∃ piece ∈ pieces, piece.1.start ≤ x ∧ x < piece.1.stop := by
  induction pieces using List.reverseRecOn with
  | nil => simp [resolve]
  | append_singleton pieces piece ih =>
    rw [resolve_snoc, isSome_resolveStep, ih]
    simp [or_and_right, exists_or]

/-- Every run starts where a piece does, so a datagram whose pieces start at few offsets is tracked.
-/
theorem tracked_of_starts {pieces : List Piece} {starts : Finset ℕ}
    (hstarts : ∀ piece ∈ pieces, piece.1.start ∈ starts)
    (hcard : starts.card ≤ maxHolesPerDatagram) : Tracked pieces := by
  intro part hpart
  have hsub : runStarts {x | (resolve part x).isSome} ⊆ (starts : Set ℕ) := by
    intro x hx
    simp only [runStarts, Set.mem_ofPred_eq, isSome_resolve] at hx
    obtain ⟨⟨piece, hmem, hle, hlt⟩, hfirst⟩ := hx
    have hstart : x = piece.1.start := by
      by_contra hne
      rcases hfirst with hzero | hno
      · omega
      · exact hno ⟨piece, hmem, by omega, by omega⟩
    rw [hstart]
    exact hstarts piece (hpart.subset hmem)
  have hle := Set.ncard_le_ncard hsub starts.finite_toSet
  rw [Set.ncard_coe_finset] at hle
  exact hle.trans hcard

theorem tracked_of_length {pieces : List Piece} (h : pieces.length ≤ maxHolesPerDatagram) :
    Tracked pieces := by
  have hcard := List.toFinset_card_le (pieces.map (fun piece => piece.1.start))
  rw [List.length_map] at hcard
  refine tracked_of_starts ?_ (hcard.trans h)
  intro piece hmem
  exact List.mem_toFinset.2 (List.mem_map_of_mem hmem)

end Pieces

open Pieces

/-- The fragment's bytes are the datagram's, and if it is final it reaches the datagram's end. -/
structure FragmentView.PartOf (datagram : List UInt8) (f : FragmentView) : Prop where
  stop_le : f.stop ≤ datagram.length
  payload_eq : f.payload = slice datagram f.start f.stop
  final : f.moreFragments = false → f.stop = datagram.length

instance (datagram : List UInt8) (f : FragmentView) : Decidable (f.PartOf datagram) :=
  decidable_of_iff (f.stop ≤ datagram.length ∧ f.payload = slice datagram f.start f.stop ∧
      (f.moreFragments = false → f.stop = datagram.length))
    ⟨fun ⟨hstop, hpayload, hfinal⟩ => ⟨hstop, hpayload, hfinal⟩,
      fun ⟨hstop, hpayload, hfinal⟩ => ⟨hstop, hpayload, hfinal⟩⟩

namespace Pieces

/-- The pieces leave no hole: every byte has come, and a final fragment has said where they end. -/
def Covers (datagram : List UInt8) (pieces : List Piece) : Prop :=
  (∀ x < datagram.length, ∃ piece ∈ pieces, piece.1.start ≤ x ∧ x < piece.1.stop) ∧
    ∃ piece ∈ pieces, piece.1.moreFragments = false

instance (datagram : List UInt8) (pieces : List Piece) : Decidable (Covers datagram pieces) :=
  inferInstanceAs (Decidable (_ ∧ _))

theorem covers_iff_of_last {datagram : List UInt8} (hne : datagram ≠ []) {pieces : List Piece}
    (hparts : ∀ piece ∈ pieces, piece.1.PartOf datagram)
    (hlast : ∀ piece ∈ pieces, piece.1.stop = datagram.length → piece.1.moreFragments = false) :
    Covers datagram pieces ↔
      ∀ x < datagram.length, ∃ piece ∈ pieces, piece.1.start ≤ x ∧ x < piece.1.stop := by
  refine ⟨And.left, fun hall => ⟨hall, ?_⟩⟩
  have hpos := List.length_pos_of_ne_nil hne
  obtain ⟨piece, hmem, _, hstop⟩ := hall (datagram.length - 1) (by omega)
  have hle := (hparts piece hmem).stop_le
  exact ⟨piece, hmem, hlast piece hmem (by omega)⟩

/-- Pieces that agree with the datagram resolve to its bytes under any policies. -/
theorem resolve_eq {datagram : List UInt8} {pieces : List Piece}
    (hparts : ∀ piece ∈ pieces, piece.1.PartOf datagram) {x : ℕ}
    (hsome : (resolve pieces x).isSome) : resolve pieces x = datagram[x]? := by
  induction pieces using List.reverseRecOn with
  | nil => simp [resolve] at hsome
  | append_singleton pieces piece ih =>
    have hpart := hparts piece (by simp)
    rw [resolve_snoc] at hsome ⊢
    unfold resolveStep at hsome ⊢
    split_ifs at hsome ⊢ with hx
    · rw [hpart.payload_eq, getElem?_slice, if_pos (by omega)]
      congr 1
      omega
    · exact ih (fun piece hmem => hparts piece (List.mem_append_left _ hmem)) hsome

theorem firstEnd_eq_some_iff {datagram : List UInt8} {pieces : List Piece}
    (hparts : ∀ piece ∈ pieces, piece.1.PartOf datagram) (total : ℕ) :
    firstEnd pieces = some total ↔
      total = datagram.length ∧ ∃ piece ∈ pieces, piece.1.moreFragments = false := by
  rw [firstEnd, Option.map_eq_some_iff]
  constructor
  · rintro ⟨piece, hfind, rfl⟩
    have hmem := List.mem_of_find?_eq_some hfind
    have hfinal : piece.1.moreFragments = false := by
      simpa using List.find?_some hfind
    exact ⟨(hparts piece hmem).final hfinal, piece, hmem, hfinal⟩
  · rintro ⟨rfl, piece, hmem, hfinal⟩
    have hsome : (pieces.find? (fun piece => !piece.1.moreFragments)).isSome := by
      rw [List.find?_isSome]
      exact ⟨piece, hmem, by simp [hfinal]⟩
    obtain ⟨first, hfind⟩ := Option.isSome_iff_exists.1 hsome
    have hmem' := List.mem_of_find?_eq_some hfind
    have hfinal' : first.1.moreFragments = false := by
      simpa using List.find?_some hfind
    exact ⟨first, hfind, (hparts first hmem').final hfinal'⟩

/-- Agreeing pieces assemble to the datagram once they cover it, and to nothing before. -/
theorem assemble_eq {datagram : List UInt8} {pieces : List Piece}
    (hparts : ∀ piece ∈ pieces, piece.1.PartOf datagram) :
    (Covers datagram pieces → assemble pieces = some datagram) ∧
      (¬ Covers datagram pieces → assemble pieces = none) := by
  constructor
  · rintro ⟨hall, hfinal⟩
    have hend := (firstEnd_eq_some_iff hparts datagram.length).2 ⟨rfl, hfinal⟩
    have hsome : ∀ x < datagram.length, (resolve pieces x).isSome :=
      fun x hx => (isSome_resolve pieces x).2 (hall x hx)
    have hread : (List.range datagram.length).filterMap (resolve pieces) = datagram := by
      have hsame : (List.range datagram.length).filterMap (resolve pieces) =
          (List.range datagram.length).filterMap (fun x => datagram[x]?) := by
        apply List.filterMap_congr
        intro x hx
        exact resolve_eq hparts (hsome x (List.mem_range.1 hx))
      have hindexed : (List.range datagram.length).map (fun x =>
        datagram[x]?) = datagram.map some := by
        apply List.ext_getElem?
        intro i
        by_cases hi : i < datagram.length
        · simp [hi]
        · simp [hi]
      have hread := congrArg (List.filterMap id) hindexed
      rw [List.filterMap_map, List.filterMap_map] at hread
      rw [hsame]
      simpa using hread
    have hfull : (List.range datagram.length).all (fun x => (resolve pieces x).isSome) = true := by
      rw [List.all_eq_true]
      exact fun x hx => hsome x (List.mem_range.1 hx)
    rw [assemble, hend, Option.filter_some, hfull, if_pos rfl, Option.map_some, hread]
  · intro hnot
    rw [assemble, Option.map_eq_none_iff, Option.filter_eq_none_iff]
    intro total hend hfull
    obtain ⟨rfl, hfinal⟩ := (firstEnd_eq_some_iff hparts total).1 hend
    rw [List.all_eq_true] at hfull
    exact hnot ⟨fun x hx => (isSome_resolve pieces x).1 (hfull x (List.mem_range.2 hx)), hfinal⟩

end Pieces

structure FragmentSet.Gathers (key : FragmentKey) (pieces : List Piece)
    (set : FragmentSet) : Prop where
  sound : set.Sound
  totalLen_eq : set.totalLen = firstEnd pieces
  bytes : Tracked pieces → ∀ x, set.buffer.byteAt x = resolve pieces x
  source_eq : set.source = key.source
  destination_eq : set.destination = key.destination
  protocol_eq : set.protocol = key.protocol

theorem FragmentView.gathers_emptySet {key : FragmentKey} {f : FragmentView} (h : f.key = key)
    (now : Instant) : (f.emptySet now).Gathers key [] := by
  subst h
  exact ⟨f.sound_emptySet now, rfl, fun _ x => by simp [resolve, RangeBuffer.byteAt,
    FragmentView.emptySet, RangeBuffer.new, points], rfl, rfl, rfl⟩

namespace FragmentSet.Gathers

variable {key : FragmentKey} {pieces : List Piece} {set : FragmentSet}

theorem windowEnd_eq (h : set.Sound) : set.buffer.windowEnd = maxDatagramLen := by
  rw [RangeBuffer.windowEnd, satAdd, h.base_eq, h.byteLimit_eq]
  rfl

/-- The bytes of a piece resolve against those of the set as they do against those of the pieces. -/
theorem write_byteAt (h : set.Gathers key pieces) {fragment : FragmentView}
    (hfits : fragment.stop ≤ maxDatagramLen) (policy : OverlapPolicy)
    (htracked : Tracked (pieces ++ [(fragment, policy)])) (x : ℕ) :
    (set.buffer.write fragment.start fragment.payload policy).1.byteAt x =
      resolve (pieces ++ [(fragment, policy)]) x := by
  have hbytes := h.bytes (htracked.of_prefix (List.prefix_append _ _))
  by_cases hempty : fragment.payload = []
  · have hnone : ¬ (fragment.start ≤ x ∧ x < fragment.stop) := by
      rw [FragmentView.stop, hempty, List.length_nil]
      omega
    rw [resolve_snoc, resolveStep, if_neg (fun hx => hnone hx.1), ← hbytes, hempty]
    rfl
  · have hlt : fragment.start < fragment.stop := by
      have := List.length_pos_of_ne_nil hempty
      rw [FragmentView.stop]
      omega
    have hstop : min (fragment.start + fragment.payload.length) set.buffer.windowEnd =
        fragment.stop := by
      rw [windowEnd_eq h.sound]
      exact min_eq_left hfits
    have hstart : max fragment.start set.buffer.base = fragment.start := by
      rw [h.sound.base_eq]
      exact max_eq_left (Nat.zero_le _)
    -- there is room for one more range, or it extends one
    have hruns : {x | x ∈ points set.buffer.covered ∨ (fragment.start ≤ x ∧ x < fragment.stop)} =
        {x | (resolve (pieces ++ [(fragment, policy)]) x).isSome} := by
      ext y
      rw [Set.mem_ofPred_eq, Set.mem_ofPred_eq, resolve_snoc, isSome_resolveStep, ← hbytes,
        h.sound.wf.byteAt_isSome_iff]
    have hadm : set.buffer.Admits fragment.start fragment.stop := by
      apply RangeBuffer.admits_of_ranges_le h.sound.wf hlt
      rw [hruns, h.sound.rangeLimit_eq]
      exact htracked _ (List.prefix_refl _)
    rw [RangeBuffer.write_byteAt_of_admits h.sound.wf _ _ _ (by rwa [hstop, hstart]), hstop, hstart,
      hbytes, resolve_snoc]
    rfl

theorem gatherInto (h : set.Gathers key pieces) {fragment : FragmentView}
    (hfits : fragment.stop ≤ maxDatagramLen) (now : Instant) (policy : OverlapPolicy) :
    (Defragmenter.gatherInto set fragment now policy).1.Gathers key
    (pieces ++ [(fragment, policy)]) := by
  refine ⟨Defragmenter.gatherInto_sound h.sound fragment now policy, ?_, ?_, h.source_eq,
    h.destination_eq, h.protocol_eq⟩
  · rw [firstEnd_snoc, ← h.totalLen_eq]
    rfl
  · intro htracked x
    have hbuffer : (Defragmenter.gatherInto set fragment now policy).1.buffer =
        (set.buffer.write fragment.start fragment.payload policy).1 := by
      rw [Defragmenter.gatherInto, FragmentView.start]
    rw [hbuffer]
    exact h.write_byteAt hfits policy htracked x

/-- A known length is reached by the unbroken bytes exactly if no offset below it is missing. -/
theorem le_contiguousEnd_iff (h : set.Gathers key pieces) (htracked : Tracked pieces) (total : ℕ) :
    total ≤ set.buffer.contiguousEnd ↔
      (List.range total).all (fun x => (resolve pieces x).isSome) = true := by
  simp only [List.all_eq_true, List.mem_range, ← h.bytes htracked, h.sound.wf.byteAt_isSome_iff]
  constructor
  · intro hle x hx
    exact mem_points_of_lt_firstHole (h.sound.base_eq ▸ Nat.zero_le x) (hx.trans_le hle)
  · intro hall
    by_contra hshort
    exact firstHole_not_mem h.sound.wf.separated h.sound.wf.start_ge (hall _ (not_le.1 hshort))

theorem drain_eq (h : set.Sound) {total : ℕ} (hle : total ≤ set.buffer.contiguousEnd) :
    (set.buffer.drainContiguousUpto total).2 = (List.range total).filterMap set.buffer.byteAt ∧
      (set.buffer.drainContiguousUpto total).2.length = total := by
  obtain ⟨stop, hstop, hdrain⟩ := RangeBuffer.drain_cases set.buffer total h.wf
  rw [h.base_eq, min_eq_right hle, max_eq_right (Nat.zero_le _)] at hstop
  subst hstop
  have hbytes := RangeBuffer.take_data_eq h.wf hle
  rw [h.base_eq, Nat.sub_zero, ← List.range_eq_range'] at hbytes
  rw [hdrain, h.base_eq, Nat.sub_zero]
  constructor
  · have hread := congrArg (List.filterMap id) hbytes
    rw [List.filterMap_map, List.filterMap_map] at hread
    simpa using hread
  · have hlength := congrArg List.length hbytes
    rwa [List.length_map, List.length_map, List.length_range] at hlength

/-- What a set hands out as complete is what its pieces assemble to. -/
theorem complete_data (h : set.Gathers key pieces) (htracked : Tracked pieces) :
    (Defragmenter.complete set).map Reassembled.data = assemble pieces := by
  rw [Defragmenter.complete, assemble, h.totalLen_eq]
  cases hend : firstEnd pieces with
  | none => rfl
  | some total =>
    by_cases hle : total ≤ set.buffer.contiguousEnd
    · have hall := (h.le_contiguousEnd_iff htracked total).1 hle
      have hbytes : set.buffer.byteAt = resolve pieces := funext (h.bytes htracked)
      simp only [Option.filter_some, hle, hall, decide_true, if_true, Option.map_some]
      rw [(drain_eq h.sound hle).1, hbytes]
    · have hall := mt (h.le_contiguousEnd_iff htracked total).2 hle
      simp [Option.filter_some, hle, hall]

/-- It has the length that the first final fragment fixed, and the endpoints of its fragments. -/
theorem complete_header (h : set.Gathers key pieces) {datagram : Reassembled}
    (hdone : datagram ∈ Defragmenter.complete set) :
    firstEnd pieces = some datagram.data.length ∧ datagram.source = key.source ∧
      datagram.destination = key.destination ∧ datagram.protocol = key.protocol := by
  rw [Defragmenter.complete, h.totalLen_eq] at hdone
  obtain ⟨total, htotal, hdatagram⟩ := Option.mem_map.1 hdone
  rw [Option.mem_def, Option.filter_eq_some_iff, decide_eq_true_iff] at htotal
  rw [← hdatagram, htotal.1, (drain_eq h.sound htotal.2).2]
  exact ⟨rfl, h.source_eq, h.destination_eq, h.protocol_eq⟩

end FragmentSet.Gathers

namespace Defragmenter

structure Sheds (d d' : Defragmenter) : Prop where
  timedOut_le : d.counters.timedOut ≤ d'.counters.timedOut
  evicted_le : d.counters.evicted ≤ d'.counters.evicted
  same : d'.counters.timedOut = d.counters.timedOut → d'.counters.evicted = d.counters.evicted →
    d'.sets = d.sets

theorem Sheds.trans {d d' d'' : Defragmenter} (h : Sheds d d') (h' : Sheds d' d'') :
    Sheds d d'' := by
  obtain ⟨htimed, hevicted, hsame⟩ := h
  obtain ⟨htimed', hevicted', hsame'⟩ := h'
  refine ⟨htimed.trans htimed', hevicted.trans hevicted', ?_⟩
  intro hequal hequal'
  rw [hsame' (by omega) (by omega), hsame (by omega) (by omega)]

theorem Sheds.first {d d' d'' : Defragmenter} (h : Sheds d d') (h' : Sheds d' d'')
    (htimed : d''.counters.timedOut = d.counters.timedOut)
    (hevicted : d''.counters.evicted = d.counters.evicted) : d'.sets = d.sets := by
  have := h.timedOut_le
  have := h.evicted_le
  have := h'.timedOut_le
  have := h'.evicted_le
  exact h.same (by omega) (by omega)

theorem sheds_sweep (d : Defragmenter) (now : Instant) : Sheds d (d.sweep now) := by
  refine ⟨Nat.le_add_right _ _, le_rfl, ?_⟩
  intro hsame _
  have hcount : (d.sweep now).counters.timedOut =
      d.counters.timedOut + (size d.sets - size (d.sweep now).sets) := rfl
  have hkept : (d.sweep now).sets =
      retain (fun _ set => elapsed now set.lastSeen < d.timeout) d.sets := rfl
  rw [hkept] at hcount ⊢
  exact retain_eq_self (by omega)

theorem sheds_evictSet (d : Defragmenter) (key : FragmentKey) : Sheds d (d.evictSet key) := by
  unfold evictSet
  cases d.sets.lookup key with
  | none => exact ⟨le_rfl, le_rfl, fun _ _ => rfl⟩
  | some _ => exact ⟨le_rfl, Nat.le_succ _, fun _ hsame => absurd hsame (Nat.succ_ne_self _)⟩

theorem sheds_arrive (d : Defragmenter) (fragment : FragmentView) (now : Instant) :
    Sheds d (d.arrive fragment now) := by
  have hmaybe (d : Defragmenter) : Sheds d (d.maybeSweep now) := by
    simp only [maybeSweep]
    split_ifs
    · exact sheds_sweep d now
    · exact ⟨le_rfl, le_rfl, fun _ _ => rfl⟩
  obtain ⟨htimed, hevicted, hsame⟩ := hmaybe
    { d with counters := { d.counters with fragments := d.counters.fragments + 1 } }
  exact ⟨htimed, hevicted, hsame⟩

theorem sheds_room (d : Defragmenter) (order : HashOrder FragmentKey) (fragment : FragmentView)
    (now : Instant) : Sheds (d.arrive fragment now) (d.room order fragment now).1 := by
  have hevicts (keys : List FragmentKey) (d : Defragmenter) : Sheds d (keys.foldl evictSet d) := by
    induction keys generalizing d with
    | nil => exact ⟨le_rfl, le_rfl, fun _ _ => rfl⟩
    | cons key rest ih => exact (sheds_evictSet d key).trans (ih (d.evictSet key))
  simp only [room, entry]
  generalize d.arrive fragment now = d
  cases d.sets.lookup fragment.key with
  | some set => exact ⟨le_rfl, le_rfl, fun _ _ => rfl⟩
  | none =>
    have hmade : Sheds d (d.makeRoom order now) := by
      simp only [makeRoom]
      split_ifs
      · exact ⟨le_rfl, le_rfl, fun _ _ => rfl⟩
      · exact sheds_sweep d now
      · exact (sheds_sweep d now).trans (hevicts _ _)
    exact ⟨hmade.timedOut_le, hmade.evicted_le, hmade.same⟩

def Calm (d : Defragmenter) (op : DefragOp) : Prop :=
  (d.act op).1.counters.timedOut = d.counters.timedOut ∧
    (d.act op).1.counters.evicted = d.counters.evicted

instance (d : Defragmenter) (op : DefragOp) : Decidable (d.Calm op) :=
  inferInstanceAs (Decidable (_ ∧ _))

/-- A push that drops nothing gathers the fragment into what the table has at its key. -/
theorem push_calm {d : Defragmenter} {order : HashOrder FragmentKey} {fragment : FragmentView}
    {now : Instant} {policy : OverlapPolicy} (hcalm : d.Calm (.push order fragment now policy)) :
    let d' := (d.push order fragment now policy).1
    let answer := (d.push order fragment now policy).2
    (maxDatagramLen < fragment.stop ∧ answer = none ∧ d'.sets = d.sets) ∨
    (fragment.stop ≤ maxDatagramLen ∧ ∃ set,
      set = (gatherInto ((d.sets.lookup fragment.key).getD (fragment.emptySet now)) fragment now
        policy).1 ∧
      answer = complete set ∧
      d'.sets = (if answer.isSome then (d.sets.insert fragment.key set).erase fragment.key
        else d.sets.insert fragment.key set)) := by
  obtain ⟨htimed, hevicted⟩ := hcalm
  have harrive := d.sheds_arrive fragment now
  have hroom := d.sheds_room order fragment now
  obtain ⟨hlarge, hnone, hsets, ht, he⟩ | ⟨hfits, hanswer, hsets, ht, he⟩ :=
    d.push_spec order fragment now policy
  · refine Or.inl ⟨hlarge, hnone, hsets.trans (harrive.same ?_ ?_)⟩
    · exact ht.symm.trans htimed
    · exact he.symm.trans hevicted
  · have htimed' := ht.symm.trans htimed
    have hevicted' := he.symm.trans hevicted
    have harrived : (d.arrive fragment now).sets = d.sets := harrive.first hroom htimed' hevicted'
    have hready : (d.room order fragment now).1.sets = d.sets :=
      (harrive.trans hroom).same htimed' hevicted'
    have hown : (d.room order fragment now).2 =
        (d.sets.lookup fragment.key).getD (fragment.emptySet now) := by
      rw [room_set, harrived]
    rw [hready] at hsets
    exact Or.inr ⟨hfits, d.grown order fragment now policy, by rw [grown, hown], hanswer, hsets⟩

def Holds (key : FragmentKey) (pieces : List Piece) (d : Defragmenter) : Prop :=
  ∀ (fragment : FragmentView) (now : Instant), fragment.key = key →
    ((d.sets.lookup key).getD (fragment.emptySet now)).Gathers key pieces

theorem Holds.congr {key : FragmentKey} {pieces : List Piece} {d d' : Defragmenter}
    (h : Holds key pieces d) (hsame : d'.sets.lookup key = d.sets.lookup key) :
    Holds key pieces d' := by
  intro fragment now hkey
  rw [hsame]
  exact h fragment now hkey

/-- A fragment of the datagram is answered from its pieces, and gathered unless it completes them.
-/
theorem Holds.own {key : FragmentKey} {pieces : List Piece} {d : Defragmenter}
    (h : Holds key pieces d) {op : DefragOp} (hcalm : d.Calm op) (hown : op.Offers key) :
    (∃ set, set.Gathers key (pieces ++ gathered key [op]) ∧
      ((d.act op).2 = complete set ∨ (d.act op).2 = none ∧ gathered key [op] = [])) ∧
      ((d.act op).2 = none → Holds key (pieces ++ gathered key [op]) (d.act op).1) := by
  cases op with
  | sweep now => exact absurd hown id
  | push order fragment now policy =>
    have hkey : fragment.key = key := hown
    have hset := h fragment now hkey
    obtain ⟨hlarge, hnone, hsets⟩ | ⟨hfits, set, hgrown, hanswer, hsets⟩ := push_calm hcalm
    · have hskip : gathered key [.push order fragment now policy] = [] := by
        simp [gathered, DefragOp.piece?, not_le.2 hlarge]
      rw [hskip, List.append_nil]
      refine ⟨⟨_, hset, Or.inr ⟨hnone, rfl⟩⟩, fun _ => h.congr ?_⟩
      exact congrArg (AList.lookup key) hsets
    · have hpiece : gathered key [.push order fragment now policy] = [(fragment, policy)] := by
        simp [gathered, DefragOp.piece?, hkey, hfits]
      rw [hkey] at hgrown
      have hgathers : set.Gathers key (pieces ++ [(fragment, policy)]) := by
        rw [hgrown]
        exact hset.gatherInto hfits now policy
      rw [hpiece]
      refine ⟨⟨set, hgathers, Or.inl hanswer⟩, ?_⟩
      intro hnone
      change (d.push order fragment now policy).2 = none at hnone
      rw [hnone, if_neg (by simp), hkey] at hsets
      intro other later _
      change (((d.push order fragment now policy).1.sets.lookup key).getD _).Gathers key _
      rw [hsets, AList.lookup_insert]
      exact hgathers

theorem Holds.other {key : FragmentKey} {pieces : List Piece} {d : Defragmenter}
    (h : Holds key pieces d) {op : DefragOp} (hcalm : d.Calm op) (hother : ¬ op.Offers key) :
    Holds key (pieces ++ gathered key [op]) (d.act op).1 := by
  cases op with
  | sweep now =>
    have hsets : (d.sweep now).sets = d.sets := (d.sheds_sweep now).same hcalm.1 hcalm.2
    rw [show gathered key [.sweep now] = [] from rfl, List.append_nil]
    exact h.congr (congrArg (AList.lookup key) hsets)
  | push order fragment now policy =>
    have hne : key ≠ fragment.key := fun heq => hother heq.symm
    have hskip : gathered key [.push order fragment now policy] = [] := by
      simp [gathered, DefragOp.piece?, Ne.symm hne]
    rw [hskip, List.append_nil]
    apply h.congr
    change (d.push order fragment now policy).1.sets.lookup key = d.sets.lookup key
    obtain ⟨_, _, hsets⟩ | ⟨_, set, _, _, hsets⟩ := push_calm hcalm
    · rw [hsets]
    · rw [hsets]
      split_ifs
      · rw [AList.lookup_erase_ne hne, AList.lookup_insert_ne hne]
      · rw [AList.lookup_insert_ne hne]

def Pending (key : FragmentKey) (d : Defragmenter) (op : DefragOp) : Prop :=
  op.Offers key → (d.act op).2 = none

theorem run_holds {key : FragmentKey} {pieces : List Piece} {d : Defragmenter}
    (h : Holds key pieces d) {ops : List DefragOp} (hcalm : Runs.Along act Calm d ops)
    (hpending : Runs.Along act (Pending key) d ops) :
    Holds key (pieces ++ gathered key ops) (Runs.run act d ops).1 := by
  induction ops generalizing d pieces with
  | nil => simpa [gathered] using h
  | cons op rest ih =>
    have hnext : Holds key (pieces ++ gathered key [op]) (d.act op).1 := by
      by_cases hown : op.Offers key
      · exact (h.own hcalm.1 hown).2 (hpending.1 hown)
      · exact h.other hcalm.1 hown
    have hrest := ih hnext hcalm.2 hpending.2
    rwa [List.append_assoc, ← gathered_append] at hrest

/-- As long as the pieces so far assemble to nothing, no push has been answered. -/
theorem pending_of_assemble {key : FragmentKey} {d : Defragmenter} (h : Holds key [] d)
    {ops : List DefragOp} (hcalm : Runs.Along act Calm d ops)
    (htracked : Tracked (gathered key ops))
    (hnone : ∀ part, part <+: gathered key ops → assemble part = none) :
    Runs.Along act (Pending key) d ops := by
  induction ops using List.reverseRecOn with
  | nil => trivial
  | append_singleton ops op ih =>
    rw [gathered_append] at htracked hnone
    rw [Runs.along_append] at hcalm ⊢
    have hpending := ih hcalm.1 (htracked.of_prefix (List.prefix_append _ _))
      (fun part hpart => hnone part (hpart.trans (List.prefix_append _ _)))
    refine ⟨hpending, ?_, trivial⟩
    intro hown
    have hholds := run_holds h hcalm.1 hpending
    rw [List.nil_append] at hholds
    obtain ⟨set, hset, hanswer⟩ := (hholds.own hcalm.2.1 hown).1
    rcases hanswer with hanswer | hanswer
    · have hdata := hset.complete_data htracked
      rw [hnone _ (List.prefix_refl _), Option.map_eq_none_iff] at hdata
      rw [hanswer, hdata]
    · exact hanswer.1

/-- For a datagram that the defragmenter has nothing of yet, through any calls that time nothing out
and evict nothing, with any others in between: * pieces of it, in any order and with any overlaps,
are answered with nothing until they cover it and with exactly its bytes by the push that makes them
do so, which is the one that fills the last hole where the fragments that reach its end are the
final ones; * pieces that disagree resolve offset by offset, by the policy each was pushed under; *
whatever is handed out has the length that the first final fragment fixed. -/
theorem datagram_reassembled (key : FragmentKey) (start : Defragmenter) (before : List DefragOp)
    (op : DefragOp) (hfresh : start.sets.lookup key = none) (hown : op.Offers key)
    (hcalm : Runs.Along act Calm start (before ++ [op])) :
    let answer := ((Runs.run act start before).1.act op).2
    let pieces := gathered key (before ++ [op])
    (∀ datagram : List UInt8, Tracked pieces → (∀ piece ∈ pieces, piece.1.PartOf datagram) →
      (∀ part, part <+: gathered key before → ¬ Covers datagram part) →
      Runs.Along act (Pending key) start before ∧
        (Covers datagram pieces → answer.map Reassembled.data = some datagram) ∧
        (¬ Covers datagram pieces → answer = none) ∧
        (datagram ≠ [] →
          (∀ piece ∈ pieces, piece.1.stop = datagram.length → piece.1.moreFragments = false) →
          (Covers datagram pieces ↔
            ∀ x < datagram.length, ∃ piece ∈ pieces, piece.1.start ≤ x ∧ x < piece.1.stop))) ∧
    (Tracked pieces → (∀ part, part <+: gathered key before → assemble part = none) →
      Runs.Along act (Pending key) start before ∧ answer.map Reassembled.data = assemble pieces) ∧
    (Runs.Along act (Pending key) start before → ∀ datagram ∈ answer,
      firstEnd pieces = some datagram.data.length ∧ datagram.source = key.source ∧
        datagram.destination = key.destination ∧ datagram.protocol = key.protocol) := by
  intro answer pieces
  have hpieces : pieces = gathered key before ++ gathered key [op] :=
    gathered_append key before [op]
  have hnew : Holds key [] start := by
    intro fragment now hkey
    rw [hfresh]
    exact fragment.gathers_emptySet hkey now
  rw [Runs.along_append] at hcalm
  have hanswers (hpending : Runs.Along act (Pending key) start before) :
      ∃ set : FragmentSet, set.Gathers key pieces ∧
        (answer = complete set ∨ answer = none ∧ gathered key [op] = []) := by
    have hholds := run_holds hnew hcalm.1 hpending
    rw [List.nil_append] at hholds
    rw [hpieces]
    exact (hholds.own hcalm.2.1 hown).1
  have hassembled (htracked : Tracked pieces)
      (hnone : ∀ part, part <+: gathered key before → assemble part = none) :
      Runs.Along act (Pending key) start before ∧
        answer.map Reassembled.data = assemble pieces := by
    have hpending := pending_of_assemble hnew hcalm.1
      (htracked.of_prefix (hpieces ▸ List.prefix_append _ _)) hnone
    refine ⟨hpending, ?_⟩
    obtain ⟨set, hset, hanswer | ⟨hanswer, hskip⟩⟩ := hanswers hpending
    · rw [hanswer]
      exact hset.complete_data htracked
    · rw [hanswer, hpieces, hskip, List.append_nil, hnone _ (List.prefix_refl _)]
      rfl
  refine ⟨?_, hassembled, ?_⟩
  · intro datagram htracked hparts hopen
    have hnone : ∀ part, part <+: gathered key before → assemble part = none := by
      intro part hpart
      have hsub : part <+: pieces := hpieces ▸ hpart.trans (List.prefix_append _ _)
      exact (assemble_eq (fun piece hmem => hparts piece (hsub.subset hmem))).2 (hopen part hpart)
    obtain ⟨hpending, hdata⟩ := hassembled htracked hnone
    refine ⟨hpending, ?_, ?_, fun hne hlast => covers_iff_of_last hne hparts hlast⟩
    · intro hcovers
      rw [hdata, (assemble_eq hparts).1 hcovers]
    · intro hnot
      rw [(assemble_eq hparts).2 hnot, Option.map_eq_none_iff] at hdata
      exact hdata
  · intro hpending datagram hmem
    obtain ⟨set, hset, hanswer | ⟨hanswer, _⟩⟩ := hanswers hpending
    · exact hset.complete_header (hanswer ▸ hmem)
    · rw [hanswer] at hmem
      exact absurd hmem (by simp)

/-- Two fragments of twelve bytes in the wrong order, with one of another datagram between them. -/
theorem datagram_reassembled_two_fragments :
    let push (identification : UInt32) (offset : UInt16) (more : Bool) (payload : List UInt8) :
      DefragOp :=
      .push (HashOrder.asStored _) ⟨.v4 1, .v4 2, identification, 17, offset, more, payload⟩ 0 .last
    let run := Runs.run act (Defragmenter.new {})
      [push 7 1 false [9, 10, 11, 12], push 8 0 true [1, 1, 1, 1, 1, 1, 1, 1]]
    (run.1.act (push 7 0 true [1, 2, 3, 4, 5, 6, 7, 8])).2.map Reassembled.data =
      some [1, 2, 3, 4, 5, 6, 7, 8, 9, 10, 11, 12] := by
  intro push run
  have h := (datagram_reassembled ⟨.v4 1, .v4 2, 7, 17⟩ (Defragmenter.new {})
    [push 7 1 false [9, 10, 11, 12], push 8 0 true [1, 1, 1, 1, 1, 1, 1, 1]]
    (push 7 0 true [1, 2, 3, 4, 5, 6, 7, 8]) rfl rfl
    ⟨by decide +kernel, by decide +kernel, by decide +kernel, trivial⟩).1
    [1, 2, 3, 4, 5, 6, 7, 8, 9, 10, 11, 12] (tracked_of_length (by decide +kernel))
    (by decide +kernel)
  refine (h ?_).2.1 (by decide +kernel)
  have hopen : ∀ part ∈ (gathered ⟨.v4 1, .v4 2, 7, 17⟩ [push 7 1 false [9, 10, 11, 12],
      push 8 0 true [1, 1, 1, 1, 1, 1, 1, 1]]).inits,
      ¬ Covers [1, 2, 3, 4, 5, 6, 7, 8, 9, 10, 11, 12] part := by
    decide +kernel
  exact fun part hpart => hopen part ((List.mem_inits part _).2 hpart)

end Defragmenter

end CyberSentinel
