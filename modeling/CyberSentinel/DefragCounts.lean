import CyberSentinel.DefragCeiling

/-!
# Every fragment set is accounted for

A set that was started is completed, timed out, evicted or still there, and the counters say how
many of each. There is always room for one more set when one is started, so the table keeps to its
limit. A datagram is handed out exactly when its set leaves the table complete; a fragment that is
too large touches no set.
-/

namespace CyberSentinel.Defragmenter

open Tables

/-- The defragmenter keeps its limit and has no more sets than before. -/
structure NoMore (limit bound : ℕ) (d : Defragmenter) : Prop where
  maxSets_eq : d.maxSets = limit
  size_le : d.activeSets ≤ bound

section NoMore

variable {limit bound : ℕ} {d : Defragmenter}

theorem NoMore.sweep (h : NoMore limit bound d) (now : Instant) :
    NoMore limit bound (d.sweep now) :=
  ⟨h.maxSets_eq, (size_retain_le _ d.sets).trans h.size_le⟩

theorem NoMore.evictSet (h : NoMore limit bound d) (key : FragmentKey) :
    NoMore limit bound (d.evictSet key) := by
  unfold Defragmenter.evictSet
  cases d.sets.lookup key with
  | none => exact h
  | some _ => exact ⟨h.maxSets_eq, (size_erase_le d.sets key).trans h.size_le⟩

theorem evictSet_of_lookup {key : FragmentKey} {set : FragmentSet}
    (h : d.sets.lookup key = some set) :
    d.evictSet key =
      { d with
        sets := d.sets.erase key
        counters := { d.counters with evicted := d.counters.evicted + 1 } } := by
  rw [Defragmenter.evictSet, h]

theorem NoMore.makeRoom (h : NoMore limit limit d) (hpos : 1 ≤ limit)
    (order : HashOrder FragmentKey)
    (now : Instant) : NoMore limit (limit - 1) (d.makeRoom order now) := by
  have hwithin {d : Defragmenter} (hlimit : d.maxSets = limit) (hin : d.withinLimits = true) :
      d.activeSets ≤ limit - 1 := by
    rw [withinLimits, Bool.and_eq_true, decide_eq_true_iff, hlimit] at hin
    omega
  have hsweep := h.sweep now
  unfold Defragmenter.makeRoom
  dsimp only
  split_ifs with hin hin'
  · exact ⟨h.maxSets_eq, hwithin h.maxSets_eq hin⟩
  · exact ⟨hsweep.maxSets_eq, hwithin hsweep.maxSets_eq hin'⟩
  · by_cases hempty : 0 < size (d.sweep now).sets
    · obtain ⟨oldest, rest, hbatch, hlookup⟩ := take_insertionSort_eq_cons
        (fun entry : FragmentKey × FragmentSet =>
        (entry.2.firstSeen, entry.1)) (fun a b => a.1 ≤ b.1)
        order hempty ((d.sweep now).maxSets / 10)
      rw [hbatch, List.map_cons, List.foldl_cons]
      apply evictSets_invariant (P := NoMore limit (limit - 1)) (fun _ key h => h.evictSet key)
      rw [evictSet_of_lookup hlookup]
      have hsize := size_erase_of_lookup hlookup
      have hle := hsweep.size_le
      rw [activeSets] at hle
      exact ⟨hsweep.maxSets_eq, show size ((d.sweep now).sets.erase oldest.1) ≤ limit - 1 by omega⟩
    · apply evictSets_invariant (P := NoMore limit (limit - 1)) (fun _ key h => h.evictSet key)
      exact ⟨hsweep.maxSets_eq, show size (d.sweep now).sets ≤ limit - 1 by omega⟩

end NoMore

/-- Every set that was started is completed, timed out, evicted or active. -/
def Conserved (d : Defragmenter) : Prop :=
  d.counters.started = d.counters.completed + d.counters.timedOut + d.counters.evicted +
    d.activeSets

section Conserved

variable {d : Defragmenter}

theorem Conserved.congr (h : d.Conserved) {d' : Defragmenter} (hsets : d'.sets = d.sets)
    (hstarted : d'.counters.started = d.counters.started)
    (hcompleted : d'.counters.completed = d.counters.completed)
    (htimed : d'.counters.timedOut = d.counters.timedOut)
    (hevicted : d'.counters.evicted = d.counters.evicted) : d'.Conserved := by
  rw [Conserved, activeSets, hsets, hstarted, hcompleted, htimed, hevicted]
  exact h

theorem Conserved.sweep (h : d.Conserved) (now : Instant) : (d.sweep now).Conserved := by
  have hle := size_retain_le (fun _ set => decide (elapsed now set.lastSeen < d.timeout)) d.sets
  simp only [Conserved, activeSets, Defragmenter.sweep] at h ⊢
  omega

theorem Conserved.evictSet (h : d.Conserved) (key : FragmentKey) : (d.evictSet key).Conserved := by
  cases hlookup : d.sets.lookup key with
  | none =>
    rw [Defragmenter.evictSet, hlookup]
    exact h
  | some set =>
    have hsize := size_erase_of_lookup hlookup
    rw [evictSet_of_lookup hlookup]
    simp only [Conserved, activeSets] at h ⊢
    omega

theorem Conserved.arrive (h : d.Conserved) (fragment : FragmentView) (now : Instant) :
    (d.arrive fragment now).Conserved := by
  have hcounted : Conserved
      { d with counters := { d.counters with fragments := d.counters.fragments + 1 } } :=
    h.congr rfl rfl rfl rfl rfl
  have hswept := maybeSweep_invariant (P := Conserved) (fun _ now h => h.sweep now) now hcounted
  exact hswept.congr rfl rfl rfl rfl rfl

end Conserved

theorem lookup_evictSet_of_none {d : Defragmenter} {key : FragmentKey}
    (h : d.sets.lookup key = none) (other : FragmentKey) :
    (d.evictSet other).sets.lookup key = none := by
  cases hother : d.sets.lookup other with
  | none =>
    rw [evictSet, hother]
    exact h
  | some set =>
    have hne : key ≠ other := by
      intro heq
      rw [heq, hother] at h
      cases h
    rw [evictSet_of_lookup hother]
    exact (AList.lookup_erase_ne hne).trans h

def withArrival (d : Defragmenter) (order : HashOrder FragmentKey) (fragment : FragmentView)
    (now : Instant) (policy : OverlapPolicy) : Table FragmentKey FragmentSet :=
  (d.room order fragment now).1.sets.insert fragment.key (d.grown order fragment now policy)

section Push

variable (d : Defragmenter) (order : HashOrder FragmentKey) (fragment : FragmentView)
    (now : Instant)
  (policy : OverlapPolicy)

/-- A fragment finds its set, or there is none and one is started after making room. -/
theorem room_cases :
    ((d.room order fragment now).1 = d.arrive fragment now ∧
      ((d.arrive fragment now).sets.lookup fragment.key).isSome = true) ∨
    ((d.room order fragment now).1.sets = ((d.arrive fragment now).makeRoom order now).sets ∧
      (d.room order fragment now).1.maxSets = ((d.arrive fragment now).makeRoom order now).maxSets ∧
      (d.room order fragment now).1.counters =
        { ((d.arrive fragment now).makeRoom order now).counters with
          started := ((d.arrive fragment now).makeRoom order now).counters.started + 1 } ∧
      (d.room order fragment now).1.sets.lookup fragment.key = none) := by
  cases hlookup : (d.arrive fragment now).sets.lookup fragment.key with
  | some set =>
    left
    refine ⟨?_, rfl⟩
    rw [room, entry, hlookup]
  | none =>
    right
    have habsent : ((d.arrive fragment now).makeRoom order now).sets.lookup fragment.key =
        none := by
      apply makeRoom_invariant (P := fun d =>
        d.sets.lookup fragment.key = none) _ _ order now hlookup
      · intro d key h
        exact lookup_evictSet_of_none h key
      · intro d now h
        change (retain _ d.sets).lookup fragment.key = none
        rw [lookup_retain, h, Option.filter_none]
    rw [room, entry, hlookup]
    exact ⟨rfl, rfl, rfl, habsent⟩

theorem push_counts :
    (maxDatagramLen < fragment.stop →
      (d.push order fragment now policy).1.maxSets = (d.arrive fragment now).maxSets ∧
        (d.push order fragment now policy).1.counters.started =
          (d.arrive fragment now).counters.started ∧
        (d.push order fragment now policy).1.counters.completed =
          (d.arrive fragment now).counters.completed) ∧
    (fragment.stop ≤ maxDatagramLen →
      (d.push order fragment now policy).1.maxSets = (d.room order fragment now).1.maxSets ∧
        (d.push order fragment now policy).1.counters.started =
          (d.room order fragment now).1.counters.started ∧
        (d.push order fragment now policy).1.counters.completed =
          (d.room order fragment now).1.counters.completed +
            if (d.push order fragment now policy).2.isSome then 1 else 0) := by
  constructor
  · intro hlarge
    have hlarge' : maxDatagramLen < fragment.offset.toNat * 8 + fragment.payload.length := hlarge
    rw [push, if_pos hlarge']
    exact ⟨rfl, rfl, rfl⟩
  · intro hfits
    have hfits' : ¬ maxDatagramLen < fragment.offset.toNat * 8 + fragment.payload.length :=
      not_lt.2 hfits
    generalize hpush : d.push order fragment now policy = result
    simp only [push, if_neg hfits'] at hpush
    split at hpush <;> (rw [← hpush]; exact ⟨rfl, rfl, rfl⟩)

variable {d} {limit : ℕ}

theorem NoMore.withArrival (h : NoMore limit limit d) (hpos : 1 ≤ limit) :
    (d.room order fragment now).1.maxSets = limit ∧
      size (d.withArrival order fragment now policy) ≤ limit := by
  have harrive := arrive_invariant (P := NoMore limit limit) (fun _ now h => h.sweep now)
    (fun _ _ h => ⟨h.maxSets_eq, h.size_le⟩) fragment now h
  rw [Defragmenter.withArrival, size_insert]
  rcases d.room_cases order fragment now with ⟨hroom, hfound⟩ | ⟨hsets, hmax, -, habsent⟩
  · rw [hroom, if_pos hfound, Nat.add_zero]
    exact ⟨harrive.maxSets_eq, harrive.size_le⟩
  · have hmade := harrive.makeRoom hpos order now
    have hle := hmade.size_le
    rw [activeSets, ← hsets] at hle
    rw [habsent, hmax]
    exact ⟨hmade.maxSets_eq, by simp only [Option.isSome_none, Bool.false_eq_true, if_false]; omega⟩

/-- The fragment's own set is the one found, or one more was started. -/
theorem Conserved.withArrival (h : d.Conserved) :
    (d.room order fragment now).1.counters.started =
      (d.room order fragment now).1.counters.completed +
        (d.room order fragment now).1.counters.timedOut +
        (d.room order fragment now).1.counters.evicted +
        size (d.withArrival order fragment now policy) := by
  have harrive := h.arrive fragment now
  rw [Defragmenter.withArrival, size_insert]
  rcases d.room_cases order fragment now with ⟨hroom, hfound⟩ | ⟨hsets, -, hcounters, habsent⟩
  · rw [hroom, if_pos hfound, Nat.add_zero]
    exact harrive
  · have hmade : ((d.arrive fragment now).makeRoom order now).Conserved :=
      makeRoom_invariant (P := Conserved) (fun _ key h => h.evictSet key) (fun _ now h =>
        h.sweep now)
        order now harrive
    rw [Conserved, activeSets, ← hsets] at hmade
    rw [habsent, hcounters]
    simp only [Option.isSome_none, Bool.false_eq_true, if_false]
    omega

theorem size_withArrival_erase :
    size ((d.withArrival order fragment now policy).erase fragment.key) + 1 =
      size (d.withArrival order fragment now policy) :=
  size_erase_of_lookup (AList.lookup_insert _)

theorem NoMore.push (h : NoMore limit limit d) (hpos : 1 ≤ limit) :
    NoMore limit limit (d.push order fragment now policy).1 := by
  obtain ⟨hlarge, hfits⟩ := d.push_counts order fragment now policy
  rcases d.push_spec order fragment now policy with ⟨hover, -, hsets, -⟩ | ⟨hin, -, hsets, -⟩
  · have harrive := arrive_invariant (P := NoMore limit limit) (fun _ now h => h.sweep now)
      (fun _ _ h => ⟨h.maxSets_eq, h.size_le⟩) fragment now h
    refine ⟨(hlarge hover).1.trans harrive.maxSets_eq, ?_⟩
    rw [activeSets, hsets]
    exact harrive.size_le
  · obtain ⟨hmax, hle⟩ := h.withArrival order fragment now policy hpos
    refine ⟨(hfits hin).1.trans hmax, ?_⟩
    rw [activeSets, hsets]
    split_ifs
    · exact (size_erase_le _ _).trans hle
    · exact hle

theorem Conserved.push (h : d.Conserved) : (d.push order fragment now policy).1.Conserved := by
  obtain ⟨hlarge, hfits⟩ := d.push_counts order fragment now policy
  rcases d.push_spec order fragment now policy with
    ⟨hover, -, hsets, htimed, hevicted⟩ | ⟨hin, -, hsets, htimed, hevicted⟩
  · obtain ⟨-, hstarted, hcompleted⟩ := hlarge hover
    exact (h.arrive fragment now).congr hsets hstarted hcompleted htimed hevicted
  · obtain ⟨-, hstarted, hcompleted⟩ := hfits hin
    have hall := h.withArrival order fragment now policy
    have herased := size_withArrival_erase (d := d) order fragment now policy
    rw [Conserved, activeSets, hsets, hstarted, hcompleted, htimed, hevicted]
    split_ifs
    · change _ = _ + _ + _ + size ((d.withArrival order fragment now policy).erase fragment.key)
      omega
    · exact hall

end Push

theorem NoMore.act {limit : ℕ} {d : Defragmenter} (h : NoMore limit limit d) (hpos : 1 ≤ limit)
    (op : DefragOp) : NoMore limit limit (d.act op).1 := by
  cases op with
  | push order fragment now policy => exact h.push order fragment now policy hpos
  | sweep now => exact h.sweep now

theorem Conserved.act {d : Defragmenter} (h : d.Conserved) (op : DefragOp) :
    (d.act op).1.Conserved := by
  cases op with
  | push order fragment now policy => exact h.push order fragment now policy
  | sweep now => exact h.sweep now

section Completed

variable (d : Defragmenter) (order : HashOrder FragmentKey) (fragment : FragmentView)
    (now : Instant)

theorem evictSet_completed (key : FragmentKey) :
    (d.evictSet key).counters.completed = d.counters.completed := by
  unfold evictSet
  cases d.sets.lookup key <;> rfl

theorem arrive_completed :
    (d.arrive fragment now).counters.completed = d.counters.completed :=
  maybeSweep_invariant (P := fun d' => d'.counters.completed = d.counters.completed)
    (fun _ _ h => h) now
    (d := { d with counters := { d.counters with fragments := d.counters.fragments + 1 } }) rfl

theorem room_completed :
    (d.room order fragment now).1.counters.completed = d.counters.completed := by
  rcases d.room_cases order fragment now with ⟨hroom, -⟩ | ⟨-, -, hcounters, -⟩
  · rw [hroom, arrive_completed]
  · rw [hcounters]
    exact makeRoom_invariant (P := fun d' => d'.counters.completed = d.counters.completed)
      (fun d' key h => (d'.evictSet_completed key).trans h) (fun _ _ h => h) order now
      (d.arrive_completed fragment now)

end Completed

/-- A call counts a completed set exactly when it hands out a datagram. -/
theorem act_completed (d : Defragmenter) (op : DefragOp) :
    (d.act op).1.counters.completed =
      d.counters.completed + if (d.act op).2.isSome then 1 else 0 := by
  cases op with
  | push order fragment now policy =>
    change (d.push order fragment now policy).1.counters.completed =
      d.counters.completed + if (d.push order fragment now policy).2.isSome then 1 else 0
    obtain ⟨hlarge, hfits⟩ := d.push_counts order fragment now policy
    rcases d.push_spec order fragment now policy with ⟨hover, hnone, -⟩ | ⟨hin, -⟩
    · rw [(hlarge hover).2.2, arrive_completed, hnone]
      rfl
    · rw [(hfits hin).2.2, room_completed]
  | sweep now => rfl

theorem run_completed (d : Defragmenter) (ops : List DefragOp) :
    (Runs.run act d ops).1.counters.completed =
      d.counters.completed + ((Runs.run act d ops).2.filterMap id).length := by
  induction ops generalizing d with
  | nil => rfl
  | cons op rest ih =>
    rw [Runs.run_cons, ih, act_completed]
    cases (d.act op).2 with
    | none => simp
    | some datagram =>
      simp
      omega

theorem everySet_sound_act {d : Defragmenter} (h : EverySet FragmentSet.Sound d) (op : DefragOp) :
    EverySet FragmentSet.Sound (d.act op).1 := by
  cases op with
  | push order fragment now policy =>
    exact h.push order fragment now policy (h.grown order fragment now policy
      (fragment.sound_emptySet now) (fun _ hset => gatherInto_sound hset fragment now policy))
  | sweep now => exact h.sweep now

theorem length_complete_le {set : FragmentSet} (h : set.Sound) {datagram : Reassembled}
    (hdone : complete set = some datagram) : datagram.data.length ≤ maxDatagramLen := by
  obtain ⟨total, -, hdatagram⟩ := Option.map_eq_some_iff.1 hdone
  have hcounts := (RangeBuffer.drain_counts h.wf total).1
  have hbytes := h.bytes_le
  rw [FragmentSet.bytes] at hbytes
  rw [← hdatagram]
  change (set.buffer.drainContiguousUpto total).2.length ≤ maxDatagramLen
  omega

/-- A datagram is what the fragment's set comes to once it has taken the fragment. That set leaves
the table, and the others are those the fragment found. -/
structure Completes (d : Defragmenter) (order : HashOrder FragmentKey) (fragment : FragmentView)
    (now : Instant) (policy : OverlapPolicy) (datagram : Reassembled) : Prop where
  complete_eq : complete (d.grown order fragment now policy) = some datagram
  removed : (d.push order fragment now policy).1.sets.lookup fragment.key = none
  others : ∀ key, key ≠ fragment.key → (d.push order fragment now policy).1.sets.lookup key =
    (d.room order fragment now).1.sets.lookup key
  size_eq : (d.push order fragment now policy).1.activeSets + 1 =
    size (d.withArrival order fragment now policy)
  completed : (d.push order fragment now policy).1.counters.completed = d.counters.completed + 1
  length_le : datagram.data.length ≤ 65535

theorem push_completes {d : Defragmenter} (h : EverySet FragmentSet.Sound d)
    {order : HashOrder FragmentKey} {fragment : FragmentView} {now : Instant}
    {policy : OverlapPolicy}
    {datagram : Reassembled} (hdone : (d.push order fragment now policy).2 = some datagram) :
    d.Completes order fragment now policy datagram := by
  have hcompleted := d.act_completed (.push order fragment now policy)
  change (d.push order fragment now policy).1.counters.completed =
    d.counters.completed + if (d.push order fragment now policy).2.isSome then 1
    else 0 at hcompleted
  rw [hdone] at hcompleted
  rcases d.push_spec order fragment now policy with ⟨-, hnone, -⟩ | ⟨-, hanswer, hsets, -⟩
  · rw [hdone] at hnone
    cases hnone
  · have hcomplete := hanswer.symm.trans hdone
    have hgone : (d.push order fragment now policy).1.sets =
        (d.withArrival order fragment now policy).erase fragment.key := by
      rw [hsets, hdone, Option.isSome_some, if_pos rfl]
      rfl
    constructor
    · exact hcomplete
    · rw [hgone, AList.lookup_erase]
    · intro key hne
      rw [hgone, AList.lookup_erase_ne hne, withArrival, AList.lookup_insert_ne hne]
    · rw [activeSets, hgone]
      exact size_withArrival_erase order fragment now policy
    · exact hcompleted
    · exact length_complete_le (h.grown order fragment now policy (fragment.sound_emptySet now)
        (fun _ hset => gatherInto_sound hset fragment now policy)) hcomplete

theorem run_length_le {d : Defragmenter} (h : EverySet FragmentSet.Sound d) (ops : List DefragOp) :
    ∀ datagram, some datagram ∈ (Runs.run act d ops).2 → datagram.data.length ≤ 65535 := by
  induction ops generalizing d with
  | nil => exact fun datagram hmem => absurd hmem List.not_mem_nil
  | cons op rest ih =>
    intro datagram hmem
    rw [Runs.run_cons] at hmem
    rcases List.mem_cons.1 hmem with hfirst | hlater
    · cases op with
      | push order fragment now policy => exact (push_completes h hfirst.symm).length_le
      | sweep now => cases hfirst
    · exact ih (everySet_sound_act h op) datagram hlater

/-- A fragment that is too large leaves the sets to the sweep, if one is due. -/
theorem push_oversized {d : Defragmenter} {order : HashOrder FragmentKey} {fragment : FragmentView}
    {now : Instant} {policy : OverlapPolicy} (hlarge : maxDatagramLen < fragment.stop) :
    (d.push order fragment now policy).2 = none ∧
      (d.push order fragment now policy).1.sets = (d.maybeSweep now).sets := by
  rcases d.push_spec order fragment now policy with ⟨-, hnone, hsets, -⟩ | ⟨hfits, -⟩
  · refine ⟨hnone, hsets.trans ?_⟩
    simp only [arrive, maybeSweep]
    split_ifs <;> rfl
  · omega

/-- Whatever is pushed and swept, at whatever times: the sets keep to the limit, each one that was
started is completed, timed out, evicted or active, and as many are completed as datagrams were
handed out, none of more than 65535 bytes. The next push hands out a datagram only by removing its
set, and one that is too large hands out nothing and changes no set that a due sweep does not. -/
theorem fragment_sets_accounted (config : ReassemblyConfig) (ops : List DefragOp) :
    let d := (Runs.run Defragmenter.act (Defragmenter.new config) ops).1
    let answers := (Runs.run Defragmenter.act (Defragmenter.new config) ops).2
    d.maxSets = max config.maxFragmentSets 1 ∧ d.activeSets ≤ d.maxSets ∧
      d.counters.started =
        d.counters.completed + d.counters.timedOut + d.counters.evicted + d.activeSets ∧
      d.counters.completed = (answers.filterMap id).length ∧
      (∀ datagram, some datagram ∈ answers → datagram.data.length ≤ 65535) ∧
      ∀ order fragment now policy,
        (∀ datagram, (d.push order fragment now policy).2 = some datagram →
          d.Completes order fragment now policy datagram) ∧
        (65535 < fragment.stop → (d.push order fragment now policy).2 = none ∧
          (d.push order fragment now policy).1.sets = (d.maybeSweep now).sets) := by
  intro d answers
  have hlimit : NoMore (max config.maxFragmentSets 1) (max config.maxFragmentSets 1) d :=
    Runs.invariant act _ (fun _ op h => h.act (le_max_right _ _) op) ⟨rfl, Nat.zero_le _⟩ ops
  have hstart : (Defragmenter.new config).Conserved := rfl
  have hconserved : d.Conserved := Runs.invariant act Conserved (fun _ op h => h.act op) hstart ops
  have hnew : EverySet FragmentSet.Sound (Defragmenter.new config) :=
    fun _ _ hset => absurd hset (by simp [Defragmenter.new])
  have hsound : EverySet FragmentSet.Sound d :=
    Runs.invariant act (EverySet FragmentSet.Sound) (fun _ op h => everySet_sound_act h op) hnew ops
  have hcompleted := run_completed (Defragmenter.new config) ops
  rw [show (Defragmenter.new config).counters.completed = 0 from rfl, Nat.zero_add] at hcompleted
  refine ⟨hlimit.maxSets_eq, hlimit.maxSets_eq ▸ hlimit.size_le, hconserved, hcompleted,
    run_length_le hnew ops, ?_⟩
  intro order fragment now policy
  exact ⟨fun _ hdone => push_completes hsound hdone, push_oversized⟩

end CyberSentinel.Defragmenter
