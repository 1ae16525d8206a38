import CyberSentinel.Defrag
import CyberSentinel.RangeBufferCounts
import CyberSentinel.Runs

/-!
# The ceiling on fragment memory

A datagram in progress never holds more than a datagram can have. How much all of them may hold
together is looked at when one is started, and then at most one batch of them is given up; a
fragment of a datagram already in progress is stored whatever the others hold. So the configured
total plus one datagram is a bound only as long as every fragment that brings data finds the others
within the total.
-/

namespace CyberSentinel

open Tables

def FragmentView.start (f : FragmentView) : ℕ := f.offset.toNat * 8

def FragmentView.stop (f : FragmentView) : ℕ := f.start + f.payload.length

inductive DefragOp
  | push (order : HashOrder FragmentKey) (fragment : FragmentView) (now : Instant)
      (policy : OverlapPolicy)
  | sweep (now : Instant)

structure FragmentSet.Sound (set : FragmentSet) : Prop where
  wf : set.buffer.Wf
  base_eq : set.buffer.base = 0
  byteLimit_eq : set.buffer.byteLimit = maxDatagramLen
  rangeLimit_eq : set.buffer.rangeLimit = maxHolesPerDatagram

theorem FragmentView.sound_emptySet (f : FragmentView) (now : Instant) : (f.emptySet now).Sound :=
  ⟨RangeBuffer.wf_new 0 maxDatagramLen maxHolesPerDatagram (Nat.zero_le _), rfl, rfl, rfl⟩

def FragmentSet.bytes (set : FragmentSet) : ℕ := set.buffer.bufferedBytes

theorem FragmentSet.Sound.bytes_le {set : FragmentSet} (h : set.Sound) :
    set.bytes ≤ maxDatagramLen :=
  h.byteLimit_eq ▸ h.wf.bufferedBytes_le

namespace Defragmenter

theorem bufferedBytes_eq (d : Defragmenter) :
    d.bufferedBytes = total FragmentSet.bytes d.sets := rfl

def act (d : Defragmenter) : DefragOp → Defragmenter × Option Reassembled
  | .push order fragment now policy => d.push order fragment now policy
  | .sweep now => (d.sweep now, none)

/-- The sets once a fragment has been counted and the idle ones swept. -/
def arrive (d : Defragmenter) (fragment : FragmentView) (now : Instant) : Defragmenter :=
  let d := { d with counters := { d.counters with fragments := d.counters.fragments + 1 } }
  let d := d.maybeSweep now
  let misaligned := fragment.moreFragments && !fragment.payload.isEmpty &&
    fragment.payload.length % 8 != 0
  { d with
    counters := { d.counters with
      misaligned := d.counters.misaligned + if misaligned then 1 else 0 } }

def room (d : Defragmenter) (order : HashOrder FragmentKey) (fragment : FragmentView)
    (now : Instant) : Defragmenter × FragmentSet :=
  (d.arrive fragment now).entry order fragment now

def grown (d : Defragmenter) (order : HashOrder FragmentKey) (fragment : FragmentView)
    (now : Instant) (policy : OverlapPolicy) : FragmentSet :=
  (gatherInto (d.room order fragment now).2 fragment now policy).1

theorem push_spec (d : Defragmenter) (order : HashOrder FragmentKey) (fragment : FragmentView)
    (now : Instant) (policy : OverlapPolicy) :
    let d' := (d.push order fragment now policy).1
    let answer := (d.push order fragment now policy).2
    (maxDatagramLen < fragment.stop ∧ answer = none ∧ d'.sets = (d.arrive fragment now).sets ∧
      d'.counters.timedOut = (d.arrive fragment now).counters.timedOut ∧
      d'.counters.evicted = (d.arrive fragment now).counters.evicted) ∨
    (fragment.stop ≤ maxDatagramLen ∧ answer = complete (d.grown order fragment now policy) ∧
      d'.sets = (if answer.isSome then
        ((d.room order fragment now).1.sets.insert fragment.key
          (d.grown order fragment now policy)).erase fragment.key
        else (d.room order fragment now).1.sets.insert fragment.key
          (d.grown order fragment now policy)) ∧
      d'.counters.timedOut = (d.room order fragment now).1.counters.timedOut ∧
      d'.counters.evicted = (d.room order fragment now).1.counters.evicted) := by
  dsimp only
  by_cases hlarge : maxDatagramLen < fragment.stop
  · left
    have hlarge' : maxDatagramLen < fragment.offset.toNat * 8 + fragment.payload.length := hlarge
    rw [push, if_pos hlarge']
    exact ⟨hlarge, rfl, rfl, rfl, rfl⟩
  · right
    have hfits : ¬ maxDatagramLen < fragment.offset.toNat * 8 + fragment.payload.length := hlarge
    generalize hpush : d.push order fragment now policy = result
    simp only [push, if_neg hfits] at hpush
    split at hpush
    · next hcomplete =>
      rw [← hpush]
      exact ⟨not_lt.1 hlarge, hcomplete.symm, rfl, rfl, rfl⟩
    · next datagram hcomplete =>
      rw [← hpush]
      exact ⟨not_lt.1 hlarge, hcomplete.symm, rfl, rfl, rfl⟩

section Removals

variable {P : Defragmenter → Prop} (hevict : ∀ d key, P d → P (d.evictSet key))
  (hsweep : ∀ d now, P d → P (d.sweep now))
  (hcount : ∀ d counters, P d → P { d with counters := counters })

include hevict in
theorem evictSets_invariant (keys : List FragmentKey) {d : Defragmenter} (h : P d) :
    P (keys.foldl evictSet d) := by
  induction keys generalizing d with
  | nil => exact h
  | cons key rest ih => exact ih (hevict d key h)

include hsweep in
theorem maybeSweep_invariant (now : Instant) {d : Defragmenter} (h : P d) :
    P (d.maybeSweep now) := by
  simp only [maybeSweep]
  split_ifs
  · exact hsweep d now h
  · exact h

include hevict hsweep in
theorem makeRoom_invariant (order : HashOrder FragmentKey) (now : Instant) {d : Defragmenter}
    (h : P d) : P (d.makeRoom order now) := by
  simp only [makeRoom]
  split_ifs
  · exact h
  · exact hsweep d now h
  · exact evictSets_invariant hevict _ (hsweep d now h)

include hsweep hcount in
theorem arrive_invariant (fragment : FragmentView) (now : Instant) {d : Defragmenter} (h : P d) :
    P (d.arrive fragment now) :=
  hcount _ _ (maybeSweep_invariant hsweep now (hcount d _ h))

include hevict hsweep hcount in
/-- What the sweeps and every single eviction keep holds of the sets a fragment finds. -/
theorem room_invariant (order : HashOrder FragmentKey) (fragment : FragmentView) (now : Instant)
    {d : Defragmenter} (h : P d) : P (d.room order fragment now).1 := by
  have harrive := arrive_invariant hsweep hcount fragment now h
  simp only [room, entry]
  cases (d.arrive fragment now).sets.lookup fragment.key with
  | some set => exact harrive
  | none => exact hcount _ _ (makeRoom_invariant hevict hsweep order now harrive)

end Removals

/-- Every set of the table satisfies `P`. -/
def EverySet (P : FragmentSet → Prop) (d : Defragmenter) : Prop :=
  ∀ key set, d.sets.lookup key = some set → P set

theorem room_set (d : Defragmenter) (order : HashOrder FragmentKey) (fragment : FragmentView)
    (now : Instant) :
    (d.room order fragment now).2 =
      ((d.arrive fragment now).sets.lookup fragment.key).getD (fragment.emptySet now) := by
  simp only [Defragmenter.room, entry]
  cases (d.arrive fragment now).sets.lookup fragment.key <;> rfl

namespace EverySet

variable {P : FragmentSet → Prop} {d : Defragmenter}

theorem sweep (h : EverySet P d) (now : Instant) : EverySet P (d.sweep now) := by
  intro key set hset
  change (retain _ d.sets).lookup key = some set at hset
  rw [lookup_retain, Option.filter_eq_some_iff] at hset
  exact h key set hset.1

theorem erase (h : EverySet P d) (key : FragmentKey) :
    EverySet P { d with sets := d.sets.erase key } := by
  intro other set hset
  exact h other set (lookup_of_lookup_erase hset).2

theorem insert (h : EverySet P d) (key : FragmentKey) {set : FragmentSet} (hnew : P set) :
    EverySet P { d with sets := d.sets.insert key set } := by
  intro other found hfound
  by_cases hother : other = key
  · rw [hother, AList.lookup_insert] at hfound
    rw [← Option.some.inj hfound]
    exact hnew
  · rw [AList.lookup_insert_ne hother] at hfound
    exact h other found hfound

theorem evictSet (h : EverySet P d) (key : FragmentKey) : EverySet P (d.evictSet key) := by
  have herased := h.erase key
  unfold Defragmenter.evictSet
  cases d.sets.lookup key with
  | none => exact h
  | some _ => exact herased

theorem room (h : EverySet P d) (order : HashOrder FragmentKey) (fragment : FragmentView)
    (now : Instant) : EverySet P (d.room order fragment now).1 :=
  room_invariant (fun _ key h => h.evictSet key) (fun _ now h => h.sweep now) (fun _ _ h => h) order
    fragment now h

theorem arrive (h : EverySet P d) (fragment : FragmentView) (now : Instant) :
    EverySet P (d.arrive fragment now) :=
  arrive_invariant (fun _ now h => h.sweep now) (fun _ _ h => h) fragment now h

/-- What new sets satisfy and taking a fragment keeps, the set of the fragment satisfies. -/
theorem grown (h : EverySet P d) (order : HashOrder FragmentKey) (fragment : FragmentView)
    (now : Instant) (policy : OverlapPolicy) (hnew : P (fragment.emptySet now))
    (htake : ∀ set, P set → P (gatherInto set fragment now policy).1) :
    P (d.grown order fragment now policy) := by
  apply htake
  rw [room_set]
  cases hlookup : (d.arrive fragment now).sets.lookup fragment.key with
  | none => exact hnew
  | some set => exact h.arrive fragment now fragment.key set hlookup

theorem push (h : EverySet P d) (order : HashOrder FragmentKey) (fragment : FragmentView)
    (now : Instant) (policy : OverlapPolicy) (hgrown : P (d.grown order fragment now policy)) :
    EverySet P (d.push order fragment now policy).1 := by
  have hkept := (h.room order fragment now).insert fragment.key hgrown
  obtain ⟨_, _, hsets, _⟩ | ⟨_, _, hsets, _⟩ := d.push_spec order fragment now policy
  · rw [EverySet, hsets]
    exact h.arrive fragment now
  · rw [EverySet, hsets]
    split_ifs
    · exact hkept.erase fragment.key
    · exact hkept

end EverySet

/-- Every set is sound, and together they hold no more than the bound. -/
structure Below (bound : ℕ) (d : Defragmenter) : Prop where
  sound : ∀ key set, d.sets.lookup key = some set → set.Sound
  bytes_le : d.bufferedBytes ≤ bound

/-- A fragment that brings data finds the other datagrams within the budget, after the sweep and the
eviction that it sets off. -/
def RoomBeside (budget : ℕ) (d : Defragmenter) : DefragOp → Prop
  | .push order fragment now _ => fragment.stop ≤ maxDatagramLen → fragment.payload ≠ [] →
      total FragmentSet.bytes ((d.room order fragment now).1.sets.erase fragment.key) ≤ budget
  | .sweep _ => True

theorem gatherInto_sound {set : FragmentSet} (h : set.Sound) (fragment : FragmentView)
    (now : Instant)
    (policy : OverlapPolicy) : (gatherInto set fragment now policy).1.Sound := by
  obtain ⟨hwf, hbase, hbytes, hranges⟩ :=
    RangeBuffer.write_wf h.wf (fragment.offset.toNat * 8) fragment.payload policy
  exact ⟨hwf, hbase.trans h.base_eq, hbytes.trans h.byteLimit_eq, hranges.trans h.rangeLimit_eq⟩

theorem gatherInto_bytes_of_empty (set : FragmentSet) {fragment : FragmentView}
    (hempty : fragment.payload = []) (now : Instant) (policy : OverlapPolicy) :
    (gatherInto set fragment now policy).1.bytes = set.bytes := by
  change (set.buffer.write (fragment.offset.toNat * 8) fragment.payload policy).1.bufferedBytes =
    set.buffer.bufferedBytes
  rw [hempty]
  rfl

section Below

variable {bound : ℕ} {d : Defragmenter}

theorem Below.sweep (h : Below bound d) (now : Instant) : Below bound (d.sweep now) :=
  ⟨EverySet.sweep h.sound now, (total_retain_le _ _ d.sets).trans h.bytes_le⟩

theorem Below.erase (h : Below bound d) (key : FragmentKey) :
    Below bound { d with sets := d.sets.erase key } := by
  apply Below.mk (EverySet.erase h.sound key)
  have herase := total_erase FragmentSet.bytes d.sets key
  have hle := h.bytes_le
  rw [bufferedBytes_eq] at hle
  change total FragmentSet.bytes (d.sets.erase key) ≤ bound
  omega

theorem Below.evictSet (h : Below bound d) (key : FragmentKey) : Below bound (d.evictSet key) := by
  have hend := h.erase key
  unfold Defragmenter.evictSet
  cases d.sets.lookup key with
  | none => exact h
  | some _ => exact ⟨hend.sound, hend.bytes_le⟩

theorem Below.room (h : Below bound d) (order : HashOrder FragmentKey) (fragment : FragmentView)
    (now : Instant) : Below bound (d.room order fragment now).1 :=
  room_invariant (fun _ key h => h.evictSet key) (fun _ now h => h.sweep now)
    (fun _ _ h => ⟨h.sound, h.bytes_le⟩) order fragment now h

/-- A new set holds nothing, so the fragment's set always holds what the table has at its key. -/
theorem room_bytes_le (d : Defragmenter) (order : HashOrder FragmentKey) (fragment : FragmentView)
    (now : Instant) :
    (d.room order fragment now).2.bytes ≤
      measureAt FragmentSet.bytes (d.room order fragment now).1.sets fragment.key := by
  simp only [Defragmenter.room, entry]
  cases hlookup : (d.arrive fragment now).sets.lookup fragment.key with
  | some set => simp [measureAt, hlookup]
  | none => exact Nat.zero_le _

theorem Below.push (h : Below bound d) {budget : ℕ} (hbound : budget + maxDatagramLen ≤ bound)
    (order : HashOrder FragmentKey) (fragment : FragmentView) (now : Instant)
    (policy : OverlapPolicy) (hroom : RoomBeside budget d (.push order fragment now policy)) :
    Below bound (d.push order fragment now policy).1 := by
  have harrive : Below bound (d.arrive fragment now) :=
    arrive_invariant (fun _ now h => h.sweep now) (fun _ _ h =>
      ⟨h.sound, h.bytes_le⟩) fragment now h
  obtain ⟨_, _, hsets, _⟩ | ⟨hfits, _, hsets, _⟩ := d.push_spec order fragment now policy
  · constructor
    · rw [hsets]
      exact harrive.sound
    · rw [bufferedBytes, hsets]
      exact harrive.bytes_le
  · have hready := h.room order fragment now
    have hgrown : (d.grown order fragment now policy).Sound :=
      EverySet.grown h.sound order fragment now policy (fragment.sound_emptySet now)
        (fun _ hset => gatherInto_sound hset fragment now policy)
    -- the set is stored at its key, beside the others
    have hkept : Below bound { (d.room order fragment now).1 with
        sets := (d.room order fragment now).1.sets.insert fragment.key
          (d.grown order fragment now policy) } := by
      constructor
      · exact EverySet.insert hready.sound fragment.key hgrown
      · have hall := hready.bytes_le
        have hbeside := total_erase FragmentSet.bytes
          (d.room order fragment now).1.sets fragment.key
        rw [bufferedBytes_eq] at hall
        rw [bufferedBytes_eq, total_insert_eq]
        by_cases hempty : fragment.payload = []
        · have hquiet : (d.grown order fragment now policy).bytes =
              (d.room order fragment now).2.bytes :=
            gatherInto_bytes_of_empty _ hempty now policy
          have := room_bytes_le d order fragment now
          omega
        · -- one datagram grows beside the others
          have := hroom hfits hempty
          have := hgrown.bytes_le
          omega
    have hend := hkept.erase fragment.key
    split_ifs at hsets
    · exact ⟨hsets ▸ hend.sound, by rw [bufferedBytes, hsets]; exact hend.bytes_le⟩
    · exact ⟨hsets ▸ hkept.sound, by rw [bufferedBytes, hsets]; exact hkept.bytes_le⟩

theorem Below.act (h : Below bound d) {budget : ℕ} (hbound : budget + maxDatagramLen ≤ bound)
    (op : DefragOp) (hroom : RoomBeside budget d op) : Below bound (d.act op).1 := by
  cases op with
  | push order fragment now policy => exact h.push hbound order fragment now policy hroom
  | sweep now => exact h.sweep now

end Below

/-- In every run whose fragments all find the other datagrams within the configured total, the bytes
held never exceed that total and one datagram. -/
theorem fragment_bytes_below_ceiling (config : ReassemblyConfig) (ops : List DefragOp)
    (hroom : Runs.Along Defragmenter.act (RoomBeside config.maxFragmentBytesTotal)
      (Defragmenter.new config) ops) :
    ∀ before after, ops = before ++ after →
      (Runs.run Defragmenter.act (Defragmenter.new config) before).1.bufferedBytes ≤
        config.maxFragmentBytesTotal + 65535 := by
  intro before after hops
  rw [hops, Runs.along_append] at hroom
  have hnew : Below (config.maxFragmentBytesTotal + maxDatagramLen) (Defragmenter.new config) :=
    ⟨fun _ _ h => absurd h (by simp [Defragmenter.new]), Nat.zero_le _⟩
  have hbelow := Runs.invariant_along Defragmenter.act _ (RoomBeside config.maxFragmentBytesTotal)
    (fun d op h hroom => Below.act h le_rfl op hroom) hnew hroom.1
  exact hbelow.bytes_le

/-- A fragment, not the last one, of the datagram with the given identification. -/
def sampleFragment (identification : UInt32) (offset : UInt16) (payload : List UInt8) : DefragOp :=
  .push (HashOrder.asStored _) ⟨.v4 1, .v4 2, identification, 17, offset, true, payload⟩ 0 .first

/-- Two datagrams are started. -/
theorem fragment_bytes_below_ceiling_two_datagrams :
    (Runs.run Defragmenter.act (Defragmenter.new { maxFragmentBytesTotal := 100 })
      [sampleFragment 1 0 [1, 2, 3, 4, 5, 6, 7, 8],
        sampleFragment 2 0 [1, 2, 3, 4, 5, 6, 7, 8]]).1.bufferedBytes ≤ 100 + 65535 := by
  apply fragment_bytes_below_ceiling { maxFragmentBytesTotal := 100 } _ _ _ []
    (List.append_nil _).symm
  refine ⟨?_, ?_, trivial⟩
  · intro hfits hne
    decide +kernel
  · intro hfits hne
    decide +kernel

/-- Nine datagrams are started with eight bytes each, and then each gets eight thousand more. -/
theorem fragment_bytes_above_ceiling :
    ¬ ∀ (config : ReassemblyConfig) (ops : List DefragOp),
      (Runs.run Defragmenter.act (Defragmenter.new config) ops).1.bufferedBytes ≤
        config.maxFragmentBytesTotal + 65535 := by
  intro h
  have hbytes := h { maxFragmentBytesTotal := 100 }
    ((List.range 9).map (fun i => sampleFragment (UInt32.ofNat i) 0 (List.replicate 8 0)) ++
      (List.range 9).map (fun i => sampleFragment (UInt32.ofNat i) 1 (List.replicate 8000 0)))
  exact absurd hbytes (by decide +kernel)

end Defragmenter
end CyberSentinel
