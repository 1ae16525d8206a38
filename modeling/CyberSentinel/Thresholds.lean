import CyberSentinel.HostRules
import CyberSentinel.OptionText
import CyberSentinel.Runs

/-!
# Thresholds

The matches of a rule that count against one key fall into windows: the first match opens one, and
the first match that comes a window's length or more after it opens the next. What a threshold lets
through in a window depends on the place of a match in it alone. The code keeps one counter for each
rule and key, which the match that opens a window resets.
-/

namespace CyberSentinel.Detect

open Rules Tables

def windowsOf (length : ℕ) : List Instant → List (List Instant)
  | [] => []
  | first :: rest =>
    (first :: rest.takeWhile (fun t => t < first + length)) ::
      windowsOf length (rest.dropWhile (fun t => t < first + length))
termination_by times => times.length
decreasing_by
  rw [List.length_cons]
  exact Nat.lt_succ_of_le (List.length_dropWhile_le _ _)

/-- Whether a match alerts that is the `i`-th of its window, counted from one. -/
def alertsAt (threshold : Threshold) (i : ℕ) : Bool :=
  match threshold.kind with
  | .limit => i ≤ threshold.count.toNat
  | .threshold => i % threshold.count.toNat == 0
  | .both => i == threshold.count.toNat

def windowVerdicts (threshold : Threshold) (size : ℕ) : List Bool :=
  (List.range size).map fun i => alertsAt threshold (i + 1)

def windowLength (threshold : Threshold) : ℕ := threshold.seconds.toNat * nanosPerSecond

theorem allows_eq (threshold : Threshold) {i : ℕ} (hi : i < 2 ^ 32) :
    ThresholdKind.allows threshold.kind (UInt32.ofNat i) threshold.count =
      alertsAt threshold i := by
  have hnat : (UInt32.ofNat i).toNat = i := UInt32.toNat_ofNat_of_lt' hi
  rw [alertsAt, Bool.eq_iff_iff]
  cases threshold.kind with
  | threshold =>
    simp only [ThresholdKind.allows, beq_iff_eq]
    rw [← UInt32.toNat_inj, UInt32.toNat_mod, hnat]
    rfl
  | limit =>
    simp only [ThresholdKind.allows, decide_eq_true_eq]
    rw [UInt32.le_iff_toNat_le, hnat]
  | both =>
    simp only [ThresholdKind.allows, beq_iff_eq]
    rw [← UInt32.toNat_inj, hnat]

def countTime (threshold : Threshold) (entry : Option ThresholdEntry) (now : Instant) :
    Option ThresholdEntry × Bool :=
  let entry := entry.getD ⟨0, now⟩
  let entry := if windowLength threshold ≤ elapsed now entry.windowStart then ⟨0, now⟩ else entry
  (some { entry with count := entry.count + 1 },
    ThresholdKind.allows threshold.kind (entry.count + 1) threshold.count)

theorem elapsed_lt_iff {first t : ℤ} (h : first ≤ t) (length : ℕ) :
    elapsed t first < length ↔ t < first + length := by
  rw [elapsed]
  omega

def Opens (threshold : Threshold) (entry : Option ThresholdEntry) (now : Instant) : Prop :=
  ∀ e ∈ entry, windowLength threshold ≤ elapsed now e.windowStart

theorem countTime_opens {threshold : Threshold} {entry : Option ThresholdEntry} {now : Instant}
    (h : Opens threshold entry now) :
    countTime threshold entry now =
      (some ⟨1, now⟩, ThresholdKind.allows threshold.kind 1 threshold.count) := by
  cases entry with
  | none =>
    rw [countTime, Option.getD_none]
    split_ifs <;> rfl
  | some e =>
    rw [countTime, Option.getD_some, if_pos (h e rfl)]
    rfl

theorem countTime_inside {threshold : Threshold} {n : ℕ} {start now : Instant}
    (h : elapsed now start < windowLength threshold) :
    countTime threshold (some ⟨UInt32.ofNat n, start⟩) now =
      (some ⟨UInt32.ofNat (n + 1), start⟩,
        ThresholdKind.allows threshold.kind (UInt32.ofNat (n + 1)) threshold.count) := by
  rw [countTime, Option.getD_some, if_neg (not_le.2 h), UInt32.ofNat_add]
  rfl

theorem run_inside {threshold : Threshold} {start : Instant} (times : List Instant) (n : ℕ)
    (h : ∀ t ∈ times, elapsed t start < windowLength threshold) (hn : n + times.length < 2 ^ 32) :
    Runs.run (countTime threshold) (some ⟨UInt32.ofNat n, start⟩) times =
      (some ⟨UInt32.ofNat (n + times.length), start⟩,
        (List.range times.length).map fun i => alertsAt threshold (n + i + 1)) := by
  induction times generalizing n with
  | nil => rfl
  | cons t rest ih =>
    rw [List.length_cons] at hn
    have hrest := ih (n + 1) (fun u hu => h u (List.mem_cons_of_mem _ hu)) (by omega)
    rw [Runs.run_cons, countTime_inside (h t List.mem_cons_self), hrest,
      allows_eq threshold (by omega),
      List.length_cons, List.range_succ_eq_map, List.map_cons, List.map_map]
    have hcount : n + 1 + rest.length = n + (rest.length + 1) := by omega
    have hplace (i : ℕ) : n + 1 + i + 1 = n + (i + 1) + 1 := by omega
    simp only [hcount, hplace, Nat.add_zero]
    rfl

theorem run_windows (threshold : Threshold) {times : List Instant}
    (hsorted : times.Pairwise (· ≤ ·))
    (hwindows : ∀ w ∈ windowsOf (windowLength threshold) times, w.length < 2 ^ 32)
    {entry : Option ThresholdEntry} (hopens : ∀ t ∈ times.head?, Opens threshold entry t) :
    (Runs.run (countTime threshold) entry times).2 =
      (windowsOf (windowLength threshold) times).flatMap
        (fun w => windowVerdicts threshold w.length) := by
  induction times using windowsOf.induct (windowLength threshold) generalizing entry with
  | case1 => rw [windowsOf, Runs.run_nil, List.flatMap_nil]
  | case2 first rest ih =>
    obtain ⟨hfirst, hrest⟩ := List.pairwise_cons.1 hsorted
    rw [windowsOf] at hwindows ⊢
    obtain ⟨hwindow, hlater⟩ := List.forall_mem_cons.1 hwindows
    generalize hinside : rest.takeWhile (fun t => t < first + windowLength threshold) = inside
      at hwindow ⊢
    generalize hafter : rest.dropWhile (fun t => t < first + windowLength threshold) = after
      at hlater ih ⊢
    have hsplit : rest = inside ++ after := by
      rw [← hinside, ← hafter, List.takeWhile_append_dropWhile]
    have hnear (t : Instant) (ht : t ∈ inside) : elapsed t first < windowLength threshold := by
      have hlt := List.mem_takeWhile_imp (hinside ▸ ht)
      have hle := hfirst t (hsplit ▸ List.mem_append_left _ ht)
      exact (elapsed_lt_iff hle _).2 (of_decide_eq_true hlt)
    have hopensNext (count : UInt32) : ∀ t ∈ after.head?,
        Opens threshold (some ⟨count, first⟩) t := by
      intro t ht e he
      obtain rfl := Option.some.inj he
      have hfar := List.head?_dropWhile_not (fun t =>
        decide (t < first + windowLength threshold)) rest
      rw [hafter, ht] at hfar
      have hle := hfirst t (hsplit ▸ List.mem_append_right _ (List.mem_of_mem_head? ht))
      exact not_lt.1 (mt (elapsed_lt_iff hle _).1 (by simpa using hfar))
    have hverdicts : windowVerdicts threshold (first :: inside).length =
        alertsAt threshold 1 ::
          (List.range inside.length).map fun i => alertsAt threshold (1 + i + 1) := by
      rw [windowVerdicts, List.length_cons, List.range_succ_eq_map, List.map_cons, List.map_map]
      refine congrArg (List.cons _) (List.map_congr_left fun i _ => ?_)
      rw [Function.comp_apply, Nat.succ_eq_add_one, Nat.add_comm 1 i]
    have hone : ThresholdKind.allows threshold.kind 1 threshold.count = alertsAt threshold 1 :=
      allows_eq threshold (by decide)
    rw [List.length_cons] at hwindow
    rw [Runs.run_cons, countTime_opens (hopens first rfl), hsplit, Runs.run_append,
      show (some ⟨1, first⟩ : Option ThresholdEntry) = some ⟨UInt32.ofNat 1, first⟩ from rfl,
      run_inside inside 1 hnear (by omega), List.flatMap_cons, hverdicts, hone]
    rw [hsplit] at hrest
    rw [ih (hrest.sublist (List.sublist_append_right _ _)) hlater (hopensNext _)]
    rfl

variable {κ : Type} [DecidableEq κ]

structure Match (κ : Type) where
  sid : UInt32
  key : κ
  now : Instant

/-- Count a match by the threshold of its rule; the answer is whether it alerts. -/
def countMatch (maxEntries : ℕ) (threshold : UInt32 → Threshold)
    (t : Table (UInt32 × κ) ThresholdEntry) (m : Match κ) :
    Table (UInt32 × κ) ThresholdEntry × Bool :=
  countEvent maxEntries t m.sid (threshold m.sid) m.key m.now

def HasRoom (maxEntries : ℕ) (t : Table (UInt32 × κ) ThresholdEntry) (m : Match κ) : Prop :=
  (t.lookup (m.sid, m.key)).isSome = true ∨ size t < maxEntries

def Match.IsOf (sid : UInt32) (key : κ) (m : Match κ) : Prop := (m.sid, m.key) = (sid, key)

instance (sid : UInt32) (key : κ) (m : Match κ) : Decidable (m.IsOf sid key) :=
  inferInstanceAs (Decidable (_ = _))

def timesOf (sid : UInt32) (key : κ) (ms : List (Match κ)) : List Instant :=
  (ms.filter (fun m => m.IsOf sid key)).map Match.now

def verdictsOf (sid : UInt32) (key : κ) (ms : List (Match κ)) (verdicts : List Bool) :
    List Bool :=
  ((ms.zip verdicts).filter (fun e => e.1.IsOf sid key)).map Prod.snd

section Table

variable {maxEntries : ℕ} {threshold : UInt32 → Threshold}

theorem countMatch_own (threshold : UInt32 → Threshold) {t : Table (UInt32 × κ) ThresholdEntry}
    {m : Match κ} (hroom : HasRoom maxEntries t m) :
    ((countMatch maxEntries threshold t m).1.lookup (m.sid, m.key),
        (countMatch maxEntries threshold t m).2) =
      countTime (threshold m.sid) (t.lookup (m.sid, m.key)) m.now := by
  rw [countMatch, countEvent]
  cases hlookup : t.lookup (m.sid, m.key) with
  | none =>
    have hsize : size t < maxEntries :=
      hroom.resolve_left (by rw [hlookup]; exact Bool.false_ne_true)
    dsimp only
    rw [if_neg (not_le.2 hsize), AList.lookup_insert,
      countTime_opens fun e he => absurd he (Option.not_mem_none e)]
  | some entry =>
    dsimp only
    rw [AList.lookup_insert]
    rfl

theorem countMatch_other (t : Table (UInt32 × κ) ThresholdEntry) {m : Match κ}
    {sid : UInt32} {key : κ}
    (h : ¬ m.IsOf sid key) :
    (countMatch maxEntries threshold t m).1.lookup (sid, key) = t.lookup (sid, key) := by
  have hne : (sid, key) ≠ (m.sid, m.key) := fun heq => h heq.symm
  rw [countMatch, countEvent]
  cases t.lookup (m.sid, m.key) with
  | none =>
    dsimp only
    split_ifs
    · rfl
    · exact AList.lookup_insert_ne hne
  | some entry => exact AList.lookup_insert_ne hne

/-- The verdicts on the matches of a rule against a key are those of its own counter. -/
theorem run_verdictsOf {t : Table (UInt32 × κ) ThresholdEntry} {ms : List (Match κ)}
    (hroom : Runs.Along (countMatch maxEntries threshold) (HasRoom maxEntries) t ms) (sid : UInt32)
    (key : κ) :
    verdictsOf sid key ms (Runs.run (countMatch maxEntries threshold) t ms).2 =
      (Runs.run (countTime (threshold sid)) (t.lookup (sid, key)) (timesOf sid key ms)).2 := by
  induction ms generalizing t with
  | nil => rfl
  | cons m rest ih =>
    have hrest := ih hroom.2
    rw [verdictsOf] at hrest ⊢
    rw [Runs.run_cons, List.zip_cons_cons, timesOf]
    by_cases hm : m.IsOf sid key
    · obtain ⟨rfl, rfl⟩ := Prod.mk.inj hm
      have hown := countMatch_own threshold hroom.1
      rw [List.filter_cons_of_pos (by simpa using hm), List.filter_cons_of_pos (by simpa using hm),
        List.map_cons, List.map_cons, Runs.run_cons, hrest, ← hown]
      rfl
    · rw [List.filter_cons_of_neg (by simpa using hm), List.filter_cons_of_neg
        (by simpa using hm), hrest,
        countMatch_other t hm]
      rfl

theorem countMatch_size {t : Table (UInt32 × κ) ThresholdEntry} (h : size t ≤ maxEntries)
    (m : Match κ) : size (countMatch maxEntries threshold t m).1 ≤ maxEntries := by
  rw [countMatch, countEvent]
  cases hlookup : t.lookup (m.sid, m.key) with
  | none =>
    dsimp only
    split_ifs with hfull
    · exact h
    · exact (size_insert_le _ _ _).trans (not_le.1 hfull)
  | some entry =>
    dsimp only
    rw [size_insert, hlookup]
    exact h

end Table

/-- Within each window of a rule and a key the threshold decides by the place of a match in it,
whatever other rules and keys do. A table that is full lets a match alert that it has no counter
for, and never exceeds its cap. -/
theorem thresholds_count (maxEntries : ℕ) (threshold : UInt32 → Threshold) (ms : List (Match κ)) :
    let r := Runs.run (countMatch maxEntries threshold) ∅ ms
    (∀ sid key, (ms.map Match.now).Pairwise (· ≤ ·) →
        Runs.Along (countMatch maxEntries threshold) (HasRoom maxEntries) ∅ ms →
        (∀ w ∈ windowsOf (windowLength (threshold sid)) (timesOf sid key ms), w.length < 2 ^ 32) →
        verdictsOf sid key ms r.2 =
          (windowsOf (windowLength (threshold sid)) (timesOf sid key ms)).flatMap
            (fun w => windowVerdicts (threshold sid) w.length)) ∧
      size r.1 ≤ maxEntries ∧
      (∀ m : Match κ, maxEntries ≤ size r.1 → r.1.lookup (m.sid, m.key) = none →
        (countMatch maxEntries threshold r.1 m).2 = true) ∧
      ∀ text parsed, parseThreshold text = .ok parsed → parsed.count ≠ 0 := by
  intro r
  refine ⟨fun sid key hsorted hroom hwindows => ?_, ?_, ?_, fun _ _ => parseThreshold_count⟩
  · have htimes : (timesOf sid key ms).Pairwise (· ≤ ·) :=
      hsorted.sublist (List.filter_sublist.map _)
    rw [run_verdictsOf hroom sid key, AList.lookup_empty]
    exact run_windows (threshold sid) htimes hwindows fun _ _ e he =>
      absurd he (Option.not_mem_none e)
  · exact Runs.invariant (countMatch maxEntries threshold) (fun t => size t ≤ maxEntries)
      (fun t m h => countMatch_size h m) (Nat.zero_le _) ms
  · intro m hfull hnone
    rw [countMatch, countEvent, hnone]
    exact congrArg Prod.snd (if_pos hfull)

def second (n : ℕ) : Instant := n * nanosPerSecond

/-- Rule 1 alerts on every second match in a minute; the matches of rule 2 come in between. -/
def everySecond (_ : UInt32) : Threshold := ⟨.threshold, .byRule, 2, 60⟩

def sampleMatches : List (Match String) :=
  [⟨1, "", second 0⟩, ⟨2, "", second 10⟩, ⟨1, "", second 59⟩, ⟨1, "", second 60⟩,
    ⟨2, "", second 61⟩,
    ⟨1, "", second 61⟩]

theorem thresholds_count_interleaved :
    verdictsOf 1 "" sampleMatches (Runs.run (countMatch 8 everySecond) ∅ sampleMatches).2 =
      [false, true, false, true] := by
  have hverdicts := (thresholds_count 8 everySecond sampleMatches).1 1 "" (by decide +kernel)
    ⟨Or.inr (by decide +kernel), Or.inr (by decide +kernel), Or.inl (by decide +kernel),
      Or.inl (by decide +kernel), Or.inl (by decide +kernel), Or.inl (by decide +kernel), trivial⟩
  have htimes : timesOf 1 "" sampleMatches = [second 0, second 59, second 60, second 61] := by
    decide +kernel
  have hwindows : windowsOf (windowLength (everySecond 1)) [second 0, second 59, second 60,
      second 61] =
      [[second 0, second 59], [second 60, second 61]] := by
    simp [windowsOf, windowLength, everySecond, second, nanosPerSecond]
  rw [htimes, hwindows] at hverdicts
  rw [hverdicts (by decide)]
  decide

end CyberSentinel.Detect
