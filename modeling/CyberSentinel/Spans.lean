import Mathlib.Data.Set.Card
import Mathlib.Order.Interval.Set.Nat
import Mathlib.Tactic

/-!
# Separated lists of half-open spans of naturals

A separated list holds nonempty spans in increasing order with at least one missing point between
neighbours, so it is the unique list of maximal runs of its point set. `absorb` inserts a span and
merges it with every span it touches, `trim` cuts away everything below a bound. Both are described
by their effect on the point set. `runStarts` names the runs of an arbitrary set of naturals; a
separated list has exactly one span per run. `measure` adds up the lengths, which is the number of
points.
-/

namespace Spans

/-- The half-open interval `[start, stop)`. -/
structure Span where
  start : ℕ
  stop : ℕ
  deriving DecidableEq, Repr

def points (l : List Span) : Set ℕ := {x | ∃ s ∈ l, s.start ≤ x ∧ x < s.stop}

instance (l : List Span) (x : ℕ) : Decidable (x ∈ points l) :=
  inferInstanceAs (Decidable (∃ s ∈ l, s.start ≤ x ∧ x < s.stop))

structure Separated (l : List Span) : Prop where
  gaps : l.Pairwise (fun a b => a.stop < b.start)
  nonempty : ∀ s ∈ l, s.start < s.stop

@[simp] theorem points_nil : points [] = ∅ := by
  ext x
  simp [points]

theorem mem_points_cons (r : Span) (l : List Span) (x : ℕ) :
    x ∈ points (r :: l) ↔ (r.start ≤ x ∧ x < r.stop) ∨ x ∈ points l := by
  simp [points]

theorem mem_points_of_mem {l : List Span} {s : Span} (hs : s ∈ l) {x : ℕ}
    (hlo : s.start ≤ x) (hhi : x < s.stop) : x ∈ points l := ⟨s, hs, hlo, hhi⟩

@[simp] theorem separated_nil : Separated [] := ⟨List.Pairwise.nil, by simp⟩

theorem separated_cons {r : Span} {l : List Span} :
    Separated (r :: l) ↔ r.start < r.stop ∧ (∀ s ∈ l, r.stop < s.start) ∧ Separated l := by
  constructor
  · rintro ⟨hgap, hne⟩
    rw [List.pairwise_cons] at hgap
    exact ⟨hne r (by simp), hgap.1, hgap.2, fun s hs => hne s (by simp [hs])⟩
  · rintro ⟨hr, hgap, hl⟩
    refine ⟨List.pairwise_cons.2 ⟨hgap, hl.gaps⟩, ?_⟩
    intro s hs
    rcases List.mem_cons.1 hs with rfl | hs
    · exact hr
    · exact hl.nonempty s hs

theorem not_mem_points_of_lt_starts {l : List Span} {x : ℕ} (h : ∀ s ∈ l, x < s.start) :
    x ∉ points l := by
  rintro ⟨s, hs, hlo, _⟩
  have := h s hs
  omega

/-- Insert `m`, merging it with every span it overlaps or touches. -/
def absorb (m : Span) : List Span → List Span
  | [] => [m]
  | r :: rest =>
    if r.stop < m.start then r :: absorb m rest
    else if m.stop < r.start then m :: r :: rest
    else absorb ⟨min m.start r.start, max m.stop r.stop⟩ rest

/-- The span `m` overlaps or touches some span of the list. -/
def Touches (m : Span) (l : List Span) : Prop := ∃ r ∈ l, m.start ≤ r.stop ∧ r.start ≤ m.stop

theorem absorb_start_gt {k : ℕ} (l : List Span) (m : Span) (hl : ∀ s ∈ l, k < s.start)
    (hm : k < m.start) : ∀ s ∈ absorb m l, k < s.start := by
  induction l generalizing m with
  | nil => simpa [absorb] using hm
  | cons r rest ih =>
    have hr : k < r.start := hl r (by simp)
    have hrest : ∀ s ∈ rest, k < s.start := fun s hs => hl s (by simp [hs])
    unfold absorb
    split_ifs with hbefore hafter
    · intro s hs
      rcases List.mem_cons.1 hs with rfl | hs
      · exact hr
      · exact ih m hrest hm s hs
    · intro s hs
      rcases List.mem_cons.1 hs with rfl | hs
      · exact hm
      · exact hl s hs
    · exact ih _ hrest (lt_min hm hr)

theorem absorb_start_ge {k : ℕ} (l : List Span) (m : Span) (hl : ∀ s ∈ l, k ≤ s.start)
    (hm : k ≤ m.start) : ∀ s ∈ absorb m l, k ≤ s.start := by
  cases k with
  | zero => intros; omega
  | succ k => exact absorb_start_gt l m hl hm

theorem absorb_stop_le {k : ℕ} (l : List Span) (m : Span) (hl : ∀ s ∈ l, s.stop ≤ k)
    (hm : m.stop ≤ k) : ∀ s ∈ absorb m l, s.stop ≤ k := by
  induction l generalizing m with
  | nil => simpa [absorb] using hm
  | cons r rest ih =>
    have hr : r.stop ≤ k := hl r (by simp)
    have hrest : ∀ s ∈ rest, s.stop ≤ k := fun s hs => hl s (by simp [hs])
    unfold absorb
    split_ifs with hbefore hafter
    · intro s hs
      rcases List.mem_cons.1 hs with rfl | hs
      · exact hr
      · exact ih m hrest hm s hs
    · intro s hs
      rcases List.mem_cons.1 hs with rfl | hs
      · exact hm
      · exact hl s hs
    · exact ih _ hrest (max_le hm hr)

theorem separated_absorb (l : List Span) (m : Span) (hl : Separated l) (hm : m.start < m.stop) :
    Separated (absorb m l) := by
  induction l generalizing m with
  | nil => simpa [absorb, separated_cons] using hm
  | cons r rest ih =>
    obtain ⟨hr, hgap, hrest⟩ := separated_cons.1 hl
    unfold absorb
    split_ifs with hbefore hafter
    · exact separated_cons.2 ⟨hr, absorb_start_gt rest m hgap hbefore, ih m hrest hm⟩
    · refine separated_cons.2 ⟨hm, ?_, hl⟩
      intro s hs
      rcases List.mem_cons.1 hs with rfl | hs
      · exact hafter
      · have := hgap s hs
        omega
    · exact ih _ hrest (lt_of_le_of_lt (min_le_left _ _) (lt_of_lt_of_le hm (le_max_left _ _)))

theorem mem_points_absorb (l : List Span) (m : Span) (hl : ∀ s ∈ l, s.start ≤ s.stop)
    (hm : m.start ≤ m.stop) (x : ℕ) :
    x ∈ points (absorb m l) ↔ x ∈ points l ∨ (m.start ≤ x ∧ x < m.stop) := by
  induction l generalizing m with
  | nil => simp [absorb, mem_points_cons]
  | cons r rest ih =>
    have hr : r.start ≤ r.stop := hl r (by simp)
    have hrest : ∀ s ∈ rest, s.start ≤ s.stop := fun s hs => hl s (by simp [hs])
    unfold absorb
    split_ifs with hbefore hafter
    · rw [mem_points_cons, mem_points_cons, ih m hrest hm, or_assoc]
    · rw [mem_points_cons m, or_comm]
    · -- the merged span is the union because the two touch
      rw [ih _ hrest (by simp only; omega), mem_points_cons]
      by_cases hx : x ∈ points rest
      · simp [hx]
      · simp only [hx, false_or, or_false]
        omega

theorem length_absorb_le (l : List Span) (m : Span) : (absorb m l).length ≤ l.length + 1 := by
  induction l generalizing m with
  | nil => simp [absorb]
  | cons r rest ih =>
    unfold absorb
    split_ifs with hbefore hafter
    · simpa using ih m
    · simp
    · exact (ih _).trans (by simp)

theorem length_absorb_of_touches (l : List Span) (m : Span) (hl : Separated l)
    (ht : Touches m l) : (absorb m l).length ≤ l.length := by
  induction l with
  | nil => simp [Touches] at ht
  | cons r rest ih =>
    obtain ⟨hr, hgap, hrest⟩ := separated_cons.1 hl
    obtain ⟨s, hs, hstop, hstart⟩ := ht
    unfold absorb
    split_ifs with hbefore hafter
    · rcases List.mem_cons.1 hs with rfl | hs
      · omega
      · simpa using ih hrest ⟨s, hs, hstop, hstart⟩
    · rcases List.mem_cons.1 hs with rfl | hs
      · omega
      · have := hgap s hs
        omega
    · exact (length_absorb_le rest _).trans (by simp)

theorem length_absorb_of_not_touches (l : List Span) (m : Span) (ht : ¬ Touches m l) :
    (absorb m l).length = l.length + 1 := by
  induction l with
  | nil => simp [absorb]
  | cons r rest ih =>
    have hr : ¬ (m.start ≤ r.stop ∧ r.start ≤ m.stop) := fun h => ht ⟨r, by simp, h⟩
    unfold absorb
    split_ifs with hbefore hafter
    · have hrest : ¬ Touches m rest := fun ⟨s, hs, h⟩ => ht ⟨s, by simp [hs], h⟩
      simp [ih hrest]
    · simp
    · omega

/-- In a separated list, touching a span is touching one of its points. -/
theorem touches_iff (l : List Span) (m : Span) (hl : Separated l) (hm : m.start ≤ m.stop) :
    Touches m l ↔ ∃ x ∈ points l, m.start ≤ x + 1 ∧ x ≤ m.stop := by
  constructor
  · rintro ⟨r, hr, hstop, hstart⟩
    have hne := hl.nonempty r hr
    exact ⟨max r.start (m.start - 1), ⟨r, hr, by omega, by omega⟩, by omega, by omega⟩
  · rintro ⟨x, ⟨r, hr, hlo, hhi⟩, hx, hx'⟩
    exact ⟨r, hr, by omega, by omega⟩

/-- The largest stop of a separated list, or `d` when it is empty. -/
def lastStop (d : ℕ) (l : List Span) : ℕ := (l.getLast?.map Span.stop).getD d

@[simp] theorem lastStop_nil (d : ℕ) : lastStop d [] = d := rfl

theorem lastStop_cons (d : ℕ) (r : Span) (l : List Span) :
    lastStop d (r :: l) = lastStop r.stop l := by
  cases l with
  | nil => rfl
  | cons s rest => simp [lastStop, List.getLast?_cons]

theorem le_lastStop {l : List Span} (hl : Separated l) {d : ℕ} (hd : ∀ s ∈ l, d ≤ s.start) :
    d ≤ lastStop d l := by
  induction l generalizing d with
  | nil => simp
  | cons r rest ih =>
    obtain ⟨hr, hgap, hrest⟩ := separated_cons.1 hl
    have hrd := hd r (by simp)
    have hlast := ih hrest (d := r.stop) (fun s hs => (hgap s hs).le)
    rw [lastStop_cons]
    omega

theorem stop_le_lastStop {l : List Span} (hl : Separated l) (d : ℕ) {s : Span} (hs : s ∈ l) :
    s.stop ≤ lastStop d l := by
  induction l generalizing d with
  | nil => simp at hs
  | cons r rest ih =>
    obtain ⟨_, hgap, hrest⟩ := separated_cons.1 hl
    rw [lastStop_cons]
    rcases List.mem_cons.1 hs with rfl | hs
    · exact le_lastStop hrest (fun t ht => (hgap t ht).le)
    · exact ih hrest _ hs

theorem lastStop_le {l : List Span} {d k : ℕ} (hd : d ≤ k) (hl : ∀ s ∈ l, s.stop ≤ k) :
    lastStop d l ≤ k := by
  induction l generalizing d with
  | nil => simpa using hd
  | cons r rest ih =>
    rw [lastStop_cons]
    exact ih (hl r (by simp)) (fun s hs => hl s (by simp [hs]))

theorem lastStop_absorb (d : ℕ) (l : List Span) (m : Span) (hl : Separated l)
    (hm : m.start < m.stop) : lastStop d (absorb m l) = max m.stop (lastStop m.stop l) := by
  induction l generalizing d m with
  | nil => simp [absorb, lastStop_cons]
  | cons r rest ih =>
    obtain ⟨hr, hgap, hrest⟩ := separated_cons.1 hl
    have hlast : r.stop ≤ lastStop r.stop rest := le_lastStop hrest (fun s hs => (hgap s hs).le)
    have hdefault : ∀ k, max k (lastStop k rest) = max k (lastStop r.stop rest) ∨ rest = [] := by
      intro k
      cases rest with
      | nil => simp
      | cons t rest => simp [lastStop_cons]
    unfold absorb
    split_ifs with hbefore hafter
    · rw [lastStop_cons, ih _ m hrest hm, lastStop_cons]
      rcases hdefault m.stop with h | rfl
      · exact h
      · simp only [lastStop_nil]
        omega
    · rw [lastStop_cons, lastStop_cons]
      omega
    · rw [ih _ _ hrest (by simp only; omega), lastStop_cons]
      rcases hdefault (max m.stop r.stop) with h | rfl
      · simp only [h]
        omega
      · simp

/-- The first missing point at or above `d`, for a separated list whose spans start no lower. -/
def firstHole (d : ℕ) : List Span → ℕ
  | [] => d
  | r :: _ => if r.start = d then r.stop else d

theorem le_firstHole {l : List Span} (hl : Separated l) (d : ℕ) : d ≤ firstHole d l := by
  cases l with
  | nil => simp [firstHole]
  | cons r rest =>
    have hr := (separated_cons.1 hl).1
    simp only [firstHole]
    split_ifs with h <;> omega

theorem mem_points_of_lt_firstHole {l : List Span} {d x : ℕ} (hlo : d ≤ x)
    (hhi : x < firstHole d l) : x ∈ points l := by
  cases l with
  | nil => simp only [firstHole] at hhi; omega
  | cons r rest =>
    simp only [firstHole] at hhi
    split_ifs at hhi with h
    · exact mem_points_of_mem (List.mem_cons_self) (by omega) hhi
    · omega

theorem firstHole_not_mem {l : List Span} (hl : Separated l) {d : ℕ} (hd : ∀ s ∈ l, d ≤ s.start) :
    firstHole d l ∉ points l := by
  cases l with
  | nil => simp
  | cons r rest =>
    obtain ⟨hr, hgap, hrest⟩ := separated_cons.1 hl
    have hrd := hd r (by simp)
    have hout : ∀ x ≤ r.stop, x ∉ points rest :=
      fun x hx => not_mem_points_of_lt_starts (fun s hs => hx.trans_lt (hgap s hs))
    rw [mem_points_cons]
    simp only [firstHole]
    split_ifs with h
    · exact fun hmem => hmem.elim (fun h' => by omega) (hout _ le_rfl)
    · exact fun hmem => hmem.elim (fun h' => by omega) (hout _ (by omega))

theorem exists_past_firstHole {l : List Span} (hl : Separated l) {d : ℕ} (hd : ∀ s ∈ l, d ≤ s.start)
    (htwo : 1 < l.length) : ∃ r ∈ l, firstHole d l < r.start := by
  match l, hl, hd, htwo with
  | first :: second :: rest, hl, hd, _ =>
    obtain ⟨hne, hgap, hrest⟩ := separated_cons.1 hl
    refine ⟨second, by simp, ?_⟩
    by_contra hle
    have hsecond := hgap second (by simp)
    -- otherwise the end of the first range would be covered
    have hmem : first.stop ∈ points (first :: second :: rest) :=
      mem_points_of_lt_firstHole ((hd first (by simp)).trans hne.le)
        (hsecond.trans_le (not_lt.1 hle))
    obtain ⟨r, hr, hstart, hstop⟩ := hmem
    rcases List.mem_cons.1 hr with rfl | hr
    · exact lt_irrefl _ hstop
    · exact absurd (hgap r hr) (not_lt.2 hstart)

theorem firstHole_le_lastStop {l : List Span} (hl : Separated l) {d : ℕ}
    (hd : ∀ s ∈ l, d ≤ s.start) :
    firstHole d l ≤ lastStop d l := by
  cases l with
  | nil => simp [firstHole]
  | cons r rest =>
    simp only [firstHole]
    split_ifs with h
    · exact stop_le_lastStop hl d (by simp)
    · exact le_lastStop hl hd

/-- Drop every point below `k`. -/
def trim (k : ℕ) (l : List Span) : List Span :=
  (l.map (fun r => { r with start := max r.start k })).filter (fun r => k < r.stop)

theorem mem_trim {k : ℕ} {l : List Span} {s : Span} :
    s ∈ trim k l ↔ k < s.stop ∧ ∃ r ∈ l, s = { r with start := max r.start k } := by
  simp only [trim, List.mem_filter, List.mem_map, decide_eq_true_eq]
  constructor
  · rintro ⟨⟨r, hr, rfl⟩, hk⟩
    exact ⟨hk, r, hr, rfl⟩
  · rintro ⟨hk, r, hr, rfl⟩
    exact ⟨⟨r, hr, rfl⟩, hk⟩

theorem mem_points_trim (k : ℕ) (l : List Span) (x : ℕ) :
    x ∈ points (trim k l) ↔ x ∈ points l ∧ k ≤ x := by
  constructor
  · rintro ⟨s, hs, hlo, hhi⟩
    obtain ⟨hk, r, hr, rfl⟩ := mem_trim.1 hs
    simp only at hlo hhi
    exact ⟨mem_points_of_mem hr (by omega) hhi, by omega⟩
  · rintro ⟨⟨r, hr, hlo, hhi⟩, hk⟩
    exact ⟨⟨max r.start k, r.stop⟩, mem_trim.2 ⟨show k < r.stop by omega, r, hr, rfl⟩,
      max_le hlo hk, hhi⟩

theorem separated_trim (k : ℕ) {l : List Span} (hl : Separated l) : Separated (trim k l) := by
  constructor
  · apply List.Pairwise.filter
    rw [List.pairwise_map]
    exact hl.gaps.imp (fun h => lt_of_lt_of_le h (le_max_left _ _))
  · intro s hs
    obtain ⟨hk, r, hr, rfl⟩ := mem_trim.1 hs
    exact max_lt (hl.nonempty r hr) hk

theorem trim_eq_self {k : ℕ} {l : List Span} (h : ∀ s ∈ l, k ≤ s.start ∧ k < s.stop) :
    trim k l = l := by
  have hmap : l.map (fun r => { r with start := max r.start k }) = l := by
    conv_rhs => rw [← List.map_id l]
    apply List.map_congr_left
    intro s hs
    simp [max_eq_left (h s hs).1]
  rw [trim, hmap, List.filter_eq_self]
  exact fun s hs => by simpa using (h s hs).2

theorem length_trim_le (k : ℕ) (l : List Span) : (trim k l).length ≤ l.length := by
  simpa [trim] using List.length_filter_le _ (l.map (fun r => { r with start := max r.start k }))

theorem trim_start_ge (k : ℕ) (l : List Span) : ∀ s ∈ trim k l, k ≤ s.start := by
  intro s hs
  obtain ⟨_, r, _, rfl⟩ := mem_trim.1 hs
  exact le_max_right _ _

theorem trim_stop_le {k b : ℕ} {l : List Span} (hl : ∀ s ∈ l, s.stop ≤ b) :
    ∀ s ∈ trim k l, s.stop ≤ b := by
  intro s hs
  obtain ⟨_, r, hr, rfl⟩ := mem_trim.1 hs
  exact hl r hr

theorem lastStop_trim {d k : ℕ} {l : List Span} (hl : Separated l) (hd : d ≤ k)
    (hk : k ≤ lastStop d l) : lastStop k (trim k l) = lastStop d l := by
  apply le_antisymm
  · exact lastStop_le hk (trim_stop_le (fun s hs => stop_le_lastStop hl d hs))
  · apply lastStop_le
    · exact hd.trans (le_lastStop (separated_trim k hl) (trim_start_ge k l))
    · intro s hs
      by_cases hs' : k < s.stop
      · exact stop_le_lastStop (separated_trim k hl) k (s := ⟨max s.start k, s.stop⟩)
          (mem_trim.2 ⟨hs', s, hs, rfl⟩)
      · exact (not_lt.1 hs').trans (le_lastStop (separated_trim k hl) (trim_start_ge k l))

theorem firstHole_eq {l : List Span} (hl : Separated l) {d h : ℕ} (hd : ∀ s ∈ l, d ≤ s.start)
    (hdh : d ≤ h) (hin : ∀ x, d ≤ x → x < h → x ∈ points l) (hout : h ∉ points l) :
    firstHole d l = h := by
  rcases Nat.lt_trichotomy (firstHole d l) h with hlt | heq | hgt
  · exact absurd (hin _ (le_firstHole hl d) hlt) (firstHole_not_mem hl hd)
  · exact heq
  · exact absurd (mem_points_of_lt_firstHole hdh hgt) hout

theorem firstHole_trim {l : List Span} (hl : Separated l) {d k : ℕ} (hd : ∀ s ∈ l, d ≤ s.start)
    (hdk : d ≤ k) (hk : k ≤ firstHole d l) : firstHole k (trim k l) = firstHole d l := by
  apply firstHole_eq (separated_trim k hl) (trim_start_ge k l) hk
  · intro x hx hlt
    exact (mem_points_trim k l x).2 ⟨mem_points_of_lt_firstHole (hdk.trans hx) hlt, hx⟩
  · intro hmem
    exact firstHole_not_mem hl hd ((mem_points_trim k l _).1 hmem).1

/-- The points of `S` that open a maximal run. -/
def runStarts (S : Set ℕ) : Set ℕ := {x | x ∈ S ∧ (x = 0 ∨ x - 1 ∉ S)}

theorem runStarts_points {l : List Span} (hl : Separated l) :
    runStarts (points l) = {x | ∃ s ∈ l, s.start = x} := by
  ext x
  induction l with
  | nil => simp [runStarts]
  | cons r rest ih =>
    obtain ⟨hr, hgap, hrest⟩ := separated_cons.1 hl
    have hout : ∀ y ≤ r.stop, y ∉ points rest :=
      fun y hy => not_mem_points_of_lt_starts (fun s hs => hy.trans_lt (hgap s hs))
    have hih := ih hrest
    simp only [runStarts, Set.mem_ofPred_eq, mem_points_cons, List.mem_cons,
      exists_eq_or_imp] at hih ⊢
    rw [← hih]
    by_cases hx : x ≤ r.stop
    · -- below the gap only the head span has points
      have h1 := hout x hx
      have h2 := hout (x - 1) (by omega)
      simp only [h1, h2, or_false, false_and]
      omega
    · simp only [show ¬ (r.start ≤ x ∧ x < r.stop) by omega, false_or,
        show ¬ (r.start ≤ x - 1 ∧ x - 1 < r.stop) by omega, show ¬ r.start = x by omega]

theorem length_eq_ncard_runStarts {l : List Span} (hl : Separated l) :
    l.length = (runStarts (points l)).ncard := by
  have hnodup : (l.map Span.start).Nodup := by
    rw [List.Nodup, List.pairwise_map]
    apply hl.gaps.imp_of_mem
    intro a b ha _ hab
    have := hl.nonempty a ha
    omega
  have hset : runStarts (points l) = ((l.map Span.start).toFinset : Set ℕ) := by
    rw [runStarts_points hl]
    ext x
    simp
  rw [hset, Set.ncard_coe_finset, List.toFinset_card_of_nodup hnodup, List.length_map]

/-- The runs once an interval has been added are the spans once it has been absorbed. -/
theorem ncard_ranges {l : List Span} (hl : Separated l) {lo hi : ℕ} (hlt : lo < hi) :
    (runStarts {x | x ∈ points l ∨ (lo ≤ x ∧ x < hi)}).ncard = (absorb ⟨lo, hi⟩ l).length := by
  have hpoints : points (absorb ⟨lo, hi⟩ l) = {x | x ∈ points l ∨ (lo ≤ x ∧ x < hi)} := by
    ext x
    exact mem_points_absorb l ⟨lo, hi⟩ (fun s hs => (hl.nonempty s hs).le) hlt.le x
  rw [← hpoints, length_eq_ncard_runStarts (separated_absorb l ⟨lo, hi⟩ hl hlt)]

def measure (l : List Span) : ℕ := (l.map (fun r => r.stop - r.start)).sum

theorem finite_points (l : List Span) : (points l).Finite := by
  induction l with
  | nil => simp
  | cons r rest ih =>
    have hcons : points (r :: rest) = Set.Ico r.start r.stop ∪ points rest := by
      ext x
      exact mem_points_cons r rest x
    rw [hcons]
    exact (Set.finite_Ico _ _).union ih

/-- Separated spans share no point, so their lengths add up to the number of points. -/
theorem measure_eq_ncard {l : List Span} (hl : Separated l) : measure l = (points l).ncard := by
  induction l with
  | nil => simp [measure]
  | cons r rest ih =>
    obtain ⟨_, hgap, hrest⟩ := separated_cons.1 hl
    have hcons : points (r :: rest) = Set.Ico r.start r.stop ∪ points rest := by
      ext x
      exact mem_points_cons r rest x
    have hdisjoint : Disjoint (Set.Ico r.start r.stop) (points rest) := by
      rw [Set.disjoint_left]
      intro x hx
      exact not_mem_points_of_lt_starts (fun s hs => hx.2.trans (hgap s hs))
    rw [hcons, Set.ncard_union_eq hdisjoint (Set.finite_Ico _ _) (finite_points rest),
      Set.ncard_Ico_nat,
      ← ih hrest]
    simp [measure]

/-- Cutting below a bound inside the first run takes that many points away. -/
theorem measure_trim {l : List Span} (hl : Separated l) {d k : ℕ} (hd : ∀ s ∈ l, d ≤ s.start)
    (hk : k ≤ firstHole d l) : measure (trim k l) + (k - d) = measure l := by
  have hpoints : points l = points (trim k l) ∪ Set.Ico d k := by
    ext x
    rw [Set.mem_union, mem_points_trim, Set.mem_Ico]
    constructor
    · intro hx
      by_cases hlt : x < k
      · obtain ⟨s, hs, hlo, _⟩ := hx
        exact Or.inr ⟨(hd s hs).trans hlo, hlt⟩
      · exact Or.inl ⟨hx, not_lt.1 hlt⟩
    · rintro (⟨hx, _⟩ | ⟨hlo, hhi⟩)
      · exact hx
      · exact mem_points_of_lt_firstHole hlo (hhi.trans_le hk)
  have hdisjoint : Disjoint (points (trim k l)) (Set.Ico d k) := by
    rw [Set.disjoint_left]
    intro x hx hx'
    have := ((mem_points_trim k l x).1 hx).2
    exact absurd hx'.2 (not_lt.2 this)
  rw [measure_eq_ncard hl, measure_eq_ncard (separated_trim k hl), hpoints,
    Set.ncard_union_eq hdisjoint (finite_points _) (Set.finite_Ico _ _), Set.ncard_Ico_nat]

theorem measure_le {l : List Span} (hl : Separated l) {d e : ℕ} (hd : ∀ s ∈ l, d ≤ s.start)
    (he : ∀ s ∈ l, s.stop ≤ e) : measure l ≤ e - d := by
  rw [measure_eq_ncard hl, ← Set.ncard_Ico_nat]
  apply Set.ncard_le_ncard _ (Set.finite_Ico _ _)
  rintro x ⟨s, hs, hlo, hhi⟩
  exact ⟨(hd s hs).trans hlo, hhi.trans_le (he s hs)⟩

end Spans
