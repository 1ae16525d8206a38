import CyberSentinel.Bytes
import Mathlib.Data.List.Destutter
import Mathlib.Data.List.Sort

/-!
# Searching sequences

`OccursAt` says that a needle stands at a position of a haystack, element by element and up to a
comparison `same`. `windows` are the slices a search walks through; the first one that passes a test
is the first occurrence. The pointwise definition makes an occurrence easy to carry between a
sequence and its slices. The second part is about a list that is sorted and then rid of repeats.
-/

namespace Search

open Bytes

variable {α : Type*} (same : α → α → Bool)

def OccursAt (needle haystack : List α) (i : ℕ) : Prop :=
  ∀ k b, needle[k]? = some b → ∃ a, haystack[i + k]? = some a ∧ same a b = true

/-- `needle` stands somewhere in `haystack`. -/
def Occurs (needle haystack : List α) : Prop := ∃ i, OccursAt same needle haystack i

variable {same}

theorem OccursAt.le_length {needle haystack : List α} {i : ℕ} (h : OccursAt same needle haystack i)
    (hne : needle ≠ []) : i + needle.length ≤ haystack.length := by
  have hpos : 0 < needle.length := List.length_pos_of_ne_nil hne
  have hlast : needle.length - 1 < needle.length := by omega
  obtain ⟨a, ha, _⟩ := h (needle.length - 1) _ (List.getElem?_eq_getElem hlast)
  obtain ⟨hlt, _⟩ := List.getElem?_eq_some_iff.1 ha
  omega

/-- An occurrence inside a slice is an occurrence in the whole, shifted by the slice's start. -/
theorem OccursAt.of_slice {needle v : List α} {start stop i : ℕ}
    (h : OccursAt same needle (slice v start stop) i) : OccursAt same needle v (start + i) := by
  intro k b hk
  obtain ⟨a, ha, hsame⟩ := h k b hk
  rw [getElem?_slice] at ha
  split_ifs at ha with hlt
  exact ⟨a, by rw [Nat.add_assoc]; exact ha, hsame⟩

/-- An occurrence that a slice covers is an occurrence in the slice. -/
theorem OccursAt.slice {needle v : List α} {start stop i : ℕ} (h : OccursAt same needle v i)
    (hstart : start ≤ i) (hstop : i + needle.length ≤ stop) :
    OccursAt same needle (slice v start stop) (i - start) := by
  intro k b hk
  obtain ⟨a, ha, hsame⟩ := h k b hk
  obtain ⟨hlt, _⟩ := List.getElem?_eq_some_iff.1 hk
  have hindex : start + (i - start + k) = i + k := by omega
  refine ⟨a, ?_, hsame⟩
  rw [getElem?_slice, hindex, if_pos (by omega)]
  exact ha

theorem OccursAt.take {needle v : List α} {i k : ℕ} (h : OccursAt same needle v i)
    (hk : i + needle.length ≤ k) : OccursAt same needle (v.take k) i := by
  intro j b hj
  obtain ⟨a, ha, hsame⟩ := h j b hj
  obtain ⟨hlt, _⟩ := List.getElem?_eq_some_iff.1 hj
  exact ⟨a, by rw [List.getElem?_take, if_pos (by omega), ha], hsame⟩

theorem OccursAt.of_drop {needle v : List α} {n i : ℕ} (h : OccursAt same needle (v.drop n) i) :
    OccursAt same needle v (n + i) := by
  rw [← List.take_length (l := v)] at h
  exact h.of_slice

theorem OccursAt.extend {needle v longer : List α} {i : ℕ} (h : OccursAt same needle v i)
    (hlonger : v <+: longer) : OccursAt same needle longer i := by
  intro j b hj
  obtain ⟨a, ha, hsame⟩ := h j b hj
  obtain ⟨rest, rfl⟩ := hlonger
  obtain ⟨hlt, _⟩ := List.getElem?_eq_some_iff.1 ha
  exact ⟨a, by rw [List.getElem?_append_left hlt, ha], hsame⟩

theorem occurs_of_slice {needle v : List α} {start stop : ℕ}
    (h : Occurs same needle (slice v start stop)) : Occurs same needle v := by
  obtain ⟨i, hi⟩ := h
  exact ⟨start + i, hi.of_slice⟩

theorem not_occurs_nil {needle : List α} (hne : needle ≠ []) : ¬ Occurs same needle [] := by
  rintro ⟨i, hi⟩
  have hle := hi.le_length hne
  have hpos : 0 < needle.length := List.length_pos_of_ne_nil hne
  simp only [List.length_nil] at hle
  omega

/-- `v.windows(n)`. -/
def windows (v : List α) (n : ℕ) : List (List α) :=
  (List.range (v.length + 1 - n)).map (fun i => Bytes.slice v i (i + n))

/-- The position of the first window of `n` elements that passes a test. -/
def windowPosition (v : List α) (n : ℕ) (test : List α → Bool) : Option ℕ :=
  (windows v n).findIdx? test

theorem getElem?_windows (v : List α) (n i : ℕ) :
    (windows v n)[i]? = if i + n ≤ v.length then some (Bytes.slice v i (i + n)) else none := by
  simp only [windows, List.getElem?_map]
  split_ifs with h
  · rw [List.getElem?_range (by omega), Option.map_some]
  · rw [List.getElem?_eq_none (by simp only [List.length_range]; omega), Option.map_none]

theorem windowPosition_eq_some {v : List α} {n i : ℕ} {test : List α → Bool}
    (h : windowPosition v n test = some i) :
    i + n ≤ v.length ∧ test (Bytes.slice v i (i + n)) = true := by
  obtain ⟨hlt, htest, _⟩ := List.findIdx?_eq_some_iff_getElem.1 h
  have hget := getElem?_windows v n i
  rw [List.getElem?_eq_getElem hlt] at hget
  split_ifs at hget with hle
  exact ⟨hle, by rw [← Option.some.inj hget]; exact htest⟩

theorem windowPosition_first {v : List α} {n i j : ℕ} {test : List α → Bool}
    (h : windowPosition v n test = some i) (hj : j < i) :
    test (Bytes.slice v j (j + n)) = false := by
  obtain ⟨hle, _⟩ := windowPosition_eq_some h
  obtain ⟨hlt, _, hfirst⟩ := List.findIdx?_eq_some_iff_getElem.1 h
  have hget := getElem?_windows v n j
  rw [if_pos (by omega), List.getElem?_eq_getElem (hj.trans hlt)] at hget
  rw [← Option.some.inj hget]
  simpa using hfirst j hj

theorem windowPosition_isSome {v : List α} {n : ℕ} {test : List α → Bool} {i : ℕ}
    (hle : i + n ≤ v.length) (htest : test (Bytes.slice v i (i + n)) = true) :
    (windowPosition v n test).isSome = true := by
  rw [windowPosition, List.findIdx?_isSome, List.any_eq_true]
  have hget := getElem?_windows v n i
  rw [if_pos hle] at hget
  exact ⟨_, List.mem_of_getElem? hget, htest⟩

/-- Comparing a window with a needle of its length decides whether the needle stands there. -/
theorem all_zip_slice_iff {v needle : List α} {i : ℕ} (hle : i + needle.length ≤ v.length) :
    ((Bytes.slice v i (i + needle.length)).zip needle).all (fun p => same p.1 p.2) = true ↔
      OccursAt same needle v i := by
  have hget (k : ℕ) (hk : k < needle.length) :
      (Bytes.slice v i (i + needle.length))[k]? = v[i + k]? := by
    rw [getElem?_slice, if_pos (by omega)]
  rw [List.all_eq_true]
  constructor
  · intro h k b hk
    obtain ⟨hlt, _⟩ := List.getElem?_eq_some_iff.1 hk
    have hv : v[i + k]? = some (v[i + k]) := List.getElem?_eq_getElem (by omega)
    refine ⟨_, hv, h (v[i + k], b) ?_⟩
    apply List.mem_of_getElem? (i := k)
    rw [List.getElem?_zip_eq_some]
    exact ⟨by rw [hget k hlt, hv], hk⟩
  · intro h p hp
    obtain ⟨k, hk⟩ := List.getElem?_of_mem hp
    obtain ⟨hleft, hright⟩ := List.getElem?_zip_eq_some.1 hk
    obtain ⟨hlt, _⟩ := List.getElem?_eq_some_iff.1 hright
    obtain ⟨a, ha, hsame⟩ := h k _ hright
    rw [hget k hlt, ha] at hleft
    rw [← Option.some.inj hleft]
    exact hsame

section Sorted

variable [LinearOrder α]

/-- `sort_unstable` followed by `dedup`. -/
def sortDedup (l : List α) : List α := (l.insertionSort (· ≤ ·)).destutter (· ≠ ·)

theorem mem_destutter'_ne (a x : α) (l : List α) :
    x ∈ l.destutter' (· ≠ ·) a ↔ x = a ∨ x ∈ l := by
  induction l generalizing a with
  | nil => simp
  | cons b l ih =>
    by_cases h : a ≠ b
    · rw [List.destutter'_cons_pos _ h, List.mem_cons, ih, List.mem_cons]
    · rw [List.destutter'_cons_neg _ h, ih, List.mem_cons]
      rw [not_not] at h
      subst h
      tauto

theorem mem_sortDedup (x : α) (l : List α) : x ∈ sortDedup l ↔ x ∈ l := by
  rw [← List.mem_insertionSort (· ≤ ·) (l := l), sortDedup]
  cases l.insertionSort (· ≤ ·) with
  | nil => simp
  | cons a rest => rw [List.destutter_cons', mem_destutter'_ne, List.mem_cons]

theorem pairwise_lt_sortDedup (l : List α) : (sortDedup l).Pairwise (· < ·) := by
  have hsorted : (sortDedup l).Pairwise (· ≤ ·) :=
    (List.pairwise_insertionSort (· ≤ ·) l).sublist (List.destutter_sublist _ _)
  have hchain : (sortDedup l).IsChain (· < ·) := by
    have hle : (sortDedup l).IsChain (· ≤ ·) := hsorted.isChain
    have hne : (sortDedup l).IsChain (· ≠ ·) := List.isChain_destutter _ _
    rw [List.isChain_iff_getElem] at hle hne ⊢
    intro i hi
    exact lt_of_le_of_ne (hle i hi) (hne i hi)
  exact List.isChain_iff_pairwise.1 hchain

/-- Two strictly increasing lists with the same members are the same list. -/
theorem eq_of_pairwise_lt {l l' : List α} (h : l.Pairwise (· < ·)) (h' : l'.Pairwise (· < ·))
    (hmem : ∀ x, x ∈ l ↔ x ∈ l') : l = l' := by
  have hperm : l.Perm l' := by
    rw [List.perm_ext_iff_of_nodup (h.imp ne_of_lt) (h'.imp ne_of_lt)]
    exact hmem
  exact hperm.eq_of_pairwise (fun _ _ _ _ hab hba => absurd (hab.trans hba) (lt_irrefl _)) h h'

end Sorted

end Search
