import Mathlib.Data.List.Basic
import Mathlib.Tactic

/-!
# Slices of sequences

The three vector operations a byte buffer is built from: taking a slice, copying a slice over part
of a vector, and growing a vector with a fill value. Each is described by the element it leaves at
every index. A sequence in parts is sliced into them where each begins.
-/

namespace Bytes

variable {α : Type*}

/-- `v[start..stop]`. -/
def slice (v : List α) (start stop : ℕ) : List α := (v.take stop).drop start

theorem getElem?_slice (v : List α) (start stop i : ℕ) :
    (slice v start stop)[i]? = if start + i < stop then v[start + i]? else none := by
  simp only [slice, List.getElem?_drop, List.getElem?_take]

theorem length_slice (v : List α) {start stop : ℕ} (h : stop ≤ v.length) :
    (slice v start stop).length = stop - start := by
  simp [slice, h]

/-- `v[start..stop].copy_from_slice(src)`. -/
def overwrite (v : List α) (start stop : ℕ) (src : List α) : List α :=
  v.take start ++ (src ++ v.drop stop)

theorem length_overwrite (v src : List α) {start stop : ℕ} (h : start ≤ stop)
    (hv : stop ≤ v.length) (hsrc : src.length = stop - start) :
    (overwrite v start stop src).length = v.length := by
  simp only [overwrite, List.length_append, List.length_take, List.length_drop, hsrc]
  omega

theorem getElem?_overwrite (v src : List α) {start stop : ℕ} (h : start ≤ stop)
    (hv : stop ≤ v.length) (hsrc : src.length = stop - start) (i : ℕ) :
    (overwrite v start stop src)[i]? =
      if start ≤ i ∧ i < stop then src[i - start]? else v[i]? := by
  have hlen : (v.take start).length = start := by simp; omega
  simp only [overwrite]
  by_cases h1 : i < start
  · rw [List.getElem?_append_left (by omega), if_neg (by omega), List.getElem?_take_of_lt h1]
  · rw [List.getElem?_append_right (by omega), hlen]
    by_cases h2 : i < stop
    · rw [List.getElem?_append_left (by omega), if_pos (by omega)]
    · rw [List.getElem?_append_right (by omega), if_neg (by omega), List.getElem?_drop, hsrc]
      congr 1
      omega

/-- Grow to at least `n` elements with `fill`. -/
def growTo (v : List α) (n : ℕ) (fill : α) : List α := v ++ List.replicate (n - v.length) fill

theorem length_growTo (v : List α) (n : ℕ) (fill : α) :
    (growTo v n fill).length = max v.length n := by
  simp only [growTo, List.length_append, List.length_replicate]
  omega

theorem getElem?_growTo_of_lt (v : List α) (n : ℕ) (fill : α) {i : ℕ} (hi : i < v.length) :
    (growTo v n fill)[i]? = v[i]? := List.getElem?_append_left hi

/-- The `n` elements from `i` on and those from `j` on change places. -/
def exchange (v : List α) (i j n : ℕ) : List α :=
  overwrite (overwrite v i (i + n) (slice v j (j + n))) j (j + n) (slice v i (i + n))

section Exchange

variable {v : List α} {i j n : ℕ}

theorem length_exchange_first (hij : i + n ≤ j) (hv : j + n ≤ v.length) :
    (overwrite v i (i + n) (slice v j (j + n))).length = v.length :=
  length_overwrite v _ (by omega) (by omega) (by rw [length_slice v hv]; omega)

theorem length_exchange (hij : i + n ≤ j) (hv : j + n ≤ v.length) :
    (exchange v i j n).length = v.length := by
  have hfirst := length_exchange_first hij hv
  rw [exchange, length_overwrite _ _ (by omega) (by omega), hfirst]
  rw [length_slice v (by omega)]
  omega

theorem getElem?_exchange (hij : i + n ≤ j) (hv : j + n ≤ v.length) (k : ℕ) :
    (exchange v i j n)[k]? =
      if i ≤ k ∧ k < i + n then v[k + (j - i)]?
      else if j ≤ k ∧ k < j + n then v[k - (j - i)]? else v[k]? := by
  have hfirst := length_exchange_first hij hv
  rw [exchange, getElem?_overwrite _ _ (by omega) (by omega)
    (by rw [length_slice v (by omega)]; omega),
    getElem?_overwrite _ _ (by omega) (by omega) (by rw [length_slice v hv]; omega)]
  simp only [getElem?_slice]
  split_ifs with h1 h2 h3 h4 h5 h6
  all_goals first
    | omega
    | rfl
    | (congr 1; omega)

theorem slice_congr {w : List α} {start stop : ℕ}
    (h : ∀ k, start ≤ k → k < stop → v[k]? = w[k]?) : slice v start stop = slice w start stop := by
  refine List.ext_getElem? (fun k => ?_)
  rw [getElem?_slice, getElem?_slice]
  split_ifs with hk
  · exact h (start + k) (by omega) hk
  · rfl

theorem slice_exchange_left (hij : i + n ≤ j) (hv : j + n ≤ v.length) :
    slice (exchange v i j n) i (i + n) = slice v j (j + n) := by
  refine List.ext_getElem? (fun k => ?_)
  rw [getElem?_slice, getElem?_slice, getElem?_exchange hij hv]
  split_ifs with h1 h2 h3
  all_goals first
    | omega
    | rfl
    | (congr 1; omega)

theorem slice_exchange_right (hij : i + n ≤ j) (hv : j + n ≤ v.length) :
    slice (exchange v i j n) j (j + n) = slice v i (i + n) := by
  refine List.ext_getElem? (fun k => ?_)
  rw [getElem?_slice, getElem?_slice, getElem?_exchange hij hv]
  split_ifs with h1 h2 h3
  all_goals first
    | omega
    | rfl
    | (congr 1; omega)

end Exchange

theorem slice_drop (v : List α) (h start stop : ℕ) :
    slice (v.drop h) start stop = slice v (h + start) (h + stop) := by
  refine List.ext_getElem? (fun k => ?_)
  rw [getElem?_slice, getElem?_slice, List.getElem?_drop, Nat.add_assoc]
  split_ifs
  all_goals first
    | omega
    | rfl

theorem slice_middle (before middle after : List α) :
    slice (before ++ (middle ++ after)) before.length (before.length + middle.length) = middle := by
  rw [slice, ← List.append_assoc, List.take_left' List.length_append, List.drop_left]

/-- `v.get(start..stop)`: there is nothing where the slice would end past the vector. -/
def slice? (v : List α) (start stop : ℕ) : Option (List α) :=
  if start ≤ stop ∧ stop ≤ v.length then some (slice v start stop) else none

theorem slice?_of_le {v : List α} {start stop : ℕ} (h : start ≤ stop) (hv : stop ≤ v.length) :
    slice? v start stop = some (slice v start stop) := if_pos ⟨h, hv⟩

theorem slice?_eq_some {v part : List α} {start stop : ℕ} (h : slice? v start stop = some part) :
    (start ≤ stop ∧ stop ≤ v.length) ∧ part = slice v start stop := by
  rw [slice?] at h
  split_ifs at h with hin
  exact ⟨hin, (Option.some.inj h).symm⟩

theorem slice?_take {v : List α} {stop : ℕ} (h : stop ≤ v.length) :
    slice? v 0 stop = some (v.take stop) := slice?_of_le (Nat.zero_le _) h

theorem slice?_drop {v : List α} {start : ℕ} (h : start ≤ v.length) :
    slice? v start v.length = some (v.drop start) := by
  rw [slice?_of_le h le_rfl, slice, List.take_length]

theorem slice?_middle (before middle after : List α) :
    slice? (before ++ (middle ++ after)) before.length (before.length + middle.length) =
      some middle := by
  rw [slice?_of_le (Nat.le_add_right _ _) (by simp), slice_middle]

/-- Where the `i`-th part of a sequence begins. -/
def partStart (parts : List (List α)) (i : ℕ) : ℕ := ((parts.map List.length).take i).sum

theorem partStart_succ {parts : List (List α)} {i : ℕ} {part : List α} (h : parts[i]? = some part) :
    partStart parts (i + 1) = partStart parts i + part.length := by
  rw [partStart, partStart, List.take_add_one, List.getElem?_map, h, Option.map_some,
    Option.toList_some, List.sum_append, List.sum_singleton]

theorem partStart_mono (parts : List (List α)) : Monotone (partStart parts) := by
  apply monotone_nat_of_le_succ
  intro i
  cases h : parts[i]? with
  | some part =>
    rw [partStart_succ h]
    exact Nat.le_add_right _ _
  | none =>
    have hlength := List.getElem?_eq_none_iff.1 h
    rw [partStart, partStart, List.take_of_length_le (by rw [List.length_map]; omega),
      List.take_of_length_le (by rw [List.length_map]; omega)]

theorem partStart_length (parts : List (List α)) :
    partStart parts parts.length = parts.flatten.length := by
  rw [partStart, List.take_of_length_le (by rw [List.length_map]), List.length_flatten]

theorem partStart_le (parts : List (List α)) {i : ℕ} (hi : i ≤ parts.length) :
    partStart parts i ≤ parts.flatten.length := by
  rw [← partStart_length]
  exact partStart_mono parts hi

theorem slice_flatten {parts : List (List α)} {i : ℕ} {part : List α} (h : parts[i]? = some part) :
    slice parts.flatten (partStart parts i) (partStart parts i + part.length) = part := by
  obtain ⟨hi, hpart⟩ := List.getElem?_eq_some_iff.1 h
  rw [← partStart_succ h, slice, partStart, partStart, ← hpart]
  exact List.drop_take_succ_flatten_eq_getElem parts i hi

theorem exists_part {parts : List (List α)} {x : ℕ} (hx : x < parts.flatten.length) :
    ∃ i part, parts[i]? = some part ∧ partStart parts i ≤ x ∧
      x < partStart parts i + part.length := by
  have hends : ∃ i, x < partStart parts i := ⟨parts.length, by rwa [partStart_length]⟩
  obtain ⟨i, hi⟩ : ∃ i, Nat.find hends = i + 1 := by
    apply Nat.exists_eq_succ_of_ne_zero
    intro hzero
    have hspec := Nat.find_spec hends
    rw [hzero] at hspec
    exact absurd hspec (Nat.not_lt_zero x)
  have hbelow : partStart parts i ≤ x := not_lt.1 (Nat.find_min hends (by omega))
  have habove : x < partStart parts (i + 1) := hi ▸ Nat.find_spec hends
  cases h : parts[i]? with
  | some part => exact ⟨i, part, h, hbelow, by rwa [← partStart_succ h]⟩
  | none =>
    have hlength := List.getElem?_eq_none_iff.1 h
    have hsame : partStart parts i = parts.flatten.length := by
      rw [partStart, List.take_of_length_le (by rwa [List.length_map]), List.length_flatten]
    omega

/-- A sequence in parts that is cut off has some whole parts and a torn one, which is a proper front
of the next part or empty. -/
theorem exists_torn {parts : List (List α)} {cut : List α} (h : cut <+: parts.flatten) :
    ∃ n torn, n ≤ parts.length ∧ cut = (parts.take n).flatten ++ torn ∧
      (torn = [] ∨ ∃ part, parts[n]? = some part ∧ torn <+: part ∧ torn ≠ part) := by
  induction parts generalizing cut with
  | nil => exact ⟨0, [], le_rfl, List.prefix_nil.1 h, Or.inl rfl⟩
  | cons part parts ih =>
    rw [List.flatten_cons] at h
    by_cases hpart : part <+: cut
    · obtain ⟨rest, rfl⟩ := hpart
      obtain ⟨n, torn, hn, hrest, htorn⟩ := ih ((List.prefix_append_right_inj part).1 h)
      refine ⟨n + 1, torn, Nat.succ_le_succ hn, ?_, htorn⟩
      rw [List.take_succ_cons, List.flatten_cons, List.append_assoc, ← hrest]
    · have hshort : cut <+: part := by
        rcases List.prefix_or_prefix_of_prefix h
          (List.prefix_append part parts.flatten) with hcut | hwhole
        · exact hcut
        · exact absurd hwhole hpart
      refine ⟨0, cut, Nat.zero_le _, rfl, Or.inr ⟨part, rfl, hshort, ?_⟩⟩
      rintro rfl
      exact hpart List.prefix_rfl

end Bytes
