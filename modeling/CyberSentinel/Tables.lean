import Mathlib.Algebra.BigOperators.Group.List.Basic
import Mathlib.Data.List.AList
import Mathlib.Data.List.Sort
import Mathlib.Tactic

/-!
# Hash tables

A hash table is an association list with distinct keys. Its iteration order is no part of its value:
whoever iterates is given a `HashOrder`, which arranges the keys in some order. `total` adds up a
measure of the stored values, and changes at a key by what is stored there.
-/

namespace Tables

abbrev Table (κ ν : Type*) := AList (fun _ : κ => ν)

structure HashOrder (κ : Type*) where
  arrange : List κ → List κ
  perm : ∀ keys, (arrange keys).Perm keys

def HashOrder.asStored (κ : Type*) : HashOrder κ := ⟨id, fun _ => List.Perm.refl _⟩

variable {κ ν : Type*} [DecidableEq κ]

def iter (order : HashOrder κ) (t : Table κ ν) : List (κ × ν) :=
  (order.arrange t.keys).filterMap (fun key => (t.lookup key).map (fun value => (key, value)))

def size (t : Table κ ν) : ℕ := t.keys.length

def total (f : ν → ℕ) (t : Table κ ν) : ℕ := (t.entries.map (fun e => f e.2)).sum

/-- The measure of what is stored at a key, nothing when the key is absent. -/
def measureAt (f : ν → ℕ) (t : Table κ ν) (key : κ) : ℕ := (t.lookup key).elim 0 f

theorem mem_iter (order : HashOrder κ) (t : Table κ ν) (key : κ) (value : ν) :
    (key, value) ∈ iter order t ↔ t.lookup key = some value := by
  simp only [iter, List.mem_filterMap, Option.map_eq_some_iff, Prod.mk.injEq]
  constructor
  · rintro ⟨k, _, v, hv, hk, hvalue⟩
    rw [← hk, ← hvalue, hv]
  · intro h
    have hmem : key ∈ t := AList.lookup_isSome.1 (by rw [h]; rfl)
    exact ⟨key, (order.perm t.keys).mem_iff.2 hmem, value, h, rfl, rfl⟩

theorem iter_perm (order : HashOrder κ) (t : Table κ ν) :
    (iter order t).Perm (t.entries.map (fun e => (e.1, e.2))) := by
  have hstored : t.keys.filterMap (fun key => (t.lookup key).map (fun value => (key, value))) =
      t.entries.map (fun e => (e.1, e.2)) := by
    rw [AList.keys, List.keys, List.filterMap_map, ← List.filterMap_eq_map]
    apply List.filterMap_congr
    intro e he
    have hlookup : t.lookup e.1 = some e.2 := AList.mem_lookup_iff.2 he
    simp only [Function.comp_apply, hlookup, Option.map_some]
  rw [← hstored]
  exact (order.perm t.keys).filterMap _

theorem sum_iter (order : HashOrder κ) (f : ν → ℕ) (t : Table κ ν) :
    ((iter order t).map (fun entry => f entry.2)).sum = total f t := by
  have hsum := ((iter_perm order t).map (fun entry => f entry.2)).sum_eq
  rw [List.map_map] at hsum
  exact hsum

omit [DecidableEq κ] in
@[simp] theorem total_empty (f : ν → ℕ) : total f (∅ : Table κ ν) = 0 := rfl

theorem sum_kerase (f : ν → ℕ) (key : κ) (l : List (Sigma (fun _ : κ => ν))) :
    ((l.kerase key).map (fun e => f e.2)).sum + (l.dlookup key).elim 0 f =
      (l.map (fun e => f e.2)).sum := by
  induction l with
  | nil => simp
  | cons e rest ih =>
    obtain ⟨k, v⟩ := e
    by_cases hk : key = k
    · subst hk
      have hrest : (⟨key, v⟩ :: rest : List (Sigma (fun _ : κ => ν))).kerase key = rest :=
        List.kerase_cons_eq rfl
      rw [hrest, List.dlookup_cons_eq, List.map_cons, List.sum_cons]
      exact Nat.add_comm _ _
    · rw [List.kerase_cons_ne hk, List.dlookup_cons_ne _ _ hk, List.map_cons, List.map_cons,
        List.sum_cons, List.sum_cons, Nat.add_assoc, ih]

theorem total_erase (f : ν → ℕ) (t : Table κ ν) (key : κ) :
    total f (t.erase key) + measureAt f t key = total f t :=
  sum_kerase f key t.entries

theorem total_insert_eq (f : ν → ℕ) (t : Table κ ν) (key : κ) (value : ν) :
    total f (t.insert key value) = total f (t.erase key) + f value := by
  simp only [total, AList.entries_insert, List.map_cons, List.sum_cons]
  exact Nat.add_comm _ _

theorem total_insert (f : ν → ℕ) (t : Table κ ν) (key : κ) (value : ν) :
    total f (t.insert key value) + measureAt f t key = total f t + f value := by
  have herase := total_erase f t key
  have hinsert := total_insert_eq f t key value
  omega

theorem measureAt_le_total (f : ν → ℕ) (t : Table κ ν) (key : κ) :
    measureAt f t key ≤ total f t := by
  have := total_erase f t key
  omega

theorem total_le {f : ν → ℕ} {t : Table κ ν} {bound : ℕ}
    (h : ∀ key value, t.lookup key = some value → f value ≤ bound) :
    total f t ≤ size t * bound := by
  have hsum : total f t ≤ (t.entries.map (fun e => f e.2)).length * bound := by
    apply List.sum_le_card_nsmul
    intro measure hmeasure
    obtain ⟨e, he, rfl⟩ := List.mem_map.1 hmeasure
    exact h e.1 e.2 (AList.mem_lookup_iff.2 he)
  rw [List.length_map] at hsum
  rwa [size, AList.keys, List.keys, List.length_map]

def retain (keep : κ → ν → Bool) (t : Table κ ν) : Table κ ν :=
  ⟨t.entries.filter (fun e => keep e.1 e.2), t.nodupKeys.sublist List.filter_sublist⟩

theorem lookup_retain (keep : κ → ν → Bool) (t : Table κ ν) (key : κ) :
    (retain keep t).lookup key = (t.lookup key).filter (keep key) := by
  ext value
  have hkept : (retain keep t).lookup key = some value ↔
      Sigma.mk key value ∈ t.entries ∧ keep key value = true := by
    rw [← Option.mem_def, AList.mem_lookup_iff, retain, List.mem_filter]
  rw [hkept, Option.filter_eq_some_iff, ← AList.mem_lookup_iff, Option.mem_def]

theorem mem_of_mem_retain {keep : κ → ν → Bool} {t : Table κ ν} {key : κ}
    (h : key ∈ retain keep t) :
    key ∈ t := by
  rw [← AList.lookup_isSome, lookup_retain] at h
  rw [← AList.lookup_isSome]
  cases hlookup : t.lookup key with
  | none => simp [hlookup] at h
  | some value => rfl

omit [DecidableEq κ] in
theorem total_retain_le (f : ν → ℕ) (keep : κ → ν → Bool) (t : Table κ ν) :
    total f (retain keep t) ≤ total f t :=
  (List.filter_sublist.map _).sum_le_sum (fun _ _ => Nat.zero_le _)

/-- Change every value of an association list, and drop the entries that have none left. -/
def reviseEntries (change : κ → ν → Option ν) (entries : List (Sigma (fun _ : κ => ν))) :
    List (Sigma (fun _ : κ => ν)) :=
  entries.filterMap (fun e => (change e.1 e.2).map (fun value => ⟨e.1, value⟩))

omit [DecidableEq κ] in
theorem keys_reviseEntries (change : κ → ν → Option ν) (entries : List (Sigma (fun _ : κ => ν))) :
    (reviseEntries change entries).keys.Sublist entries.keys := by
  induction entries with
  | nil => exact List.Sublist.refl _
  | cons e rest ih =>
    rw [reviseEntries, List.filterMap_cons]
    cases change e.1 e.2 with
    | none => exact ih.cons e.1
    | some value => exact ih.cons_cons e.1

def revise (change : κ → ν → Option ν) (t : Table κ ν) : Table κ ν :=
  ⟨reviseEntries change t.entries, List.Nodup.sublist (keys_reviseEntries change _) t.nodupKeys⟩

theorem lookup_revise (change : κ → ν → Option ν) (t : Table κ ν) (key : κ) :
    (revise change t).lookup key = (t.lookup key).bind (change key) := by
  ext value
  rw [← Option.mem_def, AList.mem_lookup_iff, Option.bind_eq_some_iff]
  apply List.mem_filterMap.trans
  constructor
  · rintro ⟨e, he, hvalue⟩
    obtain ⟨changed, hchanged, heq⟩ := Option.map_eq_some_iff.1 hvalue
    obtain ⟨rfl, hsame⟩ := Sigma.mk.inj heq
    obtain rfl := eq_of_heq hsame
    exact ⟨e.2, AList.mem_lookup_iff.2 he, hchanged⟩
  · rintro ⟨old, hold, hchanged⟩
    exact ⟨⟨key, old⟩, AList.mem_lookup_iff.1 hold, by rw [hchanged]; rfl⟩

omit [DecidableEq κ] in
theorem size_revise_le (change : κ → ν → Option ν) (t : Table κ ν) :
    size (revise change t) ≤ size t := by
  simp only [size, AList.keys, List.keys, List.length_map, revise, reviseEntries]
  exact List.length_filterMap_le _ _

theorem size_insert_le (t : Table κ ν) (key : κ) (value : ν) :
    size (t.insert key value) ≤ size t + 1 := by
  rw [size, size, AList.keys_insert, List.length_cons]
  exact Nat.succ_le_succ (List.length_erase_le)

theorem size_erase_le (t : Table κ ν) (key : κ) : size (t.erase key) ≤ size t := by
  rw [size, size, AList.keys_erase]
  exact List.length_erase_le

omit [DecidableEq κ] in
theorem size_retain_le (keep : κ → ν → Bool) (t : Table κ ν) : size (retain keep t) ≤ size t := by
  simp only [size, AList.keys, List.keys, List.length_map, retain]
  exact List.length_filter_le _ _

omit [DecidableEq κ] in
theorem retain_eq_self {keep : κ → ν → Bool} {t : Table κ ν} (h : size t ≤ size (retain keep t)) :
    retain keep t = t := by
  simp only [size, AList.keys, List.keys, List.length_map] at h
  exact AList.ext (List.filter_sublist.eq_of_length_le h)

theorem mem_keys_iff_lookup {t : Table κ ν} {key : κ} : key ∈ t.keys ↔ (t.lookup key).isSome := by
  rw [AList.lookup_isSome, AList.mem_keys]

theorem size_eq_card {t : Table κ ν} {keys : Finset κ} (h : ∀ key, key ∈ t ↔ key ∈ keys) :
    size t = keys.card := by
  have hset : t.keys.toFinset = keys := by
    ext key
    rw [List.mem_toFinset, ← AList.mem_keys, h]
  rw [size, ← hset, List.toFinset_card_of_nodup t.keys_nodup]

theorem size_eq_of_mem_iff {t t' : Table κ ν} (h : ∀ key, key ∈ t ↔ key ∈ t') :
    size t = size t' := by
  have hkeys (key : κ) : key ∈ t' ↔ key ∈ t'.keys.toFinset := by
    rw [List.mem_toFinset, AList.mem_keys]
  rw [size_eq_card fun key => (h key).trans (hkeys key), ← size_eq_card hkeys]

theorem size_erase_of_lookup {t : Table κ ν} {key : κ} {value : ν} (h : t.lookup key = some value) :
    size (t.erase key) + 1 = size t := by
  have hmem : key ∈ t.keys := mem_keys_iff_lookup.2 (by rw [h]; rfl)
  have hpos := List.length_pos_of_mem hmem
  rw [size, size, AList.keys_erase, List.length_erase_of_mem hmem]
  omega

/-- What is found after an erasure stood there before, under another key. -/
theorem lookup_of_lookup_erase {t : Table κ ν} {key other : κ} {value : ν}
    (h : (t.erase key).lookup other = some value) : other ≠ key ∧ t.lookup other = some value := by
  by_cases hother : other = key
  · rw [hother, AList.lookup_erase] at h
    exact absurd h (by simp)
  · rw [AList.lookup_erase_ne hother] at h
    exact ⟨hother, h⟩

theorem lookup_of_lookup_foldl_erase {t : Table κ ν} (keys : List κ) {other : κ} {value : ν}
    (h : (keys.foldl (fun t key => t.erase key) t).lookup other = some value) :
    t.lookup other = some value := by
  induction keys generalizing t with
  | nil => exact h
  | cons key rest ih => exact (lookup_of_lookup_erase (ih h)).2

theorem size_insert (t : Table κ ν) (key : κ) (value : ν) :
    size (t.insert key value) = size t + if (t.lookup key).isSome then 0 else 1 := by
  rw [size, size, AList.keys_insert, List.length_cons]
  by_cases hmem : key ∈ t.keys
  · have hpos := List.length_pos_of_mem hmem
    rw [List.length_erase_of_mem hmem, if_pos (mem_keys_iff_lookup.1 hmem)]
    omega
  · rw [List.erase_of_not_mem hmem, if_neg (mt mem_keys_iff_lookup.2 hmem)]

theorem length_iter (order : HashOrder κ) (t : Table κ ν) : (iter order t).length = size t := by
  rw [(iter_perm order t).length_eq, List.length_map, size, AList.keys, List.keys, List.length_map]

/-- A batch of the entries of a table in some order begins with one of them, if the table has any.
-/
theorem take_insertionSort_eq_cons {β : Type*} (view : κ × ν → β) (r : β → β → Prop)
    [DecidableRel r]
    (order : HashOrder κ) {t : Table κ ν} (hpos : 0 < size t) (n : ℕ) :
    ∃ entry rest, (((iter order t).map view).insertionSort r).take (max n 1) = view entry :: rest ∧
      t.lookup entry.1 = some entry.2 := by
  have hperm := List.perm_insertionSort r ((iter order t).map view)
  cases hsorted : ((iter order t).map view).insertionSort r with
  | nil =>
    have hlength := hperm.length_eq
    rw [hsorted, List.length_map, length_iter, List.length_nil] at hlength
    omega
  | cons first others =>
    rw [hsorted] at hperm
    obtain ⟨entry, hentry, hfirst⟩ := List.mem_map.1 (hperm.mem_iff.1 List.mem_cons_self)
    obtain ⟨m, hm⟩ : ∃ m, max n 1 = m + 1 := Nat.exists_eq_succ_of_ne_zero (by omega)
    rw [hm, List.take_succ_cons, ← hfirst]
    exact ⟨entry, others.take m, rfl, (mem_iter order t entry.1 entry.2).1 hentry⟩

theorem filter_iter (order : HashOrder κ) (t : Table κ ν) (key : κ) :
    (iter order t).filter (fun entry => entry.1 = key) =
      ((t.lookup key).map (fun value => (key, value))).toList := by
  have hkeys : ((iter order t).map Prod.fst).Nodup := by
    rw [((iter_perm order t).map Prod.fst).nodup_iff, List.map_map]
    exact t.keys_nodup
  cases hlookup : t.lookup key with
  | none =>
    rw [Option.map_none, Option.toList_none, List.filter_eq_nil_iff]
    intro entry hentry hkey
    have hsome := (mem_iter order t entry.1 entry.2).1 hentry
    rw [of_decide_eq_true hkey, hlookup] at hsome
    exact absurd hsome (by simp)
  | some value =>
    rw [Option.map_some, Option.toList_some, ← List.perm_singleton, List.perm_ext_iff_of_nodup
      (hkeys.of_map.filter _) (List.nodup_singleton _)]
    intro entry
    rw [List.mem_filter, List.mem_singleton, decide_eq_true_iff]
    constructor
    · rintro ⟨hentry, hkey⟩
      have hsome := (mem_iter order t entry.1 entry.2).1 hentry
      rw [hkey, hlookup] at hsome
      exact Prod.ext hkey (Option.some.inj hsome).symm
    · intro hentry
      rw [hentry]
      exact ⟨(mem_iter order t key value).2 hlookup, rfl⟩

end Tables
