import CyberSentinel.Eval

/-!
# Where a content may stand

The modifiers of a content bound the part of the buffer that is searched. `StandsAt` says what they
ask of a position, in whole numbers; the search finds the first such position, or that there is
none. The machine adds the bounds up in saturated words, which makes no difference to a buffer that
fits into memory.
-/

namespace CyberSentinel.Detect

open Rules Bytes

/-- Where the search for a content begins: at its offset, or for a relative content its distance
from the cursor. -/
def contentStart (content : ContentMatch) (cursor : ℕ) : ℕ :=
  (content.distance.getD 0 +
    (if content.isRelative then (cursor : ℤ) else ((content.offset.getD 0 : ℕ) : ℤ))).toNat

def contentRegion (content : ContentMatch) (cursor length : ℕ) : ℕ × ℕ :=
  let base := if content.isRelative then cursor else 0
  let start := contentStart content cursor
  let stop := content.within.elim length (fun within => min length (base + within))
  let stop := content.depth.elim stop (fun depth => min stop (start + depth))
  (min start length, max (min stop length) (min start length))

theorem matchContent_eq (content : ContentMatch) (haystack : List UInt8) (cursor : ℕ) :
    matchContent content haystack cursor =
      let region := contentRegion content cursor haystack.length
      match find (slice haystack region.1 region.2) content.pattern content.nocase,
        content.negated with
      | some position, false => some (region.1 + position + content.pattern.length)
      | none, true => some cursor
      | _, _ => none := by
  rw [matchContent, contentRegion, contentStart]
  cases content.isRelative with
  | false => rfl
  | true => rfl

theorem contentRegion_le (content : ContentMatch) (cursor length : ℕ) :
    (contentRegion content cursor length).1 ≤ (contentRegion content cursor length).2 ∧
      (contentRegion content cursor length).2 ≤ length :=
  ⟨le_max_right _ _, max_le (min_le_right _ _) (min_le_right _ _)⟩

/-- The pattern stands at the position, between the bounds that the modifiers set. -/
structure StandsAt (content : ContentMatch) (haystack : List UInt8)
    (cursor position : ℕ) : Prop where
  ne_nil : content.pattern ≠ []
  occurs : Search.OccursAt (sameByte content.nocase) content.pattern haystack position
  start_le : contentStart content cursor ≤ position
  within : ∀ within ∈ content.within, position + content.pattern.length ≤ cursor + within
  depth : ∀ depth ∈ content.depth,
    position + content.pattern.length ≤ contentStart content cursor + depth

theorem isRelative_of_within {content : ContentMatch} {within : ℕ}
    (h : content.within = some within) : content.isRelative = true := by
  rw [ContentMatch.isRelative, h, Option.isSome_some, Bool.or_true]

theorem standsAt_iff {content : ContentMatch} {haystack : List UInt8} {cursor position : ℕ} :
    StandsAt content haystack cursor position ↔ content.pattern ≠ [] ∧
      Search.OccursAt (sameByte content.nocase) content.pattern haystack position ∧
      (contentRegion content cursor haystack.length).1 ≤ position ∧
      position + content.pattern.length ≤ (contentRegion content cursor haystack.length).2 := by
  rw [contentRegion]
  generalize hstart : contentStart content cursor = start
  constructor
  · rintro ⟨hne, hoccurs, hle, hwithin, hdepth⟩
    have hfits := hoccurs.le_length hne
    have hpos := List.length_pos_of_ne_nil hne
    refine ⟨hne, hoccurs, (min_le_left _ _).trans (hstart ▸ hle), ?_⟩
    rw [hstart] at hdepth
    have hstop : position + content.pattern.length ≤ content.within.elim haystack.length
        (fun within => min haystack.length
          ((if content.isRelative then cursor else 0) + within)) := by
      cases hw : content.within with
      | none => exact hfits
      | some within =>
        rw [Option.elim_some, if_pos (isRelative_of_within hw)]
        exact le_min hfits (hwithin within hw)
    refine le_max_of_le_left (le_min ?_ hfits)
    cases hd : content.depth with
    | none => exact hstop
    | some depth => exact le_min hstop (hdepth depth hd)
  · rintro ⟨hne, hoccurs, hle, hstop⟩
    have hfits := hoccurs.le_length hne
    have hpos := List.length_pos_of_ne_nil hne
    dsimp only at hle hstop
    have hbegins : start ≤ position := by omega
    -- the clamp of the stop to the start leaves no room for the pattern
    have hinside := (le_max_iff.1 hstop).resolve_right (by omega)
    refine ⟨hne, hoccurs, hstart.le.trans hbegins, ?_, ?_⟩
    · intro within hw
      rw [hw, Option.elim_some, if_pos (isRelative_of_within hw)] at hinside
      cases hd : content.depth with
      | none =>
        rw [hd, Option.elim_none] at hinside
        omega
      | some depth =>
        rw [hd, Option.elim_some] at hinside
        omega
    · intro depth hd
      rw [hd, Option.elim_some] at hinside
      rw [hstart]
      omega

/-- Searching the slice finds the first place where the content may stand. -/
theorem find_region_cases (content : ContentMatch) (haystack : List UInt8) (cursor : ℕ) :
    let region := contentRegion content cursor haystack.length
    (find (slice haystack region.1 region.2) content.pattern content.nocase = none ∧
        ∀ p, ¬ StandsAt content haystack cursor p) ∨
      ∃ i, find (slice haystack region.1 region.2) content.pattern content.nocase = some i ∧
        StandsAt content haystack cursor (region.1 + i) ∧
        ∀ q, StandsAt content haystack cursor q → region.1 + i ≤ q := by
  dsimp only
  by_cases hne : content.pattern = []
  · refine Or.inl ⟨?_, fun p hp => hp.ne_nil hne⟩
    rw [find, hne, List.isEmpty_nil, Bool.true_or, if_pos rfl]
  have hbounds := contentRegion_le content cursor haystack.length
  have hstands (p : ℕ) : StandsAt content haystack cursor p ↔
      (contentRegion content cursor haystack.length).1 ≤ p ∧
        Search.OccursAt (sameByte content.nocase) content.pattern
          (slice haystack (contentRegion content cursor haystack.length).1
            (contentRegion content cursor haystack.length).2)
          (p - (contentRegion content cursor haystack.length).1) := by
    rw [standsAt_iff]
    constructor
    · rintro ⟨-, hoccurs, hle, hstop⟩
      exact ⟨hle, hoccurs.slice hle hstop⟩
    · rintro ⟨hle, hoccurs⟩
      have hfits := hoccurs.le_length hne
      rw [length_slice _ hbounds.2] at hfits
      have hwhole := hoccurs.of_slice
      rw [Nat.add_sub_cancel' hle] at hwhole
      exact ⟨hne, hwhole, hle, by omega⟩
  generalize contentRegion content cursor haystack.length = region at hstands ⊢
  obtain ⟨hnone, hnowhere⟩ | ⟨i, hsome, hoccurs, hfirst⟩ :=
    find_cases (slice haystack region.1 region.2) hne content.nocase
  · exact Or.inl ⟨hnone, fun p hp => hnowhere _ ((hstands p).1 hp).2⟩
  · refine Or.inr ⟨i, hsome, (hstands _).2 ⟨Nat.le_add_right _ _, ?_⟩, ?_⟩
    · rwa [Nat.add_sub_cancel_left]
    · intro q hq
      obtain ⟨hle, hthere⟩ := (hstands q).1 hq
      have hafter := hfirst _ hthere
      omega

/-- A positive content that matches moves the cursor past the first place where it may stand. -/
theorem matchContent_positive {content : ContentMatch} (hpositive : content.negated = false)
    (haystack : List UInt8) (cursor : ℕ) :
    (matchContent content haystack cursor = none ∧ ∀ p, ¬ StandsAt content haystack cursor p) ∨
      ∃ p, matchContent content haystack cursor = some (p + content.pattern.length) ∧
        StandsAt content haystack cursor p ∧ ∀ q, StandsAt content haystack cursor q → p ≤ q := by
  obtain ⟨hnone, hnowhere⟩ | ⟨i, hsome, hstands, hfirst⟩ :=
    find_region_cases content haystack cursor
  · refine Or.inl ⟨?_, hnowhere⟩
    rw [matchContent_eq, hpositive]
    simp only [hnone]
  · refine Or.inr ⟨_, ?_, hstands, hfirst⟩
    rw [matchContent_eq, hpositive]
    simp only [hsome]

theorem matchContent_negated {content : ContentMatch} (hnegated : content.negated = true)
    (haystack : List UInt8) (cursor : ℕ) :
    (matchContent content haystack cursor = none ∧ ∃ p, StandsAt content haystack cursor p) ∨
      (matchContent content haystack cursor = some cursor ∧
        ∀ p, ¬ StandsAt content haystack cursor p) := by
  obtain ⟨hnone, hnowhere⟩ | ⟨i, hsome, hstands, -⟩ := find_region_cases content haystack cursor
  · refine Or.inr ⟨?_, hnowhere⟩
    rw [matchContent_eq, hnegated]
    simp only [hnone]
  · refine Or.inl ⟨?_, _, hstands⟩
    rw [matchContent_eq, hnegated]
    simp only [hsome]


/-- `i64::saturating_add`. -/
def saturatingAddSigned (a b : ℤ) : ℤ := max (-2 ^ 63) (min (a + b) (2 ^ 63 - 1))

/-- `usize::saturating_add`. -/
def saturatingAdd (a b : ℕ) : ℕ := min (a + b) (2 ^ 64 - 1)

def machineRegion (content : ContentMatch) (cursor length : ℕ) : ℕ × ℕ :=
  let base := if content.isRelative then cursor else 0
  let start := (max (saturatingAddSigned (content.distance.getD 0)
    (if content.isRelative then (base : ℤ) else ((content.offset.getD 0 : ℕ) : ℤ))) 0).toNat
  let stop := content.within.elim length (fun within => min length (saturatingAdd base within))
  let stop := content.depth.elim stop (fun depth => min stop (saturatingAdd start depth))
  (min start length, max (min stop length) (min start length))

theorem saturatingAddSigned_cases {a b : ℤ} {length : ℕ} (hlength : length < 2 ^ 63)
    (h : -2 ^ 63 ≤ a + b) :
    saturatingAddSigned a b = a + b ∨
      (length : ℤ) ≤ saturatingAddSigned a b ∧ (length : ℤ) ≤ a + b := by
  rw [saturatingAddSigned]
  omega

theorem min_saturatingAdd {length : ℕ} (hlength : length < 2 ^ 63) (a b : ℕ) :
    min length (saturatingAdd a b) = min length (a + b) := by
  rw [saturatingAdd]
  omega

/-- A sum that is saturated lies behind the end of the buffer, where it is cut off anyway. -/
theorem machineRegion_eq (content : ContentMatch) {cursor length : ℕ} (hlength : length < 2 ^ 63)
    (hdistance : ∀ d ∈ content.distance, -2 ^ 63 ≤ d) :
    machineRegion content cursor length = contentRegion content cursor length := by
  have hsum : -2 ^ 63 ≤ content.distance.getD 0 +
      (if content.isRelative then (cursor : ℤ) else ((content.offset.getD 0 : ℕ) : ℤ)) := by
    have hleft : -2 ^ 63 ≤ content.distance.getD 0 := by
      cases hd : content.distance with
      | none => exact Int.neg_nonpos_of_nonneg (by positivity)
      | some d => exact hdistance d hd
    have hright : (0 : ℤ) ≤
        if content.isRelative then (cursor : ℤ) else ((content.offset.getD 0 : ℕ) : ℤ) := by
      split_ifs
      · exact Int.natCast_nonneg _
      · exact Int.natCast_nonneg _
    omega
  have hbase : (if content.isRelative then
      (((if content.isRelative then cursor else 0 : ℕ)) : ℤ)
      else ((content.offset.getD 0 : ℕ) : ℤ)) =
      if content.isRelative then (cursor : ℤ) else ((content.offset.getD 0 : ℕ) : ℤ) := by
    split_ifs
    · rfl
    · rfl
  have hcases := saturatingAddSigned_cases hlength hsum
  rw [machineRegion, contentRegion, contentStart]
  simp only [hbase, min_saturatingAdd hlength]
  generalize hsaved : saturatingAddSigned (content.distance.getD 0) _ = saved at hcases ⊢
  generalize content.distance.getD 0 + _ = sum at hcases ⊢
  have hstop : content.within.elim length (fun within =>
      min length ((if content.isRelative then cursor else 0) + within)) ≤ length := by
    cases content.within with
    | none => exact le_rfl
    | some within => exact min_le_left _ _
  generalize content.within.elim length (fun within =>
    min length ((if content.isRelative then cursor else 0) + within)) = stop at hstop ⊢
  have hsign (start : ℤ) : (max start 0).toNat = start.toNat := by omega
  rw [hsign]
  obtain hexact | ⟨hbehind, hbehind'⟩ := hcases
  · rw [hexact]
    cases content.depth with
    | none => rfl
    | some depth =>
      rw [Option.elim_some, Option.elim_some, min_saturatingAdd (hstop.trans_lt hlength)]
  · -- both starts are clamped to the end of the buffer, and the stops with them
    have hstart (start : ℤ) (h : (length : ℤ) ≤ start) : min start.toNat length = length := by omega
    rw [hstart _ hbehind, hstart _ hbehind', max_eq_right (min_le_right _ _),
      max_eq_right (min_le_right _ _)]

theorem matchContent_machine (content : ContentMatch) (haystack : List UInt8) (cursor : ℕ)
    (hlength : haystack.length < 2 ^ 63) (hdistance : ∀ d ∈ content.distance, -2 ^ 63 ≤ d) :
    matchContent content haystack cursor =
      let region := machineRegion content cursor haystack.length
      match find (slice haystack region.1 region.2) content.pattern content.nocase,
        content.negated with
      | some position, false => some (region.1 + position + content.pattern.length)
      | none, true => some cursor
      | _, _ => none := by
  rw [machineRegion_eq content hlength hdistance, matchContent_eq]

end CyberSentinel.Detect
