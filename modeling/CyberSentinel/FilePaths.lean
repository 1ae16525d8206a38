import CyberSentinel.Net
import Mathlib.Data.String.Basic

/-!
# File paths

A path is the list of the names on the way from the root directory, as the monitor has it once its
roots are resolved. The baseline knows a path by its text. A name that is not UTF-8 shows as a text
that other names may show as too; `variant` tells these apart and is zero for the text itself. Paths
of UTF-8 names are told apart by their texts.
-/

namespace CyberSentinel.Fim

structure FileName where
  /-- What the lossy conversion shows. -/
  text : String
  variant : ℕ := 0
  text_ne : text.toList ≠ []
  no_separator : '/' ∉ text.toList
  deriving DecidableEq

namespace FileName

def IsUtf8 (name : FileName) : Prop := name.variant = 0

def sortKey (name : FileName) : String ×ₗ ℕ := toLex (name.text, name.variant)

theorem sortKey_injective : Function.Injective sortKey := by
  intro a b h
  cases a
  cases b
  simpa [sortKey] using h

instance : LinearOrder FileName := LinearOrder.lift' sortKey sortKey_injective

end FileName

abbrev Path := List FileName

namespace Path

def keyChars : Path → List Char
  | [] => ['/']
  | name :: rest => (name :: rest).flatMap (fun name => '/' :: name.text.toList)

/-- `to_string_lossy` -/
def key (path : Path) : String := String.ofList path.keyChars

def IsUtf8 (path : Path) : Prop := ∀ name ∈ path, name.IsUtf8

/-- Whether a path is a root or lies under it, component by component. -/
def startsWith (path root : Path) : Bool := root.isPrefixOf path

theorem startsWith_iff {path root : Path} :
    startsWith path root = true ↔ ∃ rest, path = root ++ rest := by
  rw [startsWith, List.isPrefixOf_iff_prefix]
  constructor
  · rintro ⟨rest, rfl⟩
    exact ⟨rest, rfl⟩
  · rintro ⟨rest, rfl⟩
    exact ⟨rest, rfl⟩

/-- Texts without a separator are read back off the characters before the next one. -/
theorem append_separator_inj {s t r u : List Char} (hs : '/' ∉ s) (ht : '/' ∉ t)
    (hr : r = [] ∨ ∃ rest, r = '/' :: rest) (hu : u = [] ∨ ∃ rest, u = '/' :: rest)
    (h : s ++ r = t ++ u) : s = t ∧ r = u := by
  induction s generalizing t with
  | nil =>
    cases t with
    | nil => exact ⟨rfl, h⟩
    | cons c t =>
      rcases hr with rfl | ⟨rest, rfl⟩
      · simp at h
      · simp only [List.nil_append, List.cons_append, List.cons.injEq] at h
        exact absurd (h.1 ▸ List.mem_cons_self) ht
  | cons c s ih =>
    cases t with
    | nil =>
      rcases hu with rfl | ⟨rest, rfl⟩
      · simp at h
      · simp only [List.nil_append, List.cons_append, List.cons.injEq] at h
        exact absurd (h.1 ▸ List.mem_cons_self) hs
    | cons d t =>
      simp only [List.cons_append, List.cons.injEq] at h
      obtain ⟨hst, hru⟩ := ih (fun hmem => hs (List.mem_cons_of_mem _ hmem))
        (fun hmem => ht (List.mem_cons_of_mem _ hmem)) h.2
      exact ⟨by rw [h.1, hst], hru⟩

theorem flatMap_separated (path : Path) :
    path.flatMap (fun name => '/' :: name.text.toList) = [] ∨
      ∃ rest, path.flatMap (fun name => '/' :: name.text.toList) = '/' :: rest := by
  cases path with
  | nil => exact Or.inl rfl
  | cons name rest => exact Or.inr ⟨_, by rw [List.flatMap_cons]; rfl⟩

theorem flatMap_inj {p q : Path} (hp : p.IsUtf8) (hq : q.IsUtf8)
    (h : p.flatMap (fun name => '/' :: name.text.toList) =
      q.flatMap (fun name => '/' :: name.text.toList)) : p = q := by
  induction p generalizing q with
  | nil =>
    cases q with
    | nil => rfl
    | cons name rest => simp at h
  | cons name rest ih =>
    cases q with
    | nil => simp at h
    | cons other others =>
      rw [List.flatMap_cons, List.flatMap_cons, List.cons_append, List.cons_append,
        List.cons.injEq] at h
      obtain ⟨htext, hrest⟩ := append_separator_inj name.no_separator other.no_separator
        (flatMap_separated rest) (flatMap_separated others) h.2
      have hname : name = other := by
        apply FileName.sortKey_injective
        have hvariant : name.variant = other.variant := by
          rw [hp name List.mem_cons_self, hq other List.mem_cons_self]
        simp only [FileName.sortKey, String.toList_inj.1 htext, hvariant]
      rw [hname, ih (fun n hn => hp n (List.mem_cons_of_mem _ hn))
        (fun n hn => hq n (List.mem_cons_of_mem _ hn)) hrest]

/-- The root directory shows as a separator alone, which no other path does. -/
theorem flatMap_ne_root {path : Path} :
    path.flatMap (fun name => '/' :: name.text.toList) ≠ ['/'] := by
  cases path with
  | nil => simp
  | cons name rest =>
    intro h
    rw [List.flatMap_cons, List.cons_append, List.cons.injEq, List.append_eq_nil_iff] at h
    exact name.text_ne h.2.1

theorem key_injective {p q : Path} (hp : p.IsUtf8) (hq : q.IsUtf8) (h : p.key = q.key) : p = q := by
  have hchars : p.keyChars = q.keyChars := String.ofList_injective h
  cases p with
  | nil =>
    cases q with
    | nil => rfl
    | cons name rest => exact absurd hchars.symm flatMap_ne_root
  | cons name rest =>
    cases q with
    | nil => exact absurd hchars flatMap_ne_root
    | cons other others => exact flatMap_inj hp hq hchars

/-- The text of a path starts with the text of every root it lies under. -/
theorem keyChars_append (root rest : Path) : root.keyChars <+: (root ++ rest).keyChars := by
  cases root with
  | nil =>
    cases rest with
    | nil => exact List.prefix_rfl
    | cons name rest => exact ⟨_, rfl⟩
  | cons name others =>
    refine ⟨rest.flatMap (fun name => '/' :: name.text.toList), ?_⟩
    rw [keyChars, List.cons_append, keyChars, ← List.cons_append, List.flatMap_append]

end Path
end CyberSentinel.Fim
