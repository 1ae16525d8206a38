import CyberSentinel.Contents
import CyberSentinel.InspectionWindow

/-!
# Chains of contents

A rule of positive contents on one buffer asks for a chain of positions, each content measured from
the end of the one before. The walk takes the first position for every content and never comes back
to it. It so finds the chain of first positions; another chain may exist where there is none, and
then some content is kept close to the one before, which could have stood in several places.
-/

namespace CyberSentinel.Detect

open Rules Bytes

/-- Positions for the contents from a cursor on, each between the bounds that the end of the one
before gives. The chain ends behind the last of them. -/
inductive Chain (haystack : List UInt8) : ℕ → List ContentMatch → ℕ → Prop
  | nil (cursor : ℕ) : Chain haystack cursor [] cursor
  | cons {content : ContentMatch} {contents : List ContentMatch} {cursor position stop : ℕ}
      (stands : StandsAt content haystack cursor position)
      (rest : Chain haystack (position + content.pattern.length) contents stop) :
      Chain haystack cursor (content :: contents) stop

/-- A chain in which every content stands at the first position it may. -/
inductive FirstChain (haystack : List UInt8) : ℕ → List ContentMatch → ℕ → Prop
  | nil (cursor : ℕ) : FirstChain haystack cursor [] cursor
  | cons {content : ContentMatch} {contents : List ContentMatch} {cursor position stop : ℕ}
      (stands : StandsAt content haystack cursor position)
      (first : ∀ other, StandsAt content haystack cursor other → position ≤ other)
      (rest : FirstChain haystack (position + content.pattern.length) contents stop) :
      FirstChain haystack cursor (content :: contents) stop

/-- The content may only stand so far behind the end of the one before. -/
def Close (content : ContentMatch) : Prop :=
  content.isRelative = true ∧ (content.within.isSome = true ∨ content.depth.isSome = true)

def OneEnd (haystack : List UInt8) (contents : List ContentMatch) : Prop :=
  ∀ stop stop', Chain haystack 0 contents stop → Chain haystack 0 contents stop' → stop = stop'

variable {haystack : List UInt8}

theorem FirstChain.chain {cursor stop : ℕ} {contents : List ContentMatch}
    (h : FirstChain haystack cursor contents stop) : Chain haystack cursor contents stop := by
  induction h with
  | nil cursor => exact .nil cursor
  | cons stands first rest ih => exact .cons stands ih

theorem Chain.append {cursor middle stop : ℕ} {before after : List ContentMatch}
    (h : Chain haystack cursor before middle) (h' : Chain haystack middle after stop) :
    Chain haystack cursor (before ++ after) stop := by
  induction h with
  | nil cursor => exact h'
  | cons stands rest ih => exact .cons stands (ih h')

theorem FirstChain.append {cursor middle stop : ℕ} {before after : List ContentMatch}
    (h : FirstChain haystack cursor before middle) (h' : FirstChain haystack middle after stop) :
    FirstChain haystack cursor (before ++ after) stop := by
  induction h with
  | nil cursor => exact h'
  | cons stands first rest ih => exact .cons stands first (ih h')

theorem contentStart_mono {content : ContentMatch} {cursor cursor' : ℕ} (h : cursor ≤ cursor') :
    contentStart content cursor ≤ contentStart content cursor' := by
  rw [contentStart, contentStart]
  split_ifs
  · exact Int.toNat_le_toNat (by omega)
  · exact le_rfl

/-- A content that is not kept close may also stand there when it is measured from further back. -/
theorem StandsAt.of_le {content : ContentMatch} {cursor cursor' position : ℕ}
    (hclose : ¬ Close content) (h : cursor ≤ cursor')
    (hstands : StandsAt content haystack cursor' position) :
    StandsAt content haystack cursor position := by
  obtain ⟨hne, hoccurs, hstart, hwithin, hdepth⟩ := hstands
  refine ⟨hne, hoccurs, (contentStart_mono h).trans hstart, ?_, ?_⟩
  · intro within hw
    exact absurd ⟨isRelative_of_within hw, Or.inl (by rw [hw]; rfl)⟩ hclose
  · intro depth hd
    cases hrelative : content.isRelative with
    | true => exact absurd ⟨hrelative, Or.inr (by rw [hd]; rfl)⟩ hclose
    | false =>
      have hsame : contentStart content cursor = contentStart content cursor' := by
        rw [contentStart, contentStart, hrelative]
        rfl
      rw [hsame]
      exact hdepth depth hd

/-- The cursor behind the contents, each one found where the search finds it. -/
def matchContents (haystack : List UInt8) (cursor : ℕ) (contents : List ContentMatch) : Option ℕ :=
  contents.foldlM (fun cursor content => matchContent content haystack cursor) cursor

theorem matchContents_eq_some_iff {cursor stop : ℕ} {contents : List ContentMatch}
    (hpositive : ∀ content ∈ contents, content.negated = false) :
    matchContents haystack cursor contents = some stop ↔
      FirstChain haystack cursor contents stop := by
  induction contents generalizing cursor with
  | nil =>
    constructor
    · intro h
      rw [← Option.some.inj h]
      exact .nil cursor
    · rintro ⟨⟩
      rfl
  | cons content contents ih =>
    have hrest (next : ℕ) : matchContents haystack next contents = some stop ↔
        FirstChain haystack next contents stop :=
      ih fun c hc => hpositive c (List.mem_cons_of_mem _ hc)
    have hcons : matchContents haystack cursor (content :: contents) =
        (matchContent content haystack cursor).bind fun next =>
          matchContents haystack next contents := List.foldlM_cons
    obtain ⟨hnone, hnowhere⟩ | ⟨position, hsome, hstands, hfirst⟩ :=
      matchContent_positive (hpositive content List.mem_cons_self) haystack cursor
    · rw [hcons, hnone]
      refine ⟨fun h => absurd h (by simp), fun h => ?_⟩
      cases h with
      | cons stands first rest => exact absurd stands (hnowhere _)
    · rw [hcons, hsome, Option.bind_some, hrest]
      refine ⟨.cons hstands hfirst, fun h => ?_⟩
      cases h with
      | cons stands first rest =>
        rwa [(hfirst _ stands).antisymm (first _ hstands)]

variable {R : Regex}

theorem foldlM_evalOption_contents {input : MatchInput} {bits : FlowBits} {buffer : Buffer}
    (hbuffer : input.buffers.get buffer = some haystack) {contents : List ContentMatch}
    (hsame : ∀ content ∈ contents, content.buffer = buffer) (p : Progress) :
    ((contents.map CompiledOption.content).foldlM (evalOption (R := R) input bits) p).isSome =
      (matchContents haystack (p.cursors buffer) contents).isSome := by
  induction contents generalizing p with
  | nil => rfl
  | cons content contents ih =>
    have hoption : evalOption (R := R) input bits p (.content content) =
        (matchContent content haystack (p.cursors buffer)).map (p.moveTo buffer) := by
      rw [evalOption, hsame content List.mem_cons_self, hbuffer, Option.bind_some]
    rw [matchContents, List.map_cons, List.foldlM_cons, List.foldlM_cons, hoption]
    cases matchContent content haystack (p.cursors buffer) with
    | none => rfl
    | some next =>
      have hcursor : (p.moveTo buffer next).cursors buffer = next := Function.update_self ..
      have hrest := ih (fun c hc => hsame c (List.mem_cons_of_mem _ hc)) (p.moveTo buffer next)
      rw [hcursor] at hrest
      exact hrest

theorem evaluate_contents {rule : CompiledRule R} {input : MatchInput}
    {contents : List ContentMatch}
    {buffer : Buffer} (hoptions : rule.options = contents.map .content)
    (hsame : ∀ content ∈ contents, content.buffer = buffer)
    (hheader : rule.header.matches input.tuple = true)
    (hbuffer : input.buffers.get buffer = some haystack) (bits : FlowBits) :
    (evaluate rule input bits).isSome = (matchContents haystack 0 contents).isSome := by
  rw [evaluate, if_pos hheader, Option.isSome_map, hoptions,
    foldlM_evalOption_contents hbuffer hsame]

/-- While all chains up to a content that is kept close end at one position, the first positions are
a chain where any are: they never get behind the given one. -/
theorem exists_firstChain {before after : List ContentMatch} {cursor cursor' stop : ℕ}
    (hpositive : ∀ content ∈ after, content.negated = false)
    (hbefore : FirstChain haystack 0 before cursor) (hbefore' : Chain haystack 0 before cursor')
    (hle : cursor ≤ cursor') (hafter : Chain haystack cursor' after stop)
    (hclose : ∀ content middle rest, after = middle ++ content :: rest → Close content →
      OneEnd haystack (before ++ middle)) :
    ∃ stop', FirstChain haystack 0 (before ++ after) stop' := by
  induction hafter generalizing before cursor with
  | nil cursor' => exact ⟨cursor, by rwa [List.append_nil]⟩
  | @cons content contents cursor' position stop stands rest ih =>
    have hthere : StandsAt content haystack cursor position := by
      by_cases hc : Close content
      · have hend := hclose content [] contents rfl hc
        rw [List.append_nil] at hend
        rwa [hend cursor cursor' hbefore.chain hbefore']
      · exact stands.of_le hc hle
    obtain ⟨-, hnowhere⟩ | ⟨earliest, -, hstands, hfirst⟩ :=
      matchContent_positive (hpositive content List.mem_cons_self) haystack cursor
    · exact absurd hthere (hnowhere position)
    · have hnext := ih (fun c hc => hpositive c (List.mem_cons_of_mem _ hc))
        (hbefore.append (.cons hstands hfirst (.nil _))) (hbefore'.append (.cons stands (.nil _)))
        (Nat.add_le_add_right (hfirst position hthere) _)
        (by
          intro c middle after hsplit hc
          rw [List.append_assoc]
          exact hclose c (content :: middle) after (by rw [hsplit]; rfl) hc)
      rwa [List.append_assoc] at hnext

/-- A rule of positive contents on one buffer matches exactly where the first positions make a
chain. Where any positions do, they do too if all chains up to a content that is kept close to the
one before end at one position. -/
theorem evaluate_chain (rule : CompiledRule R) (input : MatchInput) (bits : FlowBits)
    (contents : List ContentMatch) (buffer : Buffer) (haystack : List UInt8)
    (hoptions : rule.options = contents.map .content)
    (hpositive : ∀ content ∈ contents, content.negated = false ∧ content.buffer = buffer)
    (hheader : rule.header.matches input.tuple = true)
    (hbuffer : input.buffers.get buffer = some haystack) :
    ((evaluate rule input bits).isSome = true ↔ ∃ stop, FirstChain haystack 0 contents stop) ∧
      ((∀ content before after, contents = before ++ content :: after → Close content →
          OneEnd haystack before) →
        (∃ stop, Chain haystack 0 contents stop) → (evaluate rule input bits).isSome = true) := by
  have hiff : (evaluate rule input bits).isSome = true ↔
      ∃ stop, FirstChain haystack 0 contents stop := by
    rw [evaluate_contents hoptions (fun c hc => (hpositive c hc).2) hheader hbuffer bits,
      Option.isSome_iff_exists]
    exact exists_congr fun stop => matchContents_eq_some_iff fun c hc => (hpositive c hc).1
  refine ⟨hiff, fun hclose hchain => hiff.2 ?_⟩
  obtain ⟨stop, hchain⟩ := hchain
  have hnone : FirstChain haystack 0 [] 0 := .nil 0
  exact exists_firstChain (fun c hc => (hpositive c hc).1) hnone (.nil 0) le_rfl hchain
    fun content before after hsplit hc => hclose content before after hsplit hc

/-- `content:"a"; content:"b"; distance:0;` with `within:1;` or without. -/
def decoyContents (within : Option ℕ) : List ContentMatch :=
  [{ pattern := [0x61] }, { pattern := [0x62], distance := some 0, within }]

/-- The buffer `axab`. -/
def decoyInput : MatchInput := ⟨sampleTuple, true, true, { payload := [0x61, 0x78, 0x61, 0x62] }⟩

theorem decoyChain (within : Option ℕ) (h : ∀ n ∈ within, 1 ≤ n) :
    Chain [0x61, 0x78, 0x61, 0x62] 0 (decoyContents within) 4 := by
  have hfirst : StandsAt { pattern := [0x61] } [0x61, 0x78, 0x61, 0x62] 0 2 :=
    ⟨by decide, (Search.all_zip_slice_iff (by decide)).1 (by decide), by decide, by simp, by simp⟩
  have hsecond : StandsAt { pattern := [0x62], distance := some 0, within }
      [0x61, 0x78, 0x61, 0x62] 3 3 := by
    refine ⟨by simp, (Search.all_zip_slice_iff (by simp)).1 rfl, ?_, ?_, by simp⟩
    · simp [contentStart, ContentMatch.isRelative]
    · intro n hn
      exact Nat.add_le_add_left (h n hn) 3
  exact .cons hfirst (.cons hsecond (.nil 4))

/-- Any distance apart: the positions 2 and 3 are a chain, so the rule matches, with position 0 for
the first content. -/
theorem evaluate_chain_any_distance :
    ∃ entry, compileRule Regex.none resolveAny {} (contentRule 1 (decoyContents none)) = .ok entry ∧
      (evaluate entry decoyInput {}).isSome = true := by
  refine ⟨_, rfl, ?_⟩
  refine (evaluate_chain _ decoyInput {} (decoyContents none) .payload _ rfl
    (by simp [decoyContents])
    (by decide) rfl).2 ?_ ⟨4, decoyChain none (by simp)⟩
  intro content before after hsplit hclose
  have hmem : content ∈ decoyContents none := by
    rw [hsplit]
    exact List.mem_append_right _ List.mem_cons_self
  have hnone : ∀ c ∈ decoyContents none, ¬ Close c := by
    simp [decoyContents, Close]
  exact absurd hclose (hnone content hmem)

/-- One byte apart: the rule is lost to the `a` in front. -/
theorem decoy_hides_chain :
    (∃ stop, Chain [0x61, 0x78, 0x61, 0x62] 0 (decoyContents (some 1)) stop) ∧
      ∃ entry, compileRule Regex.none resolveAny {} (contentRule 1 (decoyContents (some 1))) =
          .ok entry ∧
        entry.header.matches decoyInput.tuple = true ∧ evaluate entry decoyInput {} = none :=
  ⟨⟨4, decoyChain (some 1) (by simp)⟩, _, rfl, by decide, by decide +kernel⟩

end CyberSentinel.Detect
