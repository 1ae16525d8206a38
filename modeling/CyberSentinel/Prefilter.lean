import CyberSentinel.Compile

/-!
# The pre-filter loses no match

Every compiled rule is filed: its index is among those always evaluated, or it owns a pattern in the
slot of one of its own positive contents. A rule that matches has that content in its buffer, so the
scan of the buffer names it. The engine inspects two kinds of input, a payload without HTTP buffers
and HTTP buffers without a payload, and in both a content outside the scanned buffers cannot match.
-/

namespace CyberSentinel.Detect

open Rules

variable {R : Regex} {A : AhoCorasick}

/-- Where a compiled rule is found again: always, or through a pattern of one of its contents. -/
def Filed (g : Gathered R) (index : ℕ) (entry : CompiledRule R) : Prop :=
  index ∈ g.always ∨
    ∃ c : ContentMatch, CompiledOption.content c ∈ entry.options ∧
      c.usableAsFastPattern = true ∧
      ∃ j : ℕ, (g.patterns (c.buffer, c.nocase)).needles[j]? = some c.pattern ∧
        (g.patterns (c.buffer, c.nocase)).owners[j]? = some index

def SlotsAligned (g : Gathered R) : Prop :=
  ∀ key, (g.patterns key).needles.length = (g.patterns key).owners.length

structure WellFiled (g : Gathered R) : Prop where
  filed : ∀ index entry, g.compiled[index]? = some entry → Filed g index entry
  aligned : SlotsAligned g

theorem compileOptions_cons {limits : CompileLimits} {option : RuleOption} {rest : List RuleOption}
    {compiled : List (CompiledOption R)}
    (h : compileOptions R limits (option :: rest) = .ok compiled) :
    ∃ first others, compileOption R limits option = .ok first ∧
      compileOptions R limits rest = .ok others ∧ compiled = first :: others := by
  rw [compileOptions] at h
  cases hfirst : compileOption R limits option with
  | error error => simp [hfirst] at h
  | ok first =>
    cases hrest : compileOptions R limits rest with
    | error error => simp [hfirst, hrest] at h
    | ok others =>
      simp only [hfirst, hrest, Except.ok.injEq] at h
      exact ⟨first, others, rfl, rfl, h.symm⟩

theorem mem_compileOptions {limits : CompileLimits} {options : List RuleOption}
    {compiled : List (CompiledOption R)} (h : compileOptions R limits options = .ok compiled)
    {c : ContentMatch} (hc : RuleOption.content c ∈ options) :
    CompiledOption.content c ∈ compiled := by
  induction options generalizing compiled with
  | nil => exact absurd hc (by simp)
  | cons option rest ih =>
    obtain ⟨first, others, hfirst, hrest, rfl⟩ := compileOptions_cons h
    rcases List.mem_cons.1 hc with heq | hmem
    · subst heq
      rw [← Except.ok.inj hfirst]
      exact List.mem_cons_self
    · exact List.mem_cons_of_mem _ (ih hrest hmem)

theorem compileRule_spec {resolve : HeaderResolver} {limits : CompileLimits} {rule : Rule}
    {entry : CompiledRule R} (h : compileRule R resolve limits rule = .ok entry) :
    entry.sid = rule.sid ∧ entry.threshold = rule.threshold ∧ entry.noAlert = rule.noAlert ∧
      resolve rule.header = .ok entry.header ∧
      compileOptions R limits rule.options = .ok entry.options := by
  unfold compileRule at h
  split_ifs at h
  cases hheader : resolve rule.header with
  | error error => simp [hheader] at h
  | ok header =>
    cases hoptions : compileOptions R limits rule.options with
    | error error => simp [hheader, hoptions] at h
    | ok options =>
      simp only [hheader, hoptions, Except.ok.injEq] at h
      rw [← h]
      exact ⟨rfl, rfl, rfl, rfl, rfl⟩

theorem mem_of_longestContent {contents : List ContentMatch} {c : ContentMatch}
    (h : longestContent contents = some c) : c ∈ contents := by
  -- at every point of the fold the best so far is one of the contents
  have hfold : ∀ best, longestContent contents = some best → best ∈ contents := by
    refine List.foldlRecOn (motive := fun r => ∀ best, r = some best → best ∈ contents) contents _
      (by simp) ?_
    intro found hfound x hx best hbest
    cases found with
    | none =>
      rw [← Option.some.inj hbest]
      exact hx
    | some b =>
      simp only at hbest
      split_ifs at hbest with hle
      · rw [← Option.some.inj hbest]
        exact hx
      · exact hfound best hbest
  exact hfold c h

theorem selectFastPattern_spec {rule : Rule} {c : ContentMatch}
    (h : selectFastPattern rule = some c) :
    RuleOption.content c ∈ rule.options ∧ c.usableAsFastPattern = true := by
  have hmem : c ∈ fastPatterns rule := by
    unfold selectFastPattern at h
    split at h
    · next chosen hfind =>
      rw [← Option.some.inj h]
      exact List.mem_of_find?_eq_some hfind
    · exact mem_of_longestContent h
  obtain ⟨option, hoption, hselect⟩ := List.mem_filterMap.1 hmem
  split at hselect
  · next chosen =>
    split_ifs at hselect with husable
    rw [← Option.some.inj hselect]
    exact ⟨hoption, husable⟩
  · exact absurd hselect (by simp)

@[simp] theorem file_compiled (g : Gathered R) (rule : Rule) :
    (g.file rule).compiled = g.compiled := by
  unfold Gathered.file
  split <;> rfl

theorem always_subset_file (g : Gathered R) (rule : Rule) {i : ℕ} (h : i ∈ g.always) :
    i ∈ (g.file rule).always := by
  unfold Gathered.file
  split
  · exact h
  · exact List.mem_append_left _ h

theorem file_patterns_getElem? (g : Gathered R) (rule : Rule)
    (key : Buffer × Bool) (j : ℕ) (needle : List UInt8) (owner : ℕ)
    (hneedle : (g.patterns key).needles[j]? = some needle)
    (howner : (g.patterns key).owners[j]? = some owner) :
    ((g.file rule).patterns key).needles[j]? = some needle ∧
      ((g.file rule).patterns key).owners[j]? = some owner := by
  unfold Gathered.file
  split
  · next c _ =>
    by_cases hkey : key = (c.buffer, c.nocase)
    · subst hkey
      simp only [Function.update_self, Slot.add]
      exact ⟨by rw [List.getElem?_append_left (List.getElem?_eq_some_iff.1 hneedle).1, hneedle],
        by rw [List.getElem?_append_left (List.getElem?_eq_some_iff.1 howner).1, howner]⟩
    · simp only [Function.update_of_ne hkey]
      exact ⟨hneedle, howner⟩
  · exact ⟨hneedle, howner⟩

theorem Filed.file {g : Gathered R} {index : ℕ} {entry : CompiledRule R}
    (h : Filed g index entry) (rule : Rule) : Filed (g.file rule) index entry := by
  rcases h with halways | ⟨c, hc, husable, j, hneedle, howner⟩
  · exact Or.inl (always_subset_file g rule halways)
  · exact Or.inr ⟨c, hc, husable, j, file_patterns_getElem? g rule _ j _ _ hneedle howner⟩

theorem file_filed (g : Gathered R) (hg : SlotsAligned g) (rule : Rule) {entry : CompiledRule R}
    (hentry : ∀ c, RuleOption.content c ∈ rule.options → CompiledOption.content c ∈ entry.options) :
    Filed (g.file rule) g.compiled.length entry := by
  cases hselect : selectFastPattern rule with
  | none =>
    apply Or.inl
    simp [Gathered.file, hselect]
  | some c =>
    obtain ⟨hmem, husable⟩ := selectFastPattern_spec hselect
    refine Or.inr ⟨c, hentry c hmem, husable, (g.patterns (c.buffer, c.nocase)).needles.length, ?_⟩
    simp only [Gathered.file, hselect, Function.update_self, Slot.add]
    refine ⟨by simp, ?_⟩
    rw [hg (c.buffer, c.nocase)]
    simp

theorem file_aligned (g : Gathered R) (hg : SlotsAligned g) (rule : Rule) :
    SlotsAligned (g.file rule) := by
  intro key
  unfold Gathered.file
  split
  · next c _ =>
    by_cases hkey : key = (c.buffer, c.nocase)
    · subst hkey
      simp only [Function.update_self, Slot.add, List.length_append, List.length_singleton]
      rw [hg]
    · simp only [Function.update_of_ne hkey]
      exact hg key
  · exact hg key

theorem WellFiled.gather {g : Gathered R} (hg : WellFiled g) (resolve : HeaderResolver)
    (limits : CompileLimits) (rule : Rule) : WellFiled (gather R resolve limits g rule) := by
  unfold Detect.gather
  split_ifs
  · cases hcompile : compileRule R resolve limits rule with
    | error error => exact ⟨hg.filed, hg.aligned⟩
    | ok entry =>
      refine ⟨?_, file_aligned g hg.aligned rule⟩
      intro index old hold
      rcases Nat.lt_or_ge index g.compiled.length with hlt | hge
      · rw [List.getElem?_append_left hlt] at hold
        exact (hg.filed index old hold).file rule
      · rw [List.getElem?_append_right hge] at hold
        obtain ⟨hzero, heq⟩ := List.getElem?_eq_some_iff.1 hold
        have hindex : index = g.compiled.length := by
          simp only [List.length_singleton] at hzero
          omega
        subst hindex
        simp only [Nat.sub_self, List.getElem_cons_zero] at heq
        subst heq
        exact file_filed g hg.aligned rule
          (fun c hc => mem_compileOptions (compileRule_spec hcompile).2.2.2.2 hc)
  · exact ⟨hg.filed, hg.aligned⟩

theorem wellFiled_foldl (resolve : HeaderResolver) (limits : CompileLimits) (rules : List Rule)
    {g : Gathered R} (hg : WellFiled g) :
    WellFiled (rules.foldl (Detect.gather R resolve limits) g) := by
  induction rules generalizing g with
  | nil => exact hg
  | cons rule rest ih => exact ih (hg.gather resolve limits rule)

theorem wellFiled_empty : WellFiled ({} : Gathered R) :=
  ⟨fun _ _ h => by simp at h, fun _ => rfl⟩

theorem mem_patternKeys (key : Buffer × Bool) : key ∈ patternKeys := by
  obtain ⟨buffer, nocase⟩ := key
  cases buffer <;> cases nocase <;> decide

/-- An owner of a pattern that occurs is named by the scan of its buffer, or is always evaluated. -/
theorem mem_candidates_of_occurs {g : Gathered R} {buffer : Buffer} {nocase : Bool} {j index : ℕ}
    {needle haystack : List UInt8}
    (hneedle : (g.patterns (buffer, nocase)).needles[j]? = some needle)
    (howner : (g.patterns (buffer, nocase)).owners[j]? = some index)
    (hoccurs : Search.Occurs (sameByte nocase) needle haystack) :
    index ∈ (g.prefilter A buffer).candidates haystack ∨ index ∈ (g.ruleset A).always := by
  have hnonempty : (g.patterns (buffer, nocase)).owners.isEmpty = false := by
    rw [List.isEmpty_eq_false_iff]
    exact List.ne_nil_of_mem (List.mem_of_getElem? howner)
  cases hbuild : A.build nocase (g.patterns (buffer, nocase)).needles with
  | none =>
    right
    apply List.mem_append_right
    refine List.mem_flatMap.2 ⟨(buffer, nocase), mem_patternKeys _, ?_⟩
    simp only [Gathered.unbuilt, hbuild]
    exact List.mem_of_getElem? howner
  | some automaton =>
    left
    have hhalf : index ∈ halfCandidates haystack (g.automaton A (buffer, nocase)) := by
      simp only [Gathered.automaton, hnonempty, Bool.false_eq_true, if_false, hbuild,
        Option.map_some, halfCandidates]
      exact List.mem_filterMap.2
        ⟨j, A.reports nocase _ automaton haystack j needle hbuild hneedle hoccurs, howner⟩
    cases nocase with
    | false => exact List.mem_append_left _ hhalf
    | true => exact List.mem_append_right _ hhalf

/-- A payload with no HTTP buffers, or HTTP buffers with no payload. -/
inductive Inspected
  | payload (bytes : List UInt8)
  | http (uri header userAgent method host : Option (List UInt8))
    (normalization : NormalizationFlags)

namespace Inspected

def buffers : Inspected → Buffers
  | payload bytes => { payload := bytes }
  | http uri header userAgent method host normalization =>
    { payload := [], httpUri := uri, httpHeader := header, httpUserAgent := userAgent,
      httpMethod := method, httpHost := host, normalization := normalization }

def prefilterBuffers : Inspected → List Buffer
  | payload _ => [.payload]
  | http .. => [.httpUri, .httpHeader, .httpUserAgent, .httpMethod, .httpHost]

/-- A buffer in which a pattern occurs is among those the pre-filter scans. -/
theorem mem_haystacks (shape : Inspected) {buffer : Buffer} {haystack needle : List UInt8}
    {same : UInt8 → UInt8 → Bool} (hget : shape.buffers.get buffer = some haystack)
    (hne : needle ≠ []) (hoccurs : Search.Occurs same needle haystack) :
    (buffer, haystack) ∈ shape.buffers.haystacks shape.prefilterBuffers := by
  have hscanned : buffer ∈ shape.prefilterBuffers := by
    cases shape with
    | payload bytes =>
      cases buffer with
      | payload => simp [prefilterBuffers]
      | _ => simp [buffers, Buffers.get] at hget
    | http uri header userAgent method host normalization =>
      cases buffer with
      | payload =>
        obtain rfl : [] = haystack := Option.some.inj hget
        exact absurd hoccurs (Search.not_occurs_nil hne)
      | _ => simp [prefilterBuffers]
  exact List.mem_filterMap.2 ⟨buffer, hscanned, by rw [hget]; rfl⟩

end Inspected

/-- The rule at `index` matches the input. -/
def matchesAt (s : CompiledRuleset R A) (input : MatchInput) (bits : FlowBits) (index : ℕ) : Bool :=
  ((s.rule index).bind (fun rule => evaluate rule input bits)).isSome

theorem mem_candidatesIn_of_matches (resolve : HeaderResolver) (limits : CompileLimits)
    (rules : List Rule) (shape : Inspected) (input : MatchInput) (bits : FlowBits)
    (hinput : input.buffers = shape.buffers) {index : ℕ}
    (h : matchesAt (CompiledRuleset.compile R A resolve limits rules).1 input bits index = true) :
    index ∈ (CompiledRuleset.compile R A resolve limits rules).1.candidatesIn
      (shape.buffers.haystacks shape.prefilterBuffers) := by
  set g := rules.foldl (Detect.gather R resolve limits) {} with hgathered
  have hg : WellFiled g := wellFiled_foldl resolve limits rules wellFiled_empty
  have hruleset : (CompiledRuleset.compile R A resolve limits rules).1 = g.ruleset A := rfl
  rw [hruleset] at h ⊢
  obtain ⟨outcome, houtcome⟩ := Option.isSome_iff_exists.1 h
  obtain ⟨entry, hentry, hmatch⟩ := Option.bind_eq_some_iff.1 houtcome
  rw [CompiledRuleset.candidatesIn, Search.mem_sortDedup, List.mem_append, List.mem_flatMap]
  rcases hg.filed index entry hentry with halways | ⟨c, hc, husable, j, hneedle, howner⟩
  · exact Or.inr (List.mem_append_left _ halways)
  · simp only [ContentMatch.usableAsFastPattern, Bool.and_eq_true, Bool.not_eq_true'] at husable
    obtain ⟨haystack, hget, hne, hoccurs⟩ :=
      occurs_of_evaluate (by rw [hmatch]; rfl) hc husable.1
    rw [hinput] at hget
    rcases mem_candidates_of_occurs (A := A) hneedle howner hoccurs with hscan | halways
    · exact Or.inl ⟨(c.buffer, haystack), shape.mem_haystacks hget hne hoccurs, hscan⟩
    · exact Or.inr halways

theorem filter_candidatesIn (resolve : HeaderResolver) (limits : CompileLimits) (rules : List Rule)
    (shape : Inspected) (input : MatchInput) (bits : FlowBits)
    (hinput : input.buffers = shape.buffers) :
    ((CompiledRuleset.compile R A resolve limits rules).1.candidatesIn
        (shape.buffers.haystacks shape.prefilterBuffers)).filter
        (matchesAt (CompiledRuleset.compile R A resolve limits rules).1 input bits) =
      (List.range (CompiledRuleset.compile R A resolve limits rules).1.rules.length).filter
        (matchesAt (CompiledRuleset.compile R A resolve limits rules).1 input bits) := by
  have hsorted := Search.pairwise_lt_sortDedup
    ((shape.buffers.haystacks shape.prefilterBuffers).flatMap (fun h =>
      ((CompiledRuleset.compile R A resolve limits rules).1.prefilters h.1).candidates h.2) ++
      (CompiledRuleset.compile R A resolve limits rules).1.always)
  apply Search.eq_of_pairwise_lt (hsorted.filter _) (List.pairwise_lt_range.filter _)
  intro index
  rw [List.mem_filter, List.mem_filter, List.mem_range]
  constructor
  · rintro ⟨_, hmatched⟩
    obtain ⟨outcome, houtcome⟩ := Option.isSome_iff_exists.1 hmatched
    obtain ⟨entry, hentry, _⟩ := Option.bind_eq_some_iff.1 houtcome
    exact ⟨(List.getElem?_eq_some_iff.1 hentry).1, hmatched⟩
  · rintro ⟨_, hmatched⟩
    exact ⟨mem_candidatesIn_of_matches resolve limits rules shape input bits hinput hmatched,
      hmatched⟩

/-- Evaluating the candidates gives what evaluating every rule gives, and each candidate is listed
once, in index order. -/
theorem candidatesIn_exact (R : Regex) (A : AhoCorasick) (resolve : HeaderResolver)
    (limits : CompileLimits) (rules : List Rule) (shape : Inspected) (tuple : NetTuple)
    (established toServer : Bool) (bits : FlowBits) :
    let s := (CompiledRuleset.compile R A resolve limits rules).1
    let out := s.candidatesIn (shape.buffers.haystacks shape.prefilterBuffers)
    let matched := matchesAt s ⟨tuple, established, toServer, shape.buffers⟩ bits
    out.filter matched = (List.range s.rules.length).filter matched ∧
      out.Pairwise (· < ·) := by
  intro s out matched
  constructor
  · exact filter_candidatesIn resolve limits rules shape _ bits rfl
  · exact Search.pairwise_lt_sortDedup _

end CyberSentinel.Detect
