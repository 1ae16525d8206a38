import CyberSentinel.Eval
import Mathlib.Data.String.Basic

/-!
# Compiling rules

Every parsed rule is compiled or reported. The fast pattern of a compiled rule goes into one
automaton per buffer and case mode, together with the rule's index; a rule without a usable pattern
is evaluated on every input. One scan of the buffers then names the candidates.

The automaton is that of the `aho-corasick` crate. It is given by what building returns and by the
numbers of the patterns an overlapping search reports; the one thing asked of it is that the search
reports every pattern that occurs.
-/

namespace CyberSentinel.Detect

open Rules

inductive CompileError
  | header (error : VarError)
  | regex (expression reason : String)
  | notEvaluable (keywords : List String)
  /-- `the engine does not handle {option} yet` -/
  | unhandled (option : RuleOption)
  deriving DecidableEq

structure CompileFailure where
  sid : UInt32
  origin : String
  reason : CompileError
  deriving DecidableEq

structure CompileReport where
  compiled : ℕ := 0
  notEvaluable : ℕ := 0
  failed : List CompileFailure := []
  /-- Rules evaluated on every input. -/
  withoutPrefilter : ℕ := 0
  deriving DecidableEq

structure AhoCorasick where
  Automaton : Type
  /-- Build for the patterns, matching by ASCII case folding when the flag is set. -/
  build : Bool → List (List UInt8) → Option Automaton
  /-- The pattern numbers of all matches, overlapping ones included. -/
  findOverlapping : Automaton → List UInt8 → List ℕ
  reports : ∀ nocase needles automaton haystack i needle, build nocase needles = some automaton →
    needles[i]? = some needle → Search.Occurs (sameByte nocase) needle haystack →
    i ∈ findOverlapping automaton haystack

def AhoCorasick.exhaustive : AhoCorasick where
  Automaton := Bool × List (List UInt8)
  build nocase needles := some (nocase, needles)
  findOverlapping automaton haystack :=
    (List.range (haystack.length + 1)).flatMap fun position =>
      (List.range automaton.2.length).filter fun i =>
        automaton.2[i]?.any fun needle =>
          position + needle.length ≤ haystack.length &&
            ((Bytes.slice haystack position (position + needle.length)).zip needle).all
              (fun p => sameByte automaton.1 p.1 p.2)
  reports := by
    intro nocase needles automaton haystack i needle hbuild hneedle hoccurs
    obtain ⟨j, hj⟩ := hoccurs
    obtain rfl := Option.some.inj hbuild
    obtain ⟨hi, _⟩ := List.getElem?_eq_some_iff.1 hneedle
    -- an empty needle stands at every position, also at the start
    obtain ⟨position, hle, hat⟩ : ∃ position, position + needle.length ≤ haystack.length ∧
        Search.OccursAt (sameByte nocase) needle haystack position := by
      by_cases hempty : needle = []
      · exact ⟨0, by simp [hempty], by simp [Search.OccursAt, hempty]⟩
      · exact ⟨j, hj.le_length hempty, hj⟩
    simp only [List.mem_flatMap, List.mem_range, List.mem_filter]
    refine ⟨position, by omega, hi, ?_⟩
    rw [hneedle, Option.any_some, Bool.and_eq_true, decide_eq_true_eq,
      Search.all_zip_slice_iff hle]
    exact ⟨hle, hat⟩

variable (R : Regex)

def compileOption (limits : CompileLimits) : RuleOption → Except CompileError (CompiledOption R)
  | .content c => .ok (.content c)
  | .pcre p =>
    match R.build p limits with
    | .ok matcher => .ok (.pcre matcher p.buffer p.negated p.relative)
    | .error reason => .error (.regex p.source reason)
  | .flow f => .ok (.flow f)
  | .flowBits op => .ok (.flowBits op)
  | .byteTest t => .ok (.byteTest t)
  | .byteJump j => .ok (.byteJump j)
  | .dsize d => .ok (.dsize d)
  | .normalized c => .ok (.normalized c)
  -- dropping a condition would widen the rule, so the rule fails
  | .host h => .error (.unhandled (.host h))

def compileOptions (limits : CompileLimits) :
    List RuleOption → Except CompileError (List (CompiledOption R))
  | [] => .ok []
  | option :: rest =>
    match compileOption R limits option with
    | .error error => .error error
    | .ok compiled =>
      match compileOptions limits rest with
      | .error error => .error error
      | .ok others => .ok (compiled :: others)

def groupMetadata (entries : List MetadataEntry) : List (String × List String) :=
  (Search.sortDedup (entries.map MetadataEntry.key)).map (fun key =>
    (key, (entries.filter (fun entry => entry.key == key)).map MetadataEntry.value))

def compileRule (resolve : HeaderResolver) (limits : CompileLimits) (rule : Rule) :
    Except CompileError (CompiledRule R) :=
  if rule.isEvaluable then
    match resolve rule.header with
    | .error error => .error (.header error)
    | .ok header =>
      match compileOptions R limits rule.options with
      | .error error => .error error
      | .ok options =>
        .ok { sid := rule.sid, rev := rule.rev, msg := rule.msg, classtype := rule.classtype,
              severity := rule.severity, blocks := rule.header.action.blocks,
              metadata := groupMetadata rule.metadata, header := header, options := options,
              threshold := rule.threshold, noAlert := rule.noAlert, needsHttp := rule.needsHttp,
              origin := rule.location }
  else .error (.notEvaluable rule.unsupportedOptions)

def fastPatterns (rule : Rule) : List ContentMatch :=
  rule.options.filterMap fun option =>
    match option with
    | .content c => if c.usableAsFastPattern then some c else none
    | _ => none

def longestContent (contents : List ContentMatch) : Option ContentMatch :=
  contents.foldl (fun best c =>
    match best with
    | none => some c
    | some b => if b.pattern.length ≤ c.pattern.length then some c else some b) none

/-- An explicit `fast_pattern` wins, otherwise the longest usable pattern. -/
def selectFastPattern (rule : Rule) : Option ContentMatch :=
  match (fastPatterns rule).find? ContentMatch.fastPattern with
  | some c => some c
  | none => longestContent (fastPatterns rule)

/-- The patterns gathered for one buffer and case mode, each with the rule it belongs to. -/
structure Slot where
  needles : List (List UInt8) := []
  owners : List ℕ := []
  deriving DecidableEq

def Slot.add (s : Slot) (needle : List UInt8) (owner : ℕ) : Slot :=
  ⟨s.needles ++ [needle], s.owners ++ [owner]⟩

structure Gathered where
  report : CompileReport := {}
  compiled : List (CompiledRule R) := []
  patterns : Buffer × Bool → Slot := fun _ => {}
  always : List ℕ := []

variable {R}

def Gathered.file (g : Gathered R) (rule : Rule) : Gathered R :=
  match selectFastPattern rule with
  | some c =>
    let key := (c.buffer, c.nocase)
    { g with
      patterns := Function.update g.patterns key
        ((g.patterns key).add c.pattern g.compiled.length) }
  | none =>
    { g with
      report := { g.report with withoutPrefilter := g.report.withoutPrefilter + 1 }
      always := g.always ++ [g.compiled.length] }

variable (R)

def gather (resolve : HeaderResolver) (limits : CompileLimits) (g : Gathered R) (rule : Rule) :
    Gathered R :=
  if rule.isEvaluable then
    match compileRule R resolve limits rule with
    | .ok entry => { g.file rule with compiled := g.compiled ++ [entry] }
    | .error error =>
      { g with
        report := { g.report with failed := g.report.failed ++ [⟨rule.sid,
          rule.location, error⟩] } }
  else { g with report := { g.report with notEvaluable := g.report.notEvaluable + 1 } }

/-- The two automata of a buffer, with the owners of their patterns. -/
structure Prefilter (A : AhoCorasick) where
  sensitive : Option (A.Automaton × List ℕ)
  insensitive : Option (A.Automaton × List ℕ)

structure CompiledRuleset (R : Regex) (A : AhoCorasick) where
  rules : List (CompiledRule R)
  prefilters : Buffer → Prefilter A
  /-- Rules evaluated whatever the buffers hold. -/
  always : List ℕ
  buffers : List Buffer

def patternKeys : List (Buffer × Bool) :=
  [.payload, .httpUri, .httpHeader, .httpUserAgent, .httpMethod, .httpHost].flatMap
    (fun buffer => [(buffer, false), (buffer, true)])

variable {R} (A : AhoCorasick)

/-- The automaton of one key. There is none where no pattern was gathered. -/
def Gathered.automaton (g : Gathered R) (key : Buffer × Bool) : Option (A.Automaton × List ℕ) :=
  if (g.patterns key).owners.isEmpty then none
  else (A.build key.2 (g.patterns key).needles).map (fun built => (built, (g.patterns key).owners))

def Gathered.unbuilt (g : Gathered R) (key : Buffer × Bool) : List ℕ :=
  match A.build key.2 (g.patterns key).needles with
  | some _ => []
  | none => (g.patterns key).owners

def Gathered.prefilter (g : Gathered R) (buffer : Buffer) : Prefilter A :=
  ⟨g.automaton A (buffer, false), g.automaton A (buffer, true)⟩

def CompiledOption.buffer : CompiledOption R → Option Buffer
  | .content c => some c.buffer
  | .pcre _ buffer _ _ => some buffer
  | _ => none

/-- The rule set built from what was gathered. A pre-filter that cannot be built must not lose its
rules: they are evaluated on every input. -/
def Gathered.ruleset (g : Gathered R) : CompiledRuleset R A where
  rules := g.compiled
  prefilters := g.prefilter A
  always := g.always ++ patternKeys.flatMap (g.unbuilt A)
  buffers := Search.sortDedup
    ((patternKeys.filter (fun key => (g.automaton A key).isSome)).map Prod.fst ++
      g.compiled.flatMap (fun rule => rule.options.filterMap CompiledOption.buffer))

namespace CompiledRuleset

/-- Never fails as a whole: what cannot be compiled is in the report and left out. -/
def compile (R : Regex) (A : AhoCorasick) (resolve : HeaderResolver) (limits : CompileLimits)
    (rules : List Rule) : CompiledRuleset R A × CompileReport :=
  let g := rules.foldl (gather R resolve limits) {}
  (g.ruleset A, { g.report with compiled := g.compiled.length })

variable {A}

def rule (s : CompiledRuleset R A) (index : ℕ) : Option (CompiledRule R) := s.rules[index]?

def needsHttp (s : CompiledRuleset R A) : Bool :=
  s.buffers.any Buffer.isHttp || s.rules.any CompiledRule.needsHttp

end CompiledRuleset

variable {A}

def halfCandidates (haystack : List UInt8) : Option (A.Automaton × List ℕ) → List ℕ
  | some (automaton, owners) =>
    (A.findOverlapping automaton haystack).filterMap (fun pattern => owners[pattern]?)
  | none => []

def Prefilter.candidates (p : Prefilter A) (haystack : List UInt8) : List ℕ :=
  halfCandidates haystack p.sensitive ++ halfCandidates haystack p.insensitive

/-- Rules worth evaluating for the contents of several buffers, each once and in order. -/
def CompiledRuleset.candidatesIn (s : CompiledRuleset R A)
    (haystacks : List (Buffer × List UInt8)) :
    List ℕ :=
  Search.sortDedup
    (haystacks.flatMap (fun h => (s.prefilters h.1).candidates h.2) ++ s.always)

def Buffers.haystacks (b : Buffers) (prefilterBuffers : List Buffer) : List (Buffer × List UInt8) :=
  prefilterBuffers.filterMap (fun buffer => (b.get buffer).map (fun bytes => (buffer, bytes)))

end CyberSentinel.Detect
