import CyberSentinel.Contents
import CyberSentinel.Drafts
import CyberSentinel.Numerals
import CyberSentinel.Prefilter

/-!
# Walks over the options of a rule

What it means that an option holds where the walk over the options stands. A positive content stands
at some position between the bounds its modifiers set, and the cursor of its buffer moves past it; a
field of a `byte_test` or a `byte_jump` lies in the buffer; the other options look at the flow, the
flowbits and the request. A rule that matches has such a walk, and no cursor leaves its buffer on
the way.
-/

namespace CyberSentinel.Detect

open Rules Bytes

def fieldValue : Endian → List UInt8 → ℕ
  | .big, field => Numerals.ofPlaces 256 (field.map UInt8.toNat)
  | .little, field => Numerals.ofPlaces 256 (field.reverse.map UInt8.toNat)

theorem shiftIn_eq (n : ℕ) (byte : UInt8) :
    (UInt64.ofNat n <<< 8) ||| byte.toUInt64 = UInt64.ofNat (n * 256 + byte.toNat) := by
  apply UInt64.toNat_inj.1
  have hbyte := byte.toNat_lt
  have hshift : (n % 2 ^ 64) <<< 8 % 2 ^ 64 = (n % 2 ^ 56) <<< 8 := by
    rw [Nat.shiftLeft_eq, Nat.shiftLeft_eq]
    omega
  rw [UInt64.toNat_or, UInt64.toNat_shiftLeft, UInt64.toNat_ofNat', UInt64.toNat_ofNat',
    UInt8.toNat_toUInt64, show (8 : UInt64).toNat % 64 = 8 from rfl, hshift,
    ← Nat.shiftLeft_add_eq_or_of_lt hbyte, Nat.shiftLeft_eq]
  omega

theorem shiftIn_foldl (n : ℕ) (field : List UInt8) :
    field.foldl (fun (value : UInt64) (byte : UInt8) => (value <<< 8) ||| byte.toUInt64)
        (UInt64.ofNat n) =
      UInt64.ofNat ((field.map UInt8.toNat).foldl (fun x d => x * 256 + d) n) := by
  induction field generalizing n with
  | nil => rfl
  | cons byte rest ih => rw [List.foldl_cons, shiftIn_eq, ih, List.map_cons, List.foldl_cons]

def wordAt (haystack : List UInt8) (position : ℕ) (bytes : UInt8) (endian : Endian) : UInt64 :=
  UInt64.ofNat (fieldValue endian (slice haystack position (position + bytes.toNat)))

theorem readNumber_eq (haystack : List UInt8) (position : ℕ) (bytes : UInt8) (endian : Endian) :
    readNumber haystack position bytes endian =
      if position + bytes.toNat ≤ haystack.length then
        some (wordAt haystack position bytes endian)
      else none := by
  rw [readNumber, wordAt]
  cases endian with
  | big =>
    rw [fieldValue, Numerals.ofPlaces, ← shiftIn_foldl]
    rfl
  | little =>
    rw [fieldValue, Numerals.ofPlaces, ← shiftIn_foldl]
    rfl

/-- An option that counts from the cursor or from the start of the buffer looks at this position. -/
def IsPosition (relative : Bool) (offset : ℤ) (cursor position : ℕ) : Prop :=
  (position : ℤ) = (if relative then (cursor : ℤ) else 0) + offset

theorem resolvePosition_eq_some {cursor position : ℕ} {offset : ℤ} {relative : Bool} :
    resolvePosition cursor offset relative = some position ↔
      IsPosition relative offset cursor position := by
  rw [resolvePosition, IsPosition]
  generalize (if relative then (cursor : ℤ) else 0) + offset = sum
  split_ifs with h
  · rw [Option.some.injEq]
    omega
  · refine ⟨fun h => absurd h (by simp), fun heq => ?_⟩
    omega

structure FieldAt (haystack : List UInt8) (position : ℕ) (bytes : UInt8) (endian : Endian)
    (value : UInt64) : Prop where
  inside : position + bytes.toNat ≤ haystack.length
  value : value = wordAt haystack position bytes endian

theorem readNumber_eq_some {haystack : List UInt8} {position : ℕ} {bytes : UInt8} {endian : Endian}
    {value : UInt64} : readNumber haystack position bytes endian = some value ↔
      FieldAt haystack position bytes endian value := by
  rw [readNumber_eq]
  split_ifs with hinside
  · exact ⟨fun h => ⟨hinside, (Option.some.inj h).symm⟩, fun h => by rw [h.value]⟩
  · exact ⟨fun h => absurd h (by simp), fun h => absurd h.inside hinside⟩

variable {R : Regex} {input : MatchInput} {bits : FlowBits}

/-- The operation that an option leaves to be done when the rule has matched. -/
def CompiledOption.write : CompiledOption R → Option FlowBitsOp
  | .flowBits (.set name) => some (.set name)
  | .flowBits (.unset name) => some (.unset name)
  | .flowBits (.toggle name) => some (.toggle name)
  | _ => none

/-- What an option asks for, and what it does to the cursors and to the list of side effects. -/
inductive Step (input : MatchInput) (bits : FlowBits) (p : Progress) :
    CompiledOption R → Progress → Prop
  | content {content : ContentMatch} {haystack : List UInt8} {position : ℕ}
      (positive : content.negated = false)
      (buffer : input.buffers.get content.buffer = some haystack)
      (stands : StandsAt content haystack (p.cursors content.buffer) position) :
      Step input bits p (.content content)
        (p.moveTo content.buffer (position + content.pattern.length))
  | notContent {content : ContentMatch} {haystack : List UInt8}
      (negated : content.negated = true)
      (buffer : input.buffers.get content.buffer = some haystack)
      (nowhere : ∀ position, ¬ StandsAt content haystack (p.cursors content.buffer) position) :
      Step input bits p (.content content) { p with current := content.buffer }
  | pcre {matcher : R.Matcher} {buffer : Buffer} {relative : Bool} {haystack : List UInt8}
      {start stop : ℕ}
      (present : input.buffers.get buffer = some haystack)
      (start_eq : start = if relative then p.cursors buffer else 0)
      (found : R.find matcher (haystack.drop start) = some stop)
      (inside : start + stop ≤ haystack.length) :
      Step input bits p (.pcre matcher buffer false relative) (p.moveTo buffer (start + stop))
  | notPcre {matcher : R.Matcher} {buffer : Buffer} {relative : Bool} {haystack : List UInt8}
      (present : input.buffers.get buffer = some haystack)
      (nowhere : R.find matcher (haystack.drop (if relative then p.cursors buffer else 0)) = none) :
      Step input bits p (.pcre matcher buffer true relative) { p with current := buffer }
  | flow {flow : FlowMatch}
      (established : ∀ established ∈ flow.established, established = input.established)
      (toServer : ∀ toServer ∈ flow.toServer, toServer = input.toServer) :
      Step input bits p (.flow flow) p
  | isSet {name : String} (isSet : name ∈ bits.bits) : Step input bits p (.flowBits (.isSet name)) p
  | isNotSet {name : String} (isNotSet : name ∉ bits.bits) :
      Step input bits p (.flowBits (.isNotSet name)) p
  | write {option : CompiledOption R} {op : FlowBitsOp} (write : option.write = some op) :
      Step input bits p option { p with sideEffects := p.sideEffects ++ [op] }
  | byteTest {test : ByteTest} {haystack : List UInt8} {position : ℕ} {value : UInt64}
      (buffer : input.buffers.get p.current = some haystack)
      (addressed : IsPosition test.relative test.offset (p.cursors p.current) position)
      (field : FieldAt haystack position test.bytes test.endian value)
      (holds : test.op.apply value test.value = !test.negated) :
      Step input bits p (.byteTest test) p
  | byteJump {jump : ByteJump} {haystack : List UInt8} {position destination : ℕ} {value : UInt64}
      (buffer : input.buffers.get p.current = some haystack)
      (addressed : IsPosition jump.relative jump.offset (p.cursors p.current) position)
      (field : FieldAt haystack position jump.bytes jump.endian value)
      (lands : jumpTarget jump position value = some destination)
      (inside : destination ≤ haystack.length) :
      Step input bits p (.byteJump jump) (p.moveTo p.current destination)
  | dsize {dsize : DsizeMatch} {haystack : List UInt8}
      (buffer : input.buffers.get p.current = some haystack)
      (size : dsize.matches haystack.length = true) : Step input bits p (.dsize dsize) p
  | normalized {condition : NormalizationCondition}
      (holds : normalizationMatches condition input.buffers.normalization = true) :
      Step input bits p (.normalized condition) p

def Progress.InBounds (input : MatchInput) (p : Progress) : Prop :=
  ∀ buffer haystack, input.buffers.get buffer = some haystack → p.cursors buffer ≤ haystack.length

theorem Progress.moveTo_cursor (p : Progress) (buffer : Buffer) :
    p.moveTo buffer (p.cursors buffer) = { p with current := buffer } := by
  rw [moveTo, Function.update_eq_self]

theorem Progress.InBounds.moveTo {p : Progress} (h : p.InBounds input) {buffer : Buffer}
    {cursor : ℕ}
    (hcursor : ∀ haystack, input.buffers.get buffer = some haystack → cursor ≤ haystack.length) :
    (p.moveTo buffer cursor).InBounds input := by
  intro other haystack hother
  rw [Progress.moveTo]
  by_cases heq : other = buffer
  · subst heq
    simpa only [Function.update_self] using hcursor haystack hother
  · simpa only [Function.update_of_ne heq] using h other haystack hother

def Regex.FindsInside (R : Regex) : Prop :=
  ∀ matcher haystack stop, R.find matcher haystack = some stop → stop ≤ haystack.length

theorem Step.inBounds {p q : Progress} {option : CompiledOption R} (hp : p.InBounds input)
    (h : Step input bits p option q) : q.InBounds input := by
  cases h with
  | content positive buffer stands =>
    refine hp.moveTo fun haystack hpresent => ?_
    rw [← Option.some.inj (buffer.symm.trans hpresent)]
    exact stands.occurs.le_length stands.ne_nil
  | notContent negated buffer nowhere => exact hp
  | pcre present start_eq found inside =>
    refine hp.moveTo fun haystack hpresent => ?_
    rw [← Option.some.inj (present.symm.trans hpresent)]
    exact inside
  | notPcre present nowhere => exact hp
  | flow established toServer => exact hp
  | isSet isSet => exact hp
  | isNotSet isNotSet => exact hp
  | write write => exact hp
  | byteTest buffer addressed field holds => exact hp
  | byteJump buffer addressed field lands inside =>
    refine hp.moveTo fun haystack hpresent => ?_
    rw [← Option.some.inj (buffer.symm.trans hpresent)]
    exact inside
  | dsize buffer size => exact hp
  | normalized holds => exact hp

theorem Step.sideEffects {p q : Progress} {option : CompiledOption R}
    (h : Step input bits p option q) : q.sideEffects = p.sideEffects ++ option.write.toList := by
  cases h with
  | write write => rw [write, Option.toList_some]
  | _ => exact (List.append_nil _).symm

theorem step_content {p q : Progress} {content : ContentMatch}
    (h : evalOption (R := R) input bits p (.content content) = some q) :
    Step (R := R) input bits p (.content content) q := by
  obtain ⟨haystack, hbuffer, hmatch⟩ := Option.bind_eq_some_iff.1 h
  obtain ⟨cursor, hcursor, rfl⟩ := Option.map_eq_some_iff.1 hmatch
  cases hnegated : content.negated with
  | false =>
    obtain ⟨hnone, -⟩ | ⟨position, hsome, hstands, -⟩ :=
      matchContent_positive hnegated haystack (p.cursors content.buffer)
    · rw [hnone] at hcursor
      exact absurd hcursor (by simp)
    · rw [hsome] at hcursor
      rw [← Option.some.inj hcursor]
      exact .content hnegated hbuffer hstands
  | true =>
    obtain ⟨hnone, -⟩ | ⟨hsome, hnowhere⟩ :=
      matchContent_negated hnegated haystack (p.cursors content.buffer)
    · rw [hnone] at hcursor
      exact absurd hcursor (by simp)
    · rw [hsome] at hcursor
      rw [← Option.some.inj hcursor, Progress.moveTo_cursor]
      exact .notContent hnegated hbuffer hnowhere

theorem step_pcre (hfind : R.FindsInside) {p q : Progress} (hp : p.InBounds input)
    {matcher : R.Matcher} {buffer : Buffer} {negated relative : Bool}
    (h : evalOption input bits p (.pcre matcher buffer negated relative) = some q) :
    Step input bits p (.pcre matcher buffer negated relative) q := by
  obtain ⟨haystack, hbuffer, hmatch⟩ := Option.bind_eq_some_iff.1 h
  obtain ⟨cursor, hcursor, rfl⟩ := Option.map_eq_some_iff.1 hmatch
  have hstart : (if relative then min (p.cursors buffer) haystack.length else 0) =
      if relative then p.cursors buffer else 0 := by
    rw [Nat.min_eq_left (hp buffer haystack hbuffer)]
  simp only [matchPcre, hstart] at hcursor
  cases hfound : R.find matcher (haystack.drop (if relative then p.cursors buffer else 0)) with
  | none =>
    rw [hfound] at hcursor
    cases negated with
    | false => exact absurd hcursor (by simp)
    | true =>
      rw [← Option.some.inj hcursor, Progress.moveTo_cursor]
      exact .notPcre hbuffer hfound
  | some stop =>
    rw [hfound] at hcursor
    cases negated with
    | true => exact absurd hcursor (by simp)
    | false =>
      rw [← Option.some.inj hcursor]
      refine .pcre hbuffer rfl hfound ?_
      have hstop := hfind matcher _ stop hfound
      have hcursors := hp buffer haystack hbuffer
      rw [List.length_drop] at hstop
      split_ifs at hstop ⊢ <;> omega

theorem step_byteTest {p q : Progress} {test : ByteTest}
    (h : evalOption (R := R) input bits p (.byteTest test) = some q) :
    Step (R := R) input bits p (.byteTest test) q := by
  obtain ⟨haystack, hbuffer, hmatch⟩ := Option.bind_eq_some_iff.1 h
  split_ifs at hmatch with htest
  rw [← Option.some.inj hmatch]
  obtain ⟨value, hvalue, hholds⟩ := (Option.any_eq_true _ _).1 htest
  obtain ⟨position, hposition, hread⟩ := Option.bind_eq_some_iff.1 hvalue
  refine .byteTest hbuffer (resolvePosition_eq_some.1 hposition) (readNumber_eq_some.1 hread) ?_
  exact Bool.eq_not_iff.2 (bne_iff_ne.1 hholds)

theorem step_byteJump {p q : Progress} {jump : ByteJump}
    (h : evalOption (R := R) input bits p (.byteJump jump) = some q) :
    Step (R := R) input bits p (.byteJump jump) q := by
  obtain ⟨haystack, hbuffer, hmatch⟩ := Option.bind_eq_some_iff.1 h
  obtain ⟨destination, hjump, rfl⟩ := Option.map_eq_some_iff.1 hmatch
  obtain ⟨position, hposition, hrest⟩ := Option.bind_eq_some_iff.1 hjump
  obtain ⟨value, hread, htarget⟩ := Option.bind_eq_some_iff.1 hrest
  obtain ⟨hlands, hinside⟩ := Option.filter_eq_some_iff.1 htarget
  exact .byteJump hbuffer (resolvePosition_eq_some.1 hposition) (readNumber_eq_some.1 hread) hlands
    (of_decide_eq_true hinside)

theorem matchFlow_iff (flow : FlowMatch) (input : MatchInput) :
    matchFlow flow input = true ↔
      (∀ established ∈ flow.established, established = input.established) ∧
        ∀ toServer ∈ flow.toServer, toServer = input.toServer := by
  simp [matchFlow, Option.all_eq_true]

theorem step_of_evalOption (hfind : R.FindsInside) {p q : Progress} (hp : p.InBounds input)
    {option : CompiledOption R} (hoption : option ≠ .flowBits .noAlert)
    (h : evalOption input bits p option = some q) : Step input bits p option q := by
  cases option with
  | content content => exact step_content h
  | pcre matcher buffer negated relative => exact step_pcre hfind hp h
  | flow flow =>
    rw [evalOption] at h
    split_ifs at h with hflow
    obtain ⟨hestablished, htoServer⟩ := (matchFlow_iff flow input).1 hflow
    rw [← Option.some.inj h]
    exact .flow hestablished htoServer
  | flowBits op =>
    cases op with
    | isSet name =>
      rw [evalOption] at h
      split_ifs at h with hset
      rw [← Option.some.inj h]
      exact .isSet (of_decide_eq_true hset)
    | isNotSet name =>
      rw [evalOption] at h
      split_ifs at h with hset
      rw [← Option.some.inj h]
      exact .isNotSet (of_decide_eq_false (Bool.not_eq_true _ ▸ hset))
    | noAlert => exact absurd rfl hoption
    | set name => exact Option.some.inj h ▸ .write rfl
    | unset name => exact Option.some.inj h ▸ .write rfl
    | toggle name => exact Option.some.inj h ▸ .write rfl
  | byteTest test => exact step_byteTest h
  | byteJump jump => exact step_byteJump h
  | dsize dsize =>
    obtain ⟨haystack, hbuffer, hmatch⟩ := Option.bind_eq_some_iff.1 h
    split_ifs at hmatch with hsize
    rw [← Option.some.inj hmatch]
    exact .dsize hbuffer hsize
  | normalized condition =>
    rw [evalOption] at h
    split_ifs at h with hholds
    rw [← Option.some.inj h]
    exact .normalized hholds

inductive Walk (input : MatchInput) (bits : FlowBits) :
    Progress → List (CompiledOption R) → Progress → Prop
  | done (p : Progress) : Walk input bits p [] p
  | step {p next q : Progress} {option : CompiledOption R} {options : List (CompiledOption R)}
      (first : Step input bits p option next) (rest : Walk input bits next options q) :
      Walk input bits p (option :: options) q

theorem Walk.sideEffects {p q : Progress} {options : List (CompiledOption R)}
    (h : Walk input bits p options q) :
    q.sideEffects = p.sideEffects ++ options.filterMap CompiledOption.write := by
  induction h with
  | done p => exact (List.append_nil _).symm
  | step first rest ih =>
    rw [ih, first.sideEffects, List.append_assoc, List.filterMap_cons]
    cases CompiledOption.write _ <;> rfl

theorem inBounds_start (input : MatchInput) : Progress.InBounds input {} :=
  fun _ _ _ => Nat.zero_le _

theorem inBounds_evalOption (hfind : R.FindsInside) {p q : Progress} (hp : p.InBounds input)
    {option : CompiledOption R} (h : evalOption input bits p option = some q) :
    q.InBounds input := by
  by_cases hoption : option = .flowBits .noAlert
  · subst hoption
    rw [← Option.some.inj h]
    exact hp
  · exact (step_of_evalOption hfind hp hoption h).inBounds hp

theorem inBounds_foldlM (hfind : R.FindsInside) {p q : Progress} (hp : p.InBounds input)
    {options : List (CompiledOption R)} (h : options.foldlM (evalOption input bits) p = some q) :
    q.InBounds input := by
  induction options generalizing p with
  | nil =>
    rw [← Option.some.inj h]
    exact hp
  | cons option rest ih =>
    rw [List.foldlM_cons] at h
    obtain ⟨next, hfirst, hrest⟩ := Option.bind_eq_some_iff.1 h
    exact ih (inBounds_evalOption hfind hp hfirst) hrest

theorem walk_of_foldlM (hfind : R.FindsInside) {p q : Progress} (hp : p.InBounds input)
    {options : List (CompiledOption R)} (hoptions : .flowBits .noAlert ∉ options)
    (h : options.foldlM (evalOption input bits) p = some q) : Walk input bits p options q := by
  induction options generalizing p with
  | nil =>
    rw [← Option.some.inj h]
    exact .done p
  | cons option rest ih =>
    rw [List.foldlM_cons] at h
    obtain ⟨next, hfirst, hrest⟩ := Option.bind_eq_some_iff.1 h
    have hstep := step_of_evalOption hfind hp
      (fun heq => hoptions (heq ▸ List.mem_cons_self)) hfirst
    exact .step hstep (ih (hstep.inBounds hp) (fun hmem => hoptions (List.mem_cons_of_mem _ hmem))
      hrest)

def searched (input : MatchInput) (p : Progress) :
    CompiledOption R → Option (List UInt8 × ℕ × ℕ)
  | .content content => (input.buffers.get content.buffer).map fun haystack =>
      (haystack, machineRegion content (p.cursors content.buffer) haystack.length)
  | .pcre _ buffer _ relative => (input.buffers.get buffer).map fun haystack =>
      (haystack, if relative then min (p.cursors buffer) haystack.length else 0, haystack.length)
  | _ => none

theorem machineRegion_le (content : ContentMatch) (cursor length : ℕ) :
    (machineRegion content cursor length).1 ≤ (machineRegion content cursor length).2 ∧
      (machineRegion content cursor length).2 ≤ length :=
  ⟨le_max_right _ _, max_le (min_le_right _ _) (min_le_right _ _)⟩

theorem searched_inside {p : Progress} {option : CompiledOption R} {haystack : List UInt8}
    {start stop : ℕ} (h : searched input p option = some (haystack, start, stop)) :
    start ≤ stop ∧ stop ≤ haystack.length := by
  cases option with
  | content content =>
    obtain ⟨bytes, -, heq⟩ := Option.map_eq_some_iff.1 h
    obtain ⟨rfl, hregion⟩ := Prod.mk.inj heq
    have hle := machineRegion_le content (p.cursors content.buffer) bytes.length
    rwa [hregion] at hle
  | pcre matcher buffer negated relative =>
    obtain ⟨bytes, -, heq⟩ := Option.map_eq_some_iff.1 h
    obtain ⟨rfl, hregion⟩ := Prod.mk.inj heq
    obtain ⟨rfl, rfl⟩ := Prod.mk.inj hregion
    refine ⟨?_, le_rfl⟩
    split_ifs
    · exact min_le_right _ _
    · exact Nat.zero_le _
  | _ => exact absurd h (by simp [searched])

theorem walk_of_evaluate (hfind : R.FindsInside) {rule : CompiledRule R} {bits : FlowBits}
    (hoptions : .flowBits .noAlert ∉ rule.options) {outcome : MatchOutcome}
    (h : evaluate rule input bits = some outcome) :
    rule.header.matches input.tuple = true ∧ (∃ q, Walk input bits {} rule.options q) ∧
      outcome.sideEffects = rule.options.filterMap CompiledOption.write := by
  rw [evaluate] at h
  split_ifs at h with hheader
  obtain ⟨q, hq, rfl⟩ := Option.map_eq_some_iff.1 h
  have hwalk := walk_of_foldlM hfind (inBounds_start input) hoptions hq
  exact ⟨hheader, ⟨q, hwalk⟩, hwalk.sideEffects⟩

/-- A rule that matches has its header match and a walk over its options, and its side effects are
its writes in order. Match or not, no cursor leaves its buffer and no slice is cut outside of one. A
parsed rule has no `noalert` among its options. -/
theorem evaluate_sound (rule : CompiledRule R) (input : MatchInput) (bits : FlowBits)
    (hfind : R.FindsInside) (hoptions : .flowBits .noAlert ∉ rule.options) :
    (∀ outcome, evaluate rule input bits = some outcome →
      rule.header.matches input.tuple = true ∧
      (∃ q, Walk input bits {} rule.options q) ∧
      outcome.sideEffects = rule.options.filterMap CompiledOption.write) ∧
    ∀ before after p, rule.options = before ++ after →
      before.foldlM (evalOption input bits) {} = some p →
      p.InBounds input ∧
      ∀ option ∈ after.head?, ∀ haystack start stop,
        searched input p option = some (haystack, start, stop) →
          start ≤ stop ∧ stop ≤ haystack.length := by
  refine ⟨fun outcome h => walk_of_evaluate hfind hoptions h, ?_⟩
  intro before after p _ hp
  exact ⟨inBounds_foldlM hfind (inBounds_start input) hp, fun _ _ _ _ _ => searched_inside⟩

theorem compileOptions_noAlert {limits : CompileLimits} {options : List RuleOption}
    {compiled : List (CompiledOption R)} (h : compileOptions R limits options = .ok compiled)
    (hoptions : .flowBits .noAlert ∉ options) : .flowBits .noAlert ∉ compiled := by
  induction options generalizing compiled with
  | nil =>
    rw [← Except.ok.inj h]
    exact List.not_mem_nil
  | cons option rest ih =>
    obtain ⟨first, others, hfirst, hrest, rfl⟩ := compileOptions_cons h
    rw [List.mem_cons, not_or] at hoptions
    rw [List.mem_cons, not_or]
    refine ⟨?_, ih hrest hoptions.2⟩
    rintro rfl
    cases option with
    | flowBits op =>
      have hop : op = .noAlert := CompiledOption.flowBits.inj (Except.ok.inj hfirst)
      exact hoptions.1 (congrArg RuleOption.flowBits hop.symm)
    | pcre p =>
      rw [compileOption] at hfirst
      split at hfirst
      · exact absurd (Except.ok.inj hfirst) (by simp)
      · exact absurd hfirst (by simp)
    | host host => exact absurd hfirst (by simp [compileOption])
    | _ => exact absurd (Except.ok.inj hfirst) (by simp)

/-- A rule that was parsed and compiled has a walk wherever it matches. -/
theorem walk_of_parsed (hfind : R.FindsInside) {text : Texts.Text} {parsed : ParsedRule}
    (hparse : parseRule text = .ok parsed) {resolve : HeaderResolver} {limits : CompileLimits}
    {rule : CompiledRule R} (hcompile : compileRule R resolve limits parsed.toRule = .ok rule)
    {bits : FlowBits} {outcome : MatchOutcome} (h : evaluate rule input bits = some outcome) :
    rule.header.matches input.tuple = true ∧ (∃ q, Walk input bits {} rule.options q) ∧
      outcome.sideEffects = rule.options.filterMap CompiledOption.write := by
  obtain ⟨-, -, -, -, hoptions⟩ := compileRule_spec hcompile
  exact walk_of_evaluate hfind (compileOptions_noAlert hoptions (parseRule_noAlert hparse)) h

def Regex.literal : Regex where
  Matcher := List UInt8
  build p _ := .ok (p.source.toUTF8.toList)
  find pattern haystack :=
    (Detect.find haystack pattern false).map (fun start => start + pattern.length)

theorem findsInside_literal : Regex.literal.FindsInside := by
  intro pattern haystack stop h
  obtain ⟨start, hstart, rfl⟩ := Option.map_eq_some_iff.1 h
  have hne : pattern ≠ ([] : List UInt8) :=
    ((find_isSome_iff haystack pattern false).1 (by rw [hstart]; rfl)).1
  obtain ⟨hnone, -⟩ | ⟨i, hsome, hoccurs, -⟩ := find_cases haystack hne false
  · rw [hnone] at hstart
    exact absurd hstart (by simp)
  · rw [hsome] at hstart
    rw [← Option.some.inj hstart]
    exact hoccurs.le_length hne

/-- `content:"ab"; byte_jump:1,0,relative; pcre:"/cd/R"; content:!"xy"; dsize:>4;
flowbits:set,seen`. -/
def jumpRule : CompiledRule Regex.literal where
  sid := 1
  rev := 1
  msg := "m"
  classtype := none
  severity := 3
  blocks := false
  metadata := []
  header := ⟨.tcp, .everything, .everything, .everything, .everything, false⟩
  options := [.content { pattern := [0x61, 0x62] },
    .byteJump ⟨1, 0, true, 1, .big, 0⟩,
    .pcre ([0x63, 0x64] : List UInt8) .payload false true,
    .content { pattern := [0x78, 0x79], negated := true },
    .dsize ⟨.greater, 4, none⟩,
    .flowBits (.set "seen")]
  threshold := none
  noAlert := false
  needsHttp := false
  origin := "<inline>"

/-- The rule above walks over `ab`, the byte 1, a byte that the jump leaves out, and `cd`. -/
theorem evaluate_sound_jump :
    let input : MatchInput := ⟨⟨.v4 1, some 1, .v4 2, some 2, .tcp⟩, true, true,
      { payload := [0x61, 0x62, 1, 0x63, 0x63, 0x64] }⟩
    (∃ q, Walk input {} {} jumpRule.options q) ∧
      (evaluate jumpRule input {}).map MatchOutcome.sideEffects = some [.set "seen"] := by
  intro input
  have heval : evaluate jumpRule input {} = some ⟨[.set "seen"]⟩ := by decide +kernel
  have hsound := (evaluate_sound jumpRule input {} findsInside_literal
    (by simp [jumpRule])).1 _ heval
  exact ⟨hsound.2.1, by rw [heval]; rfl⟩

end CyberSentinel.Detect
