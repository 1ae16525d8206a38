import CyberSentinel.Frames
import CyberSentinel.Http
import CyberSentinel.Runs

/-!
# Requests in a cut stream

The heads of a stream are frames that end with `\r\n\r\n` or `\n\n`. As long as no head outgrows the
cap, the parser returns the requests of the heads however the stream is cut. A head that does
outgrow it is given up at a cut; what the parser then skips is the rest of that head, unless the cut
falls inside its terminator, where it is the rest and the whole next head.
-/

namespace CyberSentinel

open Frames

/-! ### Heads -/

def crlfTerminator : List UInt8 := [carriageReturn, lineFeed, carriageReturn, lineFeed]

def lfTerminator : List UInt8 := [lineFeed, lineFeed]

def EndsHead (s : List UInt8) : Prop := crlfTerminator <:+ s ∨ lfTerminator <:+ s

instance (s : List UInt8) : Decidable (EndsHead s) := inferInstanceAs (Decidable (_ ∨ _))

theorem not_endsHead_nil : ¬ EndsHead [] := by decide

/-- A window is the terminator where the bytes up to its end end with it. -/
theorem slice_eq_iff_suffix {s pattern : List UInt8} {i : ℕ} (h : i + pattern.length ≤ s.length) :
    Bytes.slice s i (i + pattern.length) = pattern ↔ pattern <:+ s.take (i + pattern.length) := by
  have hlength : (s.take (i + pattern.length)).length = i + pattern.length := by
    rw [List.length_take]
    omega
  constructor
  · intro heq
    nth_rewrite 1 [← heq]
    exact List.drop_suffix _ _
  · intro hsuffix
    rw [List.suffix_iff_eq_drop, hlength, Nat.add_sub_cancel] at hsuffix
    exact hsuffix.symm

section Windows

variable {s : List UInt8} (pattern : List UInt8) {e : ℕ}

theorem suffix_take_position (hsuffix : pattern <:+ s.take e) (he : e ≤ s.length) :
    ∃ i, e = i + pattern.length ∧ Bytes.slice s i (i + pattern.length) = pattern := by
  have hle := hsuffix.length_le
  rw [List.length_take, min_eq_left he] at hle
  have heq : e - pattern.length + pattern.length = e := by omega
  refine ⟨e - pattern.length, heq.symm, ?_⟩
  rw [slice_eq_iff_suffix (by omega), heq]
  exact hsuffix

theorem suffix_of_windowPosition {i : ℕ}
    (h : Search.windowPosition s pattern.length (fun w => w == pattern) = some i) :
    i + pattern.length ≤ s.length ∧ pattern <:+ s.take (i + pattern.length) := by
  obtain ⟨hle, hwindow⟩ := Search.windowPosition_eq_some h
  exact ⟨hle, (slice_eq_iff_suffix hle).1 (eq_of_beq hwindow)⟩

theorem not_suffix_before {i : ℕ}
    (h : Search.windowPosition s pattern.length (fun w => w == pattern) = some i)
    (he : e < i + pattern.length) : ¬ pattern <:+ s.take e := by
  intro hsuffix
  have hle := (suffix_of_windowPosition pattern h).1
  obtain ⟨j, hj, hslice⟩ := suffix_take_position pattern hsuffix (by omega)
  have hfalse := Search.windowPosition_first (j := j) h (by omega)
  rw [hslice, beq_self_eq_true] at hfalse
  exact absurd hfalse (by simp)

theorem not_suffix_of_windowPosition_none
    (h : Search.windowPosition s pattern.length (fun w => w == pattern) = none)
    (he : e ≤ s.length) : ¬ pattern <:+ s.take e := by
  intro hsuffix
  obtain ⟨j, hj, hslice⟩ := suffix_take_position pattern hsuffix he
  have hsome := @Search.windowPosition_isSome _ s pattern.length (fun w =>
    w == pattern) j (by omega)
    (by rw [hslice, beq_self_eq_true])
  rw [h] at hsome
  exact absurd hsome (by simp)

end Windows

/-- The end of the first head, by cases on which of the terminators is there. -/
theorem findHeadEnd_cases (s : List UInt8) :
    (findHeadEnd s = none ∧ ∀ e ≤ s.length, ¬ EndsHead (s.take e)) ∨
      ∃ n, findHeadEnd s = some n ∧ n ≤ s.length ∧ EndsHead (s.take n) ∧
        ∀ e < n, ¬ EndsHead (s.take e) := by
  have hend : findHeadEnd s = Option.merge min
      ((Search.windowPosition s 4 (fun w => w == crlfTerminator)).map (fun p => p + 4))
      ((Search.windowPosition s 2 (fun w => w == lfTerminator)).map (fun p => p + 2)) := by
    unfold findHeadEnd crlfTerminator lfTerminator
    cases Search.windowPosition s 4
        (fun w => w == [carriageReturn, lineFeed, carriageReturn, lineFeed]) <;>
      cases Search.windowPosition s 2 (fun w => w == [lineFeed, lineFeed]) <;> rfl
  cases hcrlf : Search.windowPosition s 4 (fun w => w == crlfTerminator) with
  | none =>
    have hnot (e : ℕ) := not_suffix_of_windowPosition_none crlfTerminator (e := e) hcrlf
    cases hlf : Search.windowPosition s 2 (fun w => w == lfTerminator) with
    | none =>
      refine Or.inl ⟨by rw [hend, hcrlf, hlf]; rfl, ?_⟩
      intro e he hends
      rcases hends with hends | hends
      · exact hnot e he hends
      · exact not_suffix_of_windowPosition_none lfTerminator hlf he hends
    | some b =>
      obtain ⟨hle, hsuffix⟩ := suffix_of_windowPosition lfTerminator hlf
      refine Or.inr ⟨b + 2, by rw [hend, hcrlf, hlf]; rfl, hle,
        Or.inr hsuffix, ?_⟩
      intro e he hends
      rcases hends with hends | hends
      · exact hnot e (he.le.trans hle) hends
      · exact not_suffix_before lfTerminator hlf he hends
  | some a =>
    obtain ⟨hle, hsuffix⟩ := suffix_of_windowPosition crlfTerminator hcrlf
    cases hlf : Search.windowPosition s 2 (fun w => w == lfTerminator) with
    | none =>
      refine Or.inr ⟨a + 4, by rw [hend, hcrlf, hlf]; rfl, hle,
        Or.inl hsuffix, ?_⟩
      intro e he hends
      rcases hends with hends | hends
      · exact not_suffix_before crlfTerminator hcrlf he hends
      · exact not_suffix_of_windowPosition_none lfTerminator hlf (he.le.trans hle) hends
    | some b =>
      obtain ⟨hle', hsuffix'⟩ := suffix_of_windowPosition lfTerminator hlf
      refine Or.inr ⟨min (a + 4) (b + 2), by rw [hend, hcrlf, hlf]; rfl,
        (min_le_left _ _).trans hle, ?_, ?_⟩
      · rcases min_choice (a + 4) (b + 2) with hmin | hmin
        · rw [hmin]
          exact Or.inl hsuffix
        · rw [hmin]
          exact Or.inr hsuffix'
      · intro e he hends
        rcases hends with hends | hends
        · exact not_suffix_before crlfTerminator hcrlf
            (he.trans_le (min_le_left _ _)) hends
        · exact not_suffix_before lfTerminator hlf
            (he.trans_le (min_le_right _ _)) hends

theorem findHeadEnd_eq_none {s : List UInt8} (h : findHeadEnd s = none) :
    Incomplete EndsHead s := by
  rcases findHeadEnd_cases s with ⟨_, hnot⟩ | ⟨n, hsome, _⟩
  · intro p hp
    rw [List.prefix_iff_eq_take.1 hp]
    exact hnot _ hp.length_le
  · rw [h] at hsome
    exact absurd hsome (by simp)

theorem findHeadEnd_eq_some {s : List UInt8} {n : ℕ} (h : findHeadEnd s = some n) :
    IsFrame EndsHead (s.take n) := by
  rcases findHeadEnd_cases s with ⟨hnone, _⟩ | ⟨m, hsome, hle, hends, hfirst⟩
  · rw [h] at hnone
    exact absurd hnone (by simp)
  · rw [h, Option.some.injEq] at hsome
    subst hsome
    refine ⟨hends, ?_⟩
    intro p hp hne
    have hlt : p.length < n := by
      have hlength := hp.length_le
      rw [List.length_take, min_eq_left hle] at hlength
      refine lt_of_le_of_ne hlength (fun heq => hne (hp.eq_of_length ?_))
      rw [heq, List.length_take, min_eq_left hle]
    rw [List.prefix_iff_eq_take.1 (hp.trans (List.take_prefix n s))]
    exact hfirst _ hlt

theorem isFrame_of_findHeadEnd {s : List UInt8} (h : findHeadEnd s = some s.length) :
    IsFrame EndsHead s := by
  have hframe := findHeadEnd_eq_some h
  rwa [List.take_length] at hframe

/-! ### One push -/

namespace HttpParser

/-- What a push comes to, by the heads and the rest of the bytes it works on. The first head is
skipped by a parser that has given one up, and a rest beyond the cap is given up. -/
structure Took (options : NormalizeConfig) (heads : List (List UInt8)) (rest : List UInt8)
    (p q : HttpParser) (requests : List HttpRequest) : Prop where
  requests_eq : requests = (if p.resynchronising then heads.tail else heads).filterMap
    (fun head => parseHead head options)
  buffer_eq : q.buffer = if p.maxHead < rest.length then [] else rest
  maxHead_eq : q.maxHead = p.maxHead
  resynchronising_eq : q.resynchronising =
    (p.resynchronising && heads.isEmpty || decide (p.maxHead < rest.length))
  oversized_eq : q.counters.oversized =
    p.counters.oversized + if p.maxHead < rest.length then 1 else 0

theorem holdHead_took (options : NormalizeConfig) (p : HttpParser) :
    Took options [] p.buffer p p.holdHead [] := by
  unfold holdHead
  by_cases hlong : p.maxHead < p.buffer.length
  · rw [if_pos hlong]
    constructor <;> simp [hlong]
  · rw [if_neg hlong]
    constructor <;> simp [hlong]

/-- Taking a head keeps the cap and the count of heads given up, and the next head is read. -/
theorem takeHead_fields (p : HttpParser) (length : ℕ) (options : NormalizeConfig) :
    (p.takeHead length options).1.maxHead = p.maxHead ∧
      (p.takeHead length options).1.resynchronising = false ∧
      (p.takeHead length options).1.counters.oversized = p.counters.oversized ∧
      (p.takeHead length options).2 =
        if p.resynchronising then none else parseHead (p.buffer.take length) options := by
  unfold takeHead
  cases hresync : p.resynchronising with
  | true => simp
  | false => cases parseHead (p.buffer.take length) options <;> simp

theorem takeHeads_took (options : NormalizeConfig) {rounds : ℕ} {p : HttpParser}
    (hrounds : p.buffer.length ≤ rounds) {heads : List (List UInt8)} {rest : List UInt8}
    (h : Split EndsHead p.buffer heads rest) :
    Took options heads rest p (takeHeads options rounds p).1 (takeHeads options rounds p).2 := by
  induction rounds generalizing p heads with
  | zero =>
    have hempty : p.buffer = [] := List.length_eq_zero_iff.1 (Nat.le_zero.1 hrounds)
    have hincomplete : Incomplete EndsHead p.buffer := by
      intro q hq
      rw [hempty, List.prefix_nil] at hq
      exact hq ▸ not_endsHead_nil
    obtain ⟨rfl, rfl⟩ := h.unique ((split_nil _).2 hincomplete)
    exact holdHead_took options p
  | succ rounds ih =>
    rw [takeHeads]
    cases hend : findHeadEnd p.buffer with
    | none =>
      obtain ⟨rfl, rfl⟩ := h.unique ((split_nil _).2 (findHeadEnd_eq_none hend))
      exact holdHead_took options p
    | some n =>
      have hpos := findHeadEnd_pos hend
      obtain ⟨heads', rest', h'⟩ := exists_split not_endsHead_nil (p.buffer.drop n)
      have hcons := h'.cons (findHeadEnd_eq_some hend)
      rw [List.take_append_drop] at hcons
      obtain ⟨rfl, rfl⟩ := h.unique hcons
      obtain ⟨hmax, hresync, hoversized, hrequest⟩ := p.takeHead_fields n options
      have htook := @ih (p.takeHead n options).1 (by rw [takeHead_buffer, List.length_drop]; omega)
        heads' (by rw [takeHead_buffer]; exact h')
      constructor
      · simp only [htook.requests_eq, hresync, hrequest, Bool.false_eq_true, if_false]
        cases p.resynchronising with
        | true => simp
        | false =>
          simp only [Bool.false_eq_true, if_false, List.filterMap_cons]
          cases parseHead (p.buffer.take n) options <;> rfl
      · rw [htook.buffer_eq, hmax]
      · rw [htook.maxHead_eq, hmax]
      · rw [htook.resynchronising_eq, hmax, hresync]
        simp
      · rw [htook.oversized_eq, hmax, hoversized]

theorem push_took (options : NormalizeConfig) (p : HttpParser) (bytes : List UInt8)
    {heads : List (List UInt8)} {rest : List UInt8}
    (h : Split EndsHead (p.buffer ++ bytes) heads rest) :
    Took options heads rest p (p.push bytes options).1 (p.push bytes options).2 := by
  have htook := takeHeads_took options (p := { p with buffer := p.buffer ++ bytes }) le_rfl h
  exact ⟨htook.requests_eq, htook.buffer_eq, htook.maxHead_eq, htook.resynchronising_eq,
    htook.oversized_eq⟩

/-- Whatever is pushed, no more than the cap is held, and no complete head. -/
theorem push_buffer (options : NormalizeConfig) (p : HttpParser) (bytes : List UInt8) :
    (p.push bytes options).1.buffer.length ≤ (p.push bytes options).1.maxHead ∧
      Incomplete EndsHead (p.push bytes options).1.buffer := by
  obtain ⟨heads, rest, h⟩ := exists_split not_endsHead_nil (p.buffer ++ bytes)
  have htook := push_took options p bytes h
  rw [htook.buffer_eq, htook.maxHead_eq]
  by_cases hlong : p.maxHead < rest.length
  · rw [if_pos hlong]
    exact ⟨Nat.zero_le _, h.rest.of_prefix (List.nil_prefix)⟩
  · rw [if_neg hlong]
    exact ⟨not_lt.1 hlong, h.rest⟩

/-! ### Any cut -/

def pushAll (options : NormalizeConfig) (p : HttpParser) (pieces : List (List UInt8)) :
    HttpParser × List (List HttpRequest) :=
  Runs.run (fun p bytes => p.push bytes options) p pieces

/-- A parser that has given up no head and whose stream has none that outgrows the cap returns the
requests of all heads. -/
theorem pushAll_requests (options : NormalizeConfig) {p : HttpParser} {pieces : List (List UInt8)}
    {heads : List (List UInt8)} {rest : List UInt8} (hsync : p.resynchronising = false)
    (hbuffer : Incomplete EndsHead p.buffer)
    (h : Split EndsHead (p.buffer ++ pieces.flatten) heads rest)
    (hheads : ∀ head ∈ heads, head.length ≤ p.maxHead) (hrest : rest.length ≤ p.maxHead) :
    (pushAll options p pieces).2.flatten = heads.filterMap
    (fun head => parseHead head options) := by
  induction pieces generalizing p heads with
  | nil =>
    rw [List.flatten_nil, List.append_nil] at h
    obtain ⟨rfl, _⟩ := h.unique ((split_nil _).2 hbuffer)
    rfl
  | cons bytes pieces ih =>
    rw [List.flatten_cons, ← List.append_assoc] at h
    obtain ⟨first, left, hfirst⟩ := exists_split not_endsHead_nil (p.buffer ++ bytes)
    obtain ⟨others, rfl, hothers⟩ := hfirst.of_append not_endsHead_nil h
    have hleft : left.length ≤ p.maxHead := hfirst.rest.length_le hothers
      (fun head hhead => hheads head (List.mem_append_right _ hhead)) hrest
    have htook := push_took options p bytes hfirst
    have hheld : (p.push bytes options).1.buffer = left := by
      rw [htook.buffer_eq, if_neg (not_lt.2 hleft)]
    have hagain := @ih (p.push bytes options).1 others
      (by rw [htook.resynchronising_eq, hsync]; simp [hleft])
      (by rw [hheld]; exact hfirst.rest) (by rw [hheld]; exact hothers)
      (by rw [htook.maxHead_eq]; exact fun head hhead => hheads head (List.mem_append_right _
        hhead))
      (by rw [htook.maxHead_eq]; exact hrest)
    have hrequests := htook.requests_eq
    rw [hsync, if_neg (by simp)] at hrequests
    rw [pushAll, Runs.run_cons, List.flatten_cons, List.filterMap_append, ← hrequests, ← hagain]
    rfl

theorem new_buffer_incomplete (maxHead : ℕ) : Incomplete EndsHead (new maxHead).buffer := by
  intro q hq
  rw [List.prefix_nil.1 hq]
  exact not_endsHead_nil

/-- Every stream whose heads and whose rest keep to the cap is read alike however it is cut, and
whatever is pushed, a parser holds at most the cap and no complete head. -/
theorem requests_of_any_cut (maxHead : ℕ) (options : NormalizeConfig) :
    (∀ (pieces heads : List (List UInt8)) (rest : List UInt8),
      Split EndsHead pieces.flatten heads rest →
      (∀ head ∈ heads, head.length ≤ (new maxHead).maxHead) →
      rest.length ≤ (new maxHead).maxHead →
      (pushAll options (new maxHead) pieces).2.flatten =
        ((new maxHead).push pieces.flatten options).2) ∧
    ∀ pieces bytes,
      let p := (pushAll options (new maxHead) (pieces ++ [bytes])).1
      p.buffer.length ≤ (new maxHead).maxHead ∧ ∀ head, head <+: p.buffer → ¬ EndsHead head := by
  constructor
  · intro pieces heads rest h hheads hrest
    have hcut := pushAll_requests options rfl (new_buffer_incomplete maxHead) h hheads hrest
    have hwhole := @pushAll_requests options _ [pieces.flatten] _ _ rfl
      (new_buffer_incomplete maxHead) (by simpa [new] using h) hheads hrest
    rw [hcut, ← hwhole]
    simp [pushAll]
  · intro pieces bytes p
    have hlast : p = ((pushAll options (new maxHead) pieces).1.push bytes options).1 := by
      simp only [p, pushAll, Runs.run_append, Runs.run_cons, Runs.run_nil]
    have hmax : ∀ ps, (pushAll options (new maxHead) ps).1.maxHead = (new maxHead).maxHead := by
      intro ps
      apply Runs.invariant _ (fun q : HttpParser => q.maxHead = (new maxHead).maxHead) _ rfl
      intro q d hq
      obtain ⟨heads, rest, h⟩ := exists_split not_endsHead_nil (q.buffer ++ d)
      rw [(push_took options q d h).maxHead_eq, hq]
    have hpush := push_buffer options (pushAll options (new maxHead) pieces).1 bytes
    rw [← hlast] at hpush
    exact ⟨hpush.1.trans (hmax _).le, hpush.2⟩

/-- `GET /`, with its terminator. -/
def sampleRequest : List UInt8 := [0x47, 0x45, 0x54, 0x20, 0x2f] ++ crlfTerminator

theorem isFrame_sampleRequest : IsFrame EndsHead sampleRequest :=
  isFrame_of_findHeadEnd (by decide)

/-- A request cut inside its terminator. -/
theorem requests_of_any_cut_one_request :
    (pushAll {} (new 64) [sampleRequest.take 7, sampleRequest.drop 7]).2.flatten =
      ((new 64).push sampleRequest {}).2 := by
  have hsplit : Split EndsHead (sampleRequest ++ []) [sampleRequest] [] :=
    Split.cons isFrame_sampleRequest ((split_nil _).2 (new_buffer_incomplete 64))
  refine (requests_of_any_cut 64 {}).1 [sampleRequest.take 7, sampleRequest.drop 7]
    [sampleRequest] []
    ?_ ?_ (Nat.zero_le _)
  · simpa using hsplit
  · simp [sampleRequest, crlfTerminator, new]

/-! ### Cuts inside a terminator -/

end HttpParser

def terminatorLength (head : List UInt8) : ℕ := if crlfTerminator <:+ head then 4 else 2

theorem EndsHead.append_left {s : List UInt8} (h : EndsHead s) (t : List UInt8) :
    EndsHead (t ++ s) := by
  rcases h with h | h
  · exact Or.inl (h.trans (List.suffix_append t s))
  · exact Or.inr (h.trans (List.suffix_append t s))

theorem incomplete_drop {s : List UInt8} (h : Incomplete EndsHead s) (n : ℕ) :
    Incomplete EndsHead (s.drop n) := by
  intro p hp hends
  apply h (s.take n ++ p) _ (hends.append_left _)
  have hbegins : s.take n ++ p <+: s.take n ++ s.drop n := (List.prefix_append_right_inj _).2 hp
  rwa [List.take_append_drop] at hbegins

/-- What is left of a head after a cut before its terminator is a head. -/
theorem isFrame_drop {head : List UInt8} (h : IsFrame EndsHead head) {n : ℕ}
    (hn : n + terminatorLength head ≤ head.length) : IsFrame EndsHead (head.drop n) := by
  constructor
  · unfold terminatorLength at hn
    by_cases hcrlf : crlfTerminator <:+ head
    · rw [if_pos hcrlf] at hn
      refine Or.inl (List.suffix_of_suffix_length_le hcrlf (List.drop_suffix _ _) ?_)
      rw [List.length_drop]
      change 4 ≤ _
      omega
    · rw [if_neg hcrlf] at hn
      refine Or.inr (List.suffix_of_suffix_length_le (h.complete.resolve_left hcrlf)
        (List.drop_suffix _ _) ?_)
      rw [List.length_drop]
      change 2 ≤ _
      omega
  · intro p hp hne hends
    apply h.first (head.take n ++ p) _ _ (hends.append_left _)
    · have hbegins : head.take n ++ p <+: head.take n ++ head.drop n :=
        (List.prefix_append_right_inj _).2 hp
      rwa [List.take_append_drop] at hbegins
    · intro heq
      nth_rewrite 2 [← List.take_append_drop n head] at heq
      exact hne (List.append_cancel_left heq)

theorem leftover_cases {head : List UInt8} (h : IsFrame EndsHead head) {n : ℕ}
    (hn : n < head.length) (hcut : head.length < n + terminatorLength head) :
    head.drop n = [lineFeed] ∨ head.drop n = [carriageReturn, lineFeed] ∨
      head.drop n = [lineFeed, carriageReturn, lineFeed] := by
  have hdrop {pattern : List UInt8} (hsuffix : pattern <:+ head)
      (hm : head.length - pattern.length ≤ n) :
      head.drop n = pattern.drop (n - (head.length - pattern.length)) := by
    obtain ⟨front, rfl⟩ := hsuffix
    rw [List.length_append, Nat.add_sub_cancel] at hm ⊢
    rw [List.drop_append, List.drop_eq_nil_of_le hm, List.nil_append]
  unfold terminatorLength at hcut
  by_cases hcrlf : crlfTerminator <:+ head
  · rw [if_pos hcrlf] at hcut
    have hle : 4 ≤ head.length := hcrlf.length_le
    have hk : head.drop n = crlfTerminator.drop (n - (head.length - 4)) :=
      hdrop hcrlf (by change _ - 4 ≤ _; omega)
    have hcases : n - (head.length - 4) = 1 ∨ n - (head.length - 4) = 2 ∨
        n - (head.length - 4) = 3 := by omega
    rcases hcases with hj | hj | hj
    · exact Or.inr (Or.inr (by rw [hk, hj]; rfl))
    · exact Or.inr (Or.inl (by rw [hk, hj]; rfl))
    · exact Or.inl (by rw [hk, hj]; rfl)
  · rw [if_neg hcrlf] at hcut
    have hlf := h.complete.resolve_left hcrlf
    have hle : 2 ≤ head.length := hlf.length_le
    have hk : head.drop n = lfTerminator.drop (n - (head.length - 2)) :=
      hdrop hlf (by change _ - 2 ≤ _; omega)
    have hj : n - (head.length - 2) = 1 := by omega
    exact Or.inl (by rw [hk, hj]; rfl)

structure IsRequest (options : NormalizeConfig) (head : List UInt8) : Prop where
  frame : IsFrame EndsHead head
  parses : (parseHead head options).isSome = true

theorem IsRequest.start {options : NormalizeConfig} {head : List UInt8}
    (h : IsRequest options head) :
    ¬ [lineFeed] <+: head ∧ ¬ [carriageReturn, lineFeed] <+: head := by
  have hparses := h.parses
  constructor
  · rintro ⟨rest, hrest⟩
    rw [← hrest] at hparses
    simp [parseHead, List.splitOn, List.splitOnP_cons_eq_if_modifyHead, Http.trim] at hparses
  · rintro ⟨rest, hrest⟩
    rw [← hrest] at hparses
    have hsplit : ([carriageReturn, lineFeed] ++ rest).splitOn lineFeed =
        [carriageReturn] :: rest.splitOn lineFeed := by
      simp [List.splitOn, List.splitOnP_cons_eq_if_modifyHead, carriageReturn, lineFeed]
    have hblank : Http.trim [carriageReturn] = [] := by decide
    rw [parseHead, hsplit] at hparses
    simp [hblank] at hparses

theorem incomplete_of_inits {s : List UInt8} (h : ∀ p ∈ s.inits, ¬ EndsHead p) :
    Incomplete EndsHead s := fun p hp => h p (List.mem_inits p s |>.2 hp)

def IsLeftover (t : List UInt8) : Prop :=
  t = [lineFeed] ∨ t = [carriageReturn, lineFeed] ∨ t = [lineFeed, carriageReturn, lineFeed]

theorem IsLeftover.incomplete {t : List UInt8} (h : IsLeftover t) : Incomplete EndsHead t := by
  apply incomplete_of_inits
  rcases h with rfl | rfl | rfl <;> decide

/-- No terminator is made of the end of a leftover and the start of a request. -/
theorem IsLeftover.not_endsHead {t p : List UInt8} (h : IsLeftover t) (hp : p ≠ [])
    (hlf : ¬ [lineFeed] <+: p) (hcrlf : ¬ [carriageReturn, lineFeed] <+: p) (hends : ¬ EndsHead p) :
    ¬ EndsHead (t ++ p) := by
  have hne : carriageReturn ≠ lineFeed := by decide
  intro hends'
  rcases hends' with hsuffix | hsuffix
  · by_cases hlength : 4 ≤ p.length
    · exact hends (Or.inl (List.suffix_of_suffix_length_le hsuffix
        (List.suffix_append t p) hlength))
    · -- the bytes of the terminator that are in the leftover leave no choice for those in `p`
      match p with
      | [] => exact hp rfl
      | [a] =>
        rcases h with rfl | rfl | rfl <;>
          simp [crlfTerminator, List.suffix_cons_iff, hne] at hsuffix
      | [a, b] =>
        rcases h with rfl | rfl | rfl <;>
          simp [crlfTerminator, List.suffix_cons_iff] at hsuffix hcrlf
        · exact hcrlf hsuffix.1 hsuffix.2
        · exact hcrlf hsuffix.1 hsuffix.2
      | [a, b, c] =>
        rcases h with rfl | rfl | rfl <;>
          simp [crlfTerminator, List.suffix_cons_iff, hne] at hsuffix hlf
      | _ :: _ :: _ :: _ :: _ => simp at hlength
  · by_cases hlength : 2 ≤ p.length
    · exact hends (Or.inr (List.suffix_of_suffix_length_le hsuffix
        (List.suffix_append t p) hlength))
    · match p with
      | [] => exact hp rfl
      | [a] =>
        rcases h with rfl | rfl | rfl <;>
          simp [lfTerminator, List.suffix_cons_iff] at hsuffix hlf <;> exact hlf hsuffix
      | _ :: _ :: _ => simp at hlength

theorem IsLeftover.isFrame {t head : List UInt8} {options : NormalizeConfig} (h : IsLeftover t)
    (hhead : IsRequest options head) : IsFrame EndsHead (t ++ head) := by
  refine ⟨hhead.frame.complete.append_left t, ?_⟩
  intro p hp hne
  rcases List.prefix_or_prefix_of_prefix hp (List.prefix_append t head) with hbegins | ⟨q, rfl⟩
  · exact h.incomplete p hbegins
  · have hq : q <+: head := (List.prefix_append_right_inj t).1 hp
    have hqne : q ≠ head := fun heq => hne (by rw [heq])
    by_cases hempty : q = []
    · rw [hempty, List.append_nil]
      exact h.incomplete t (List.prefix_refl t)
    · exact h.not_endsHead hempty (fun hlf => hhead.start.1 (hlf.trans hq))
        (fun hcrlf => hhead.start.2 (hcrlf.trans hq)) (hhead.frame.first q hq hqne)

/-! ### A head that is given up -/

namespace HttpParser

variable {options : NormalizeConfig} {p : HttpParser}

/-- A stream without a complete head returns nothing, given up or not. -/
theorem pushAll_of_incomplete {pieces : List (List UInt8)}
    (h : Incomplete EndsHead (p.buffer ++ pieces.flatten)) :
    (pushAll options p pieces).2.flatten = [] := by
  induction pieces generalizing p with
  | nil => rfl
  | cons bytes pieces ih =>
    rw [List.flatten_cons, ← List.append_assoc] at h
    have hbytes := h.of_prefix (List.prefix_append _ _)
    have htook := push_took options p bytes ((split_nil _).2 hbytes)
    have hagain := @ih (p.push bytes options).1 (by
      rw [htook.buffer_eq]
      split_ifs
      · have hdrop := incomplete_drop h (p.buffer ++ bytes).length
        rwa [List.drop_left] at hdrop
      · exact h)
    have hrequests := htook.requests_eq
    rw [List.tail_nil, ite_self, List.filterMap_nil] at hrequests
    rw [pushAll, Runs.run_cons, List.flatten_cons, hrequests, List.nil_append]
    exact hagain

/-- The push that completes the head to skip, and those after it: all other heads are returned. -/
theorem pushAll_skip {bytes : List UInt8} {pieces : List (List UInt8)} {head : List UInt8}
    {heads : List (List UInt8)} (hresync : p.resynchronising = true)
    (h : Split EndsHead (p.buffer ++ (bytes :: pieces).flatten) (head :: heads) [])
    (hlength : head.length ≤ (p.buffer ++ bytes).length)
    (hheads : ∀ k ∈ heads, k.length ≤ p.maxHead) :
    (pushAll options p (bytes :: pieces)).2.flatten =
      heads.filterMap (fun k => parseHead k options) := by
  rw [List.flatten_cons, ← List.append_assoc] at h
  obtain ⟨first, left, hfirst⟩ := exists_split not_endsHead_nil (p.buffer ++ bytes)
  obtain ⟨others, heq, hothers⟩ := hfirst.of_append not_endsHead_nil h
  cases first with
  | nil =>
    -- the head would be longer than what has come
    have hbuffer : p.buffer ++ bytes = left := hfirst.eq
    rw [List.nil_append] at heq
    rw [← heq, ← hbuffer] at hothers
    exact absurd (hbuffer ▸ hfirst.rest.length_lt (hbuffer ▸ hothers)) (not_lt.2 hlength)
  | cons k first =>
    rw [List.cons_append] at heq
    obtain ⟨rfl, rfl⟩ := List.cons.inj heq
    have hleft : left.length ≤ p.maxHead := hfirst.rest.length_le hothers
      (fun k' hk' => hheads k' (List.mem_append_right _ hk')) (Nat.zero_le _)
    have htook := push_took options p bytes hfirst
    have hheld : (p.push bytes options).1.buffer = left := by
      rw [htook.buffer_eq, if_neg (not_lt.2 hleft)]
    have hagain := @pushAll_requests options (p.push bytes options).1 pieces _ _
      (by rw [htook.resynchronising_eq]; simp [hleft])
      (by rw [hheld]; exact hfirst.rest) (by rw [hheld]; exact hothers)
      (by rw [htook.maxHead_eq]; exact fun k' hk' => hheads k' (List.mem_append_right _ hk'))
      (Nat.zero_le _)
    have hrequests := htook.requests_eq
    rw [hresync, if_pos rfl, List.tail_cons] at hrequests
    rw [pushAll, Runs.run_cons, List.flatten_cons, List.filterMap_append, ← hrequests, ← hagain]
    rfl

/-- While the head to skip is incomplete, a push holds the bytes or gives them up. -/
theorem push_inside {bytes head : List UInt8} (hresync : p.resynchronising = true)
    (hbegins : p.buffer ++ bytes <+: head) (hlength : (p.buffer ++ bytes).length < head.length)
    (hhead : IsFrame EndsHead head) :
    (p.push bytes options).2 = [] ∧ (p.push bytes options).1.resynchronising = true ∧
      (p.push bytes options).1.maxHead = p.maxHead ∧
      (p.push bytes options).1.buffer =
        if p.maxHead < (p.buffer ++ bytes).length then [] else p.buffer ++ bytes := by
  have hincomplete := hhead.incomplete hbegins (fun heq => by rw [heq] at hlength; omega)
  have htook := push_took options p bytes ((split_nil _).2 hincomplete)
  refine ⟨?_, ?_, htook.maxHead_eq, htook.buffer_eq⟩
  · rw [htook.requests_eq]
    simp
  · rw [htook.resynchronising_eq, hresync]
    simp

/-- A parser that skips a head returns at most one request for each head after it. -/
theorem pushAll_length_le {pieces heads : List (List UInt8)} {head : List UInt8}
    (hresync : p.resynchronising = true)
    (h : Split EndsHead (p.buffer ++ pieces.flatten) (head :: heads) [])
    (hheads : ∀ k ∈ heads, IsRequest options k ∧ k.length ≤ p.maxHead) :
    (pushAll options p pieces).2.flatten.length ≤ heads.length := by
  induction pieces generalizing p head heads with
  | nil => exact Nat.zero_le _
  | cons bytes pieces ih =>
    have hhead := h.frames head (by simp)
    by_cases hlength : head.length ≤ (p.buffer ++ bytes).length
    · rw [pushAll_skip hresync h hlength (fun k hk => (hheads k hk).2)]
      exact List.length_filterMap_le _ _
    · rw [not_le] at hlength
      rw [List.flatten_cons, ← List.append_assoc] at h
      have hflat : p.buffer ++ bytes ++ pieces.flatten = head ++ heads.flatten := by
        rw [h.eq, List.flatten_cons, List.append_nil]
      have hbegins : p.buffer ++ bytes <+: head :=
        List.prefix_of_prefix_length_le ⟨_, hflat⟩ (List.prefix_append _ _) hlength.le
      obtain ⟨hnone, hskip, hmax, hbuffer⟩ :=
        @push_inside options p bytes head hresync hbegins hlength hhead
      have hrun : (pushAll options p (bytes :: pieces)).2.flatten =
          (pushAll options (p.push bytes options).1 pieces).2.flatten := by
        rw [pushAll, Runs.run_cons, List.flatten_cons, hnone]
        rfl
      rw [hrun]
      by_cases hlong : p.maxHead < (p.buffer ++ bytes).length
      · rw [if_pos hlong] at hbuffer
        have hrest : pieces.flatten = head.drop (p.buffer ++ bytes).length ++ heads.flatten := by
          have hdrop := congrArg (List.drop (p.buffer ++ bytes).length) hflat
          rwa [List.drop_left, List.drop_append_of_le_length hlength.le] at hdrop
        have hsplit : Split EndsHead heads.flatten heads [] :=
          ⟨(List.append_nil _).symm, fun k hk => (hheads k hk).1.frame,
            incomplete_of_inits (by decide)⟩
        by_cases hterm : (p.buffer ++ bytes).length + terminatorLength head ≤ head.length
        · have hnext : Split EndsHead ((p.push bytes options).1.buffer ++ pieces.flatten)
              (head.drop (p.buffer ++ bytes).length :: heads) [] := by
            rw [hbuffer, List.nil_append, hrest]
            exact hsplit.cons (isFrame_drop hhead hterm)
          exact ih hskip hnext (by rwa [hmax])
        · -- the cut is inside the terminator: the next head goes with what is left of it
          have hleftover : IsLeftover (head.drop (p.buffer ++ bytes).length) :=
            leftover_cases hhead hlength (not_le.1 hterm)
          cases heads with
          | nil =>
            rw [pushAll_of_incomplete]
            · exact Nat.zero_le _
            · rw [hbuffer, hrest, List.flatten_nil, List.append_nil, List.nil_append]
              exact hleftover.incomplete
          | cons k ks =>
            obtain ⟨hk, hks⟩ := List.forall_mem_cons.1 hheads
            have hnext : Split EndsHead ((p.push bytes options).1.buffer ++ pieces.flatten)
                ((head.drop (p.buffer ++ bytes).length ++ k) :: ks) [] := by
              rw [hbuffer, List.nil_append, hrest, List.flatten_cons, ← List.append_assoc]
              apply Split.cons (hleftover.isFrame hk.1)
              rw [List.flatten_cons] at hsplit
              exact hsplit.of_cons
            exact (ih hskip hnext (by rwa [hmax])).trans (Nat.le_succ _)
      · rw [if_neg hlong] at hbuffer
        apply ih hskip
        · rw [hbuffer]
          exact h
        · rwa [hmax]

/-- The last cut at which a head of the given length is given up before its end has come. `last` is
the one so far, `position` how much of the head has come. -/
def lastGivenUp (maxHead length : ℕ) : Option ℕ → ℕ → List ℕ → Option ℕ
  | last, _, [] => last
  | last, position, n :: sizes =>
    if length ≤ position + n then last
    else if maxHead < position + n - last.getD 0 then
      lastGivenUp maxHead length (some (position + n)) (position + n) sizes
    else lastGivenUp maxHead length last (position + n) sizes

/-- The parser is inside the long head, which it last gave up at `last`. -/
structure Reading (long : List UInt8) (maxHead : ℕ) (last : Option ℕ) (position : ℕ)
    (p : HttpParser) : Prop where
  maxHead_eq : p.maxHead = maxHead
  resynchronising_eq : p.resynchronising = last.isSome
  buffer_eq : p.buffer = (long.take position).drop (last.getD 0)
  last_le : last.getD 0 ≤ position
  position_lt : position < long.length
  oversized_pos : 0 < p.counters.oversized ↔ last.isSome = true

theorem reading_new {long : List UInt8} (hlong : 0 < long.length) (maxHead : ℕ) :
    Reading long (new maxHead).maxHead none 0 (new maxHead) :=
  ⟨rfl, rfl, rfl, le_rfl, hlong, by simp [new]⟩

theorem Reading.push (options : NormalizeConfig) {long bytes : List UInt8} {maxHead position : ℕ}
    {last : Option ℕ} (h : Reading long maxHead last position p) (hlong : IsFrame EndsHead long)
    (hbytes : bytes <+: long.drop position) (hlength : position + bytes.length < long.length) :
    (p.push bytes options).2 = [] ∧
      Reading long maxHead
        (if maxHead < position + bytes.length - last.getD 0 then some (position + bytes.length)
          else last) (position + bytes.length) (p.push bytes options).1 := by
  have htake : long.take position ++ bytes = long.take (position + bytes.length) := by
    rw [List.take_add, ← List.prefix_iff_eq_take.1 hbytes]
  have hbuffer : p.buffer ++ bytes = (long.take (position + bytes.length)).drop (last.getD 0) := by
    rw [h.buffer_eq, ← htake, List.drop_append_of_le_length]
    rw [List.length_take, min_eq_left h.position_lt.le]
    exact h.last_le
  have hsize : (p.buffer ++ bytes).length = position + bytes.length - last.getD 0 := by
    rw [hbuffer, List.length_drop, List.length_take, min_eq_left hlength.le]
  have hincomplete : Incomplete EndsHead (p.buffer ++ bytes) := by
    rw [hbuffer]
    apply incomplete_drop
    apply hlong.incomplete (List.take_prefix _ _)
    intro heq
    have := congrArg List.length heq
    rw [List.length_take, min_eq_left hlength.le] at this
    omega
  have htook := push_took options p bytes ((split_nil _).2 hincomplete)
  have hmax := h.maxHead_eq
  have hlast := h.last_le
  refine ⟨by rw [htook.requests_eq]; simp, ?_⟩
  by_cases hgive : maxHead < position + bytes.length - last.getD 0
  · rw [if_pos hgive]
    have hover : p.maxHead < (p.buffer ++ bytes).length := by rw [hsize, hmax]; exact hgive
    constructor
    · exact htook.maxHead_eq.trans hmax
    · rw [htook.resynchronising_eq, decide_eq_true hover, Bool.or_true]
      rfl
    · rw [htook.buffer_eq, if_pos hover, Option.getD_some, List.drop_take, Nat.sub_self,
        List.take_zero]
    · exact le_rfl
    · exact hlength
    · rw [htook.oversized_eq, if_pos hover]
      simp
  · rw [if_neg hgive]
    have hfits : ¬ p.maxHead < (p.buffer ++ bytes).length := by rw [hsize, hmax]; exact hgive
    constructor
    · exact htook.maxHead_eq.trans hmax
    · rw [htook.resynchronising_eq, h.resynchronising_eq, decide_eq_false hfits]
      simp
    · rw [htook.buffer_eq, if_neg hfits, hbuffer]
    · omega
    · exact hlength
    · rw [htook.oversized_eq, if_neg hfits, Nat.add_zero]
      exact h.oversized_pos

/-- A piece that ends inside the long head is a part of it, and what comes next goes on there. -/
theorem piece_inside {long bytes rest stream : List UInt8} {position : ℕ}
    (h : bytes ++ rest = long.drop position ++ stream)
    (hlength : position + bytes.length < long.length) :
    bytes <+: long.drop position ∧ rest = long.drop (position + bytes.length) ++ stream := by
  have hle : bytes.length ≤ (long.drop position).length := by
    rw [List.length_drop]
    omega
  refine ⟨List.prefix_of_prefix_length_le ⟨_, h⟩ (List.prefix_append _ _) hle, ?_⟩
  have hdrop := congrArg (List.drop bytes.length) h
  rwa [List.drop_left, List.drop_append_of_le_length hle, List.drop_drop] at hdrop

/-- When the long head comes to its end, the cut at which it was last given up tells what is left of
it. -/
theorem Reading.completed {long : List UInt8} {later pieces : List (List UInt8)}
    {bytes : List UInt8}
    {maxHead position cut : ℕ} (h : Reading long maxHead (some cut) position p)
    (hlong : IsFrame EndsHead long)
    (hlater : ∀ head ∈ later, IsRequest options head ∧ head.length ≤ maxHead)
    (hpieces : (bytes :: pieces).flatten = long.drop position ++ later.flatten)
    (hlength : long.length ≤ position + bytes.length) :
    (cut + terminatorLength long ≤ long.length →
      (HttpParser.pushAll options p (bytes :: pieces)).2.flatten =
        later.filterMap (fun head => parseHead head options)) ∧
    (long.length < cut + terminatorLength long → later ≠ [] →
      (HttpParser.pushAll options p (bytes :: pieces)).2.flatten.length < later.length) := by
  have hcut : cut ≤ position := h.last_le
  have hlt := h.position_lt
  have hresync : p.resynchronising = true := h.resynchronising_eq
  have hbuffer : p.buffer = (long.take position).drop cut := h.buffer_eq
  have hsize : (p.buffer ++ bytes).length = position + bytes.length - cut := by
    rw [hbuffer, List.length_append, List.length_drop, List.length_take, min_eq_left hlt.le]
    omega
  have hstream : p.buffer ++ (bytes :: pieces).flatten = long.drop cut ++ later.flatten := by
    rw [hpieces, hbuffer, ← List.append_assoc]
    congr 1
    nth_rewrite 3 [← List.take_append_drop position long]
    rw [List.drop_append_of_le_length]
    rw [List.length_take, min_eq_left hlt.le]
    exact hcut
  have hsplit : Split EndsHead later.flatten later [] :=
    ⟨(List.append_nil _).symm, fun k hk => (hlater k hk).1.frame, incomplete_of_inits (by decide)⟩
  rw [← h.maxHead_eq] at hlater
  constructor
  · intro hterm
    have hnext : Split EndsHead (p.buffer ++ (bytes :: pieces).flatten)
        (long.drop cut :: later) [] := by
      rw [hstream]
      exact hsplit.cons (isFrame_drop hlong hterm)
    refine pushAll_skip hresync hnext ?_ (fun k hk => (hlater k hk).2)
    rw [List.length_drop, hsize]
    omega
  · intro hterm hne
    have hleftover : IsLeftover (long.drop cut) := leftover_cases hlong (by omega) hterm
    cases later with
    | nil => exact absurd rfl hne
    | cons k ks =>
      obtain ⟨hk, hks⟩ := List.forall_mem_cons.1 hlater
      have hnext : Split EndsHead (p.buffer ++ (bytes :: pieces).flatten)
          ((long.drop cut ++ k) :: ks) [] := by
        rw [hstream, List.flatten_cons, ← List.append_assoc]
        apply Split.cons (hleftover.isFrame hk.1)
        rw [List.flatten_cons] at hsplit
        exact hsplit.of_cons
      exact Nat.lt_succ_of_le (pushAll_length_le hresync hnext hks)

/-- From inside a long head that is given up: every later request is returned when the last cut at
which it is given up is before its terminator, and one is missing when the cut is inside it. -/
theorem Reading.pushAll {long : List UInt8} {later pieces : List (List UInt8)}
    {maxHead position cut : ℕ} {last : Option ℕ} (h : Reading long maxHead last position p)
    (hlong : IsFrame EndsHead long)
    (hlater : ∀ head ∈ later, IsRequest options head ∧ head.length ≤ maxHead)
    (hpieces : pieces.flatten = long.drop position ++ later.flatten)
    (hcut : lastGivenUp maxHead long.length last position (pieces.map List.length) = some cut) :
    (cut + terminatorLength long ≤ long.length →
      (HttpParser.pushAll options p pieces).2.flatten =
        later.filterMap (fun head => parseHead head options)) ∧
    (long.length < cut + terminatorLength long → later ≠ [] →
      (HttpParser.pushAll options p pieces).2.flatten.length < later.length) := by
  induction pieces generalizing p last position with
  | nil =>
    have hempty := congrArg List.length hpieces
    rw [List.flatten_nil, List.length_append, List.length_drop, List.length_nil] at hempty
    have := h.position_lt
    omega
  | cons bytes pieces ih =>
    rw [List.map_cons, lastGivenUp] at hcut
    by_cases hlength : long.length ≤ position + bytes.length
    · rw [if_pos hlength] at hcut
      subst hcut
      exact h.completed hlong hlater hpieces hlength
    · rw [if_neg hlength] at hcut
      rw [not_le] at hlength
      rw [List.flatten_cons] at hpieces
      obtain ⟨hbytes, hrest⟩ := piece_inside hpieces hlength
      obtain ⟨hnone, hreading⟩ := h.push options hlong hbytes hlength
      have hrun : (HttpParser.pushAll options p (bytes :: pieces)).2.flatten =
          (HttpParser.pushAll options (p.push bytes options).1 pieces).2.flatten := by
        rw [HttpParser.pushAll, Runs.run_cons, List.flatten_cons, hnone]
        rfl
      rw [hrun]
      apply ih hreading hrest
      rw [← hcut]
      split_ifs <;> rfl

/-- Whether the parser gives the long head up before its end has come. -/
def GivesUp (options : NormalizeConfig) (p : HttpParser) (long : List UInt8)
    (pieces : List (List UInt8)) : Prop :=
  ∃ before after, pieces = before ++ after ∧ before.flatten.length < long.length ∧
    0 < (pushAll options p before).1.counters.oversized

theorem lastGivenUp_some (maxHead length cut position : ℕ) (sizes : List ℕ) :
    (lastGivenUp maxHead length (some cut) position sizes).isSome = true := by
  induction sizes generalizing cut position with
  | nil => rfl
  | cons n sizes ih =>
    rw [lastGivenUp]
    split_ifs
    · rfl
    · exact ih _ _
    · exact ih _ _

/-- A head is only given up at a cut that the sizes of the pieces tell. -/
theorem Reading.lastGivenUp_isSome {long : List UInt8} {before after : List (List UInt8)}
    {maxHead position : ℕ} {last : Option ℕ} (h : Reading long maxHead last position p)
    (hlong : IsFrame EndsHead long) {stream : List UInt8}
    (hpieces : (before ++ after).flatten = long.drop position ++ stream)
    (hbefore : position + before.flatten.length < long.length)
    (hover : 0 < (HttpParser.pushAll options p before).1.counters.oversized) :
    (lastGivenUp maxHead long.length last position ((before ++ after).map List.length)).isSome =
      true := by
  induction before generalizing p last position with
  | nil =>
    obtain ⟨cut, hcut⟩ := Option.isSome_iff_exists.1 (h.oversized_pos.1 hover)
    rw [hcut]
    exact lastGivenUp_some _ _ _ _ _
  | cons bytes before ih =>
    rw [List.cons_append, List.flatten_cons] at hpieces
    rw [List.flatten_cons, List.length_append] at hbefore
    have hlength : position + bytes.length < long.length := by omega
    obtain ⟨hbytes, hrest⟩ := piece_inside hpieces hlength
    obtain ⟨_, hreading⟩ := h.push options hlong hbytes hlength
    have hagain := ih hreading hrest (by omega) hover
    rw [List.cons_append, List.map_cons, lastGivenUp, if_neg (not_le.2 hlength)]
    rw [← hagain]
    split_ifs <;> rfl

/-- A long head that is given up costs none of the requests after it exactly when there are none, or
the last cut at which it is given up leaves its whole terminator behind. -/
theorem later_requests_returned_iff (maxHead : ℕ) (options : NormalizeConfig) (long : List UInt8)
    (later pieces : List (List UInt8)) (hlong : IsFrame EndsHead long)
    (hlater : ∀ head ∈ later, IsRequest options head ∧ head.length ≤ (new maxHead).maxHead)
    (hpieces : pieces.flatten = long ++ later.flatten)
    (hgives : GivesUp options (new maxHead) long pieces) :
    List.Sublist (later.filterMap (fun head => parseHead head options))
        (pushAll options (new maxHead) pieces).2.flatten ↔
      later = [] ∨ ∃ cut, lastGivenUp (new maxHead).maxHead long.length none 0
        (pieces.map List.length) = some cut ∧ cut + terminatorLength long ≤ long.length := by
  obtain ⟨before, after, heq, hbefore, hover⟩ := hgives
  have hpos : 0 < long.length :=
    List.length_pos_of_ne_nil (fun hempty => not_endsHead_nil (hempty ▸ hlong.complete))
  have hreading := reading_new hpos maxHead
  have hparts : (before ++ after).flatten = long.drop 0 ++ later.flatten := by
    rw [← heq]
    exact hpieces
  have hsome := hreading.lastGivenUp_isSome hlong hparts (by rw [Nat.zero_add]; exact hbefore) hover
  rw [← heq] at hsome
  obtain ⟨cut, hcut⟩ := Option.isSome_iff_exists.1 hsome
  obtain ⟨hall, hmissing⟩ := hreading.pushAll hlong hlater hpieces hcut
  have hparsed : (later.filterMap (fun head => parseHead head options)).length = later.length := by
    rw [List.length_filterMap_eq_countP, List.countP_eq_length]
    exact fun head hhead => (hlater head hhead).1.parses
  constructor
  · intro hsublist
    by_cases hempty : later = []
    · exact Or.inl hempty
    · refine Or.inr ⟨cut, hcut, ?_⟩
      by_contra hinside
      have hlt := hmissing (not_le.1 hinside) hempty
      have hle := hsublist.length_le
      omega
  · intro hcases
    rcases hcases with hempty | ⟨cut', hcut', hterm⟩
    · rw [hempty]
      exact List.nil_sublist _
    · rw [hcut, Option.some.injEq] at hcut'
      rw [hall (hcut' ▸ hterm)]

/-- A head of 65 bytes and its terminator, one byte more than the smallest cap. -/
def sampleLongHead : List UInt8 := List.replicate 65 0x41 ++ crlfTerminator

theorem isFrame_sampleLongHead : IsFrame EndsHead sampleLongHead :=
  isFrame_of_findHeadEnd (by decide +kernel)

theorem sampleRequest_fits :
    ∀ head ∈ [sampleRequest], IsRequest {} head ∧ head.length ≤ (new 64).maxHead := by
  intro head hhead
  rw [List.mem_singleton.1 hhead]
  exact ⟨⟨isFrame_sampleRequest, by decide +kernel⟩, by decide⟩

/-- Given up before its terminator, the long head costs nothing. -/
theorem later_requests_returned_iff_cut_before :
    List.Sublist ([sampleRequest].filterMap (fun head => parseHead head {}))
      (pushAll {} (new 64)
      [List.replicate 65 0x41, crlfTerminator ++ sampleRequest]).2.flatten := by
  apply (later_requests_returned_iff 64 {} sampleLongHead [sampleRequest] _ isFrame_sampleLongHead
    sampleRequest_fits (by decide) ⟨[List.replicate 65 0x41], _, rfl, by
      decide, by decide +kernel⟩).2
  exact Or.inr ⟨65, by decide, by decide⟩

/-- Given up after three bytes of its terminator, it takes the next request with it. -/
theorem request_lost_with_terminator :
    ¬ ∀ (maxHead : ℕ) (options : NormalizeConfig) (long : List UInt8)
      (later pieces : List (List UInt8)), IsFrame EndsHead long →
      (new maxHead).maxHead < long.length →
      (∀ head ∈ later, IsRequest options head ∧ head.length ≤ (new maxHead).maxHead) →
      pieces.flatten = long ++ later.flatten → GivesUp options (new maxHead) long pieces →
      List.Sublist (later.filterMap (fun head => parseHead head options))
        (pushAll options (new maxHead) pieces).2.flatten := by
  intro h
  have hlost := h 64 {} sampleLongHead [sampleRequest]
    [sampleLongHead.take 68, sampleLongHead.drop 68 ++ sampleRequest] isFrame_sampleLongHead
    (by decide) sampleRequest_fits (by decide)
    ⟨[sampleLongHead.take 68], _, rfl, by decide, by decide +kernel⟩
  exact absurd hlost.length_le (by decide +kernel)

end HttpParser
end CyberSentinel
