import CyberSentinel.Lines

/-!
# Lossy decoding of UTF-8

A decoder goes through the bytes with the sequence it is in. A byte that cannot go on with the
sequence ends it: what was read of the sequence becomes one replacement character, and the byte is
read as the first one of its own. Decoding goes part by part where no sequence is cut, and line by
line.
-/

namespace Utf8

open Lines

def replacement : Char := '\uFFFD'

/-- A sequence that has begun: what its bytes so far say, the bounds of the next byte, and how many
follow it. No such sequence can give an ASCII character. -/
structure Partial where
  value : ℕ
  lo : ℕ
  hi : ℕ
  more : ℕ
  lo_ge : 0x80 ≤ lo
  big : 0x80 ≤ (value * 64 + (lo - 0x80)) * 64 ^ more

def Partial.Continues (p : Partial) (b : UInt8) : Prop := p.lo ≤ b.toNat ∧ b.toNat ≤ p.hi

instance (p : Partial) (b : UInt8) : Decidable (p.Continues b) :=
  inferInstanceAs (Decidable (_ ∧ _))

def start (b : UInt8) : Option Partial × List Char :=
  let n := b.toNat
  if n < 0x80 then (none, [Char.ofNat n])
  else if h : 0xC2 ≤ n ∧ n ≤ 0xDF then (some ⟨n - 0xC0, 0x80, 0xBF, 0, le_rfl, by omega⟩, [])
  else if n = 0xE0 then (some ⟨0, 0xA0, 0xBF, 1, by decide, by decide⟩, [])
  else if h : 0xE1 ≤ n ∧ n ≤ 0xEC ∨ 0xEE ≤ n ∧ n ≤ 0xEF then
    (some ⟨n - 0xE0, 0x80, 0xBF, 1, le_rfl, by omega⟩, [])
  else if n = 0xED then (some ⟨0xD, 0x80, 0x9F, 1, le_rfl, by decide⟩, [])
  else if n = 0xF0 then (some ⟨0, 0x90, 0xBF, 2, by decide, by decide⟩, [])
  else if h : 0xF1 ≤ n ∧ n ≤ 0xF3 then (some ⟨n - 0xF0, 0x80, 0xBF, 2, le_rfl, by omega⟩, [])
  else if n = 0xF4 then (some ⟨4, 0x80, 0x8F, 2, le_rfl, by decide⟩, [])
  else (none, [replacement])

theorem Partial.big_accept {p : Partial} {b : UInt8} (h : p.Continues b) :
    0x80 ≤ (p.value * 64 + (b.toNat - 0x80)) * 64 ^ p.more :=
  p.big.trans (Nat.mul_le_mul_right _ (by have := h.1; omega))

def Partial.accept (p : Partial) (b : UInt8) (h : p.Continues b) : Option Partial × List Char :=
  if hlast : p.more = 0 then (none, [Char.ofNat (p.value * 64 + (b.toNat - 0x80))])
  else
    (some ⟨p.value * 64 + (b.toNat - 0x80), 0x80, 0xBF, p.more - 1, le_rfl, by
      have hbig := p.big_accept h
      have hpow : 64 ^ p.more = 64 * 64 ^ (p.more - 1) := by
        rw [← Nat.pow_succ', Nat.succ_eq_add_one,
          Nat.sub_add_cancel (Nat.one_le_iff_ne_zero.2 hlast)]
      rw [hpow, ← Nat.mul_assoc] at hbig
      rwa [Nat.sub_self, Nat.add_zero]⟩, [])

def finish : Option Partial → List Char
  | none => []
  | some _ => [replacement]

/-- One byte: the sequence it leaves the decoder in, and the characters it gives. -/
def step : Option Partial → UInt8 → Option Partial × List Char
  | none, b => start b
  | some p, b =>
    if h : p.Continues b then p.accept b h else ((start b).1, replacement :: (start b).2)

def decodeFrom : Option Partial → List UInt8 → List Char
  | state, [] => finish state
  | state, b :: bytes => (step state b).2 ++ decodeFrom (step state b).1 bytes

/-- `String::from_utf8_lossy`. -/
def lossy (bytes : List UInt8) : List Char := decodeFrom none bytes

def stateAfter (state : Option Partial) (bytes : List UInt8) : Option Partial :=
  bytes.foldl (fun state b => (step state b).1) state

/-- The characters that some bytes give, the unfinished sequence apart. -/
def charsFrom : Option Partial → List UInt8 → List Char
  | _, [] => []
  | state, b :: bytes => (step state b).2 ++ charsFrom (step state b).1 bytes

theorem decodeFrom_append (state : Option Partial) (bytes more : List UInt8) :
    decodeFrom state (bytes ++ more) =
      charsFrom state bytes ++ decodeFrom (stateAfter state bytes) more := by
  induction bytes generalizing state with
  | nil => rfl
  | cons b bytes ih =>
    rw [List.cons_append, decodeFrom, ih, charsFrom, List.append_assoc]
    rfl

theorem decodeFrom_eq (state : Option Partial) (bytes : List UInt8) :
    decodeFrom state bytes = charsFrom state bytes ++ finish (stateAfter state bytes) := by
  have h := decodeFrom_append state bytes []
  rwa [List.append_nil] at h

/-- The first byte of the second part goes on with a sequence of the first. -/
def CutsSequence (bytes more : List UInt8) : Prop :=
  ∃ p ∈ stateAfter none bytes, ∃ b ∈ more.head?, p.Continues b

instance (bytes more : List UInt8) : Decidable (CutsSequence bytes more) := by
  unfold CutsSequence
  infer_instance

theorem decodeFrom_of_not_continues {state : Option Partial} {bytes : List UInt8}
    (h : ¬ ∃ p ∈ state, ∃ b ∈ bytes.head?, p.Continues b) :
    decodeFrom state bytes = finish state ++ lossy bytes := by
  cases state with
  | none => rfl
  | some p =>
    cases bytes with
    | nil => rfl
    | cons b bytes =>
      have hnot : ¬ p.Continues b := fun hc => h ⟨p, rfl, b, rfl, hc⟩
      rw [decodeFrom, step, dif_neg hnot]
      rfl

theorem lossy_append {bytes more : List UInt8} (h : ¬ CutsSequence bytes more) :
    lossy (bytes ++ more) = lossy bytes ++ lossy more := by
  rw [lossy, decodeFrom_append, decodeFrom_of_not_continues h, ← List.append_assoc, ← decodeFrom_eq]
  rfl

theorem step_ascii {b : UInt8} (h : b.toNat < 0x80) (state : Option Partial) :
    step state b = (none, finish state ++ [Char.ofNat b.toNat]) := by
  have hstart : start b = (none, [Char.ofNat b.toNat]) := by
    rw [start]
    exact if_pos h
  cases state with
  | none => exact hstart
  | some p =>
    have hnot : ¬ p.Continues b := by
      intro hc
      have := hc.1
      have := p.lo_ge
      omega
    rw [step, dif_neg hnot, hstart]
    rfl

theorem toNat_ofNat (n : ℕ) : (Char.ofNat n).toNat = if n.isValidChar then n else 0 := by
  by_cases hvalid : n.isValidChar
  · rw [Char.ofNat, dif_pos hvalid, if_pos hvalid]
    rfl
  · rw [Char.ofNat, dif_neg hvalid, if_neg hvalid]
    rfl

theorem ofNat_ne_of_ge {n a : ℕ} (hn : 0x80 ≤ n) (ha : a < 0x80) (hpos : 0 < a) :
    Char.ofNat n ≠ Char.ofNat a := by
  intro heq
  have htoNat := congrArg Char.toNat heq
  rw [toNat_ofNat, toNat_ofNat, if_pos (show a.isValidChar by left; omega)] at htoNat
  split_ifs at htoNat <;> omega

theorem replacement_ne {a : ℕ} (ha : a < 0x80) (hpos : 0 < a) : replacement ≠ Char.ofNat a :=
  ofNat_ne_of_ge (n := 0xFFFD) (by decide) ha hpos

/-- A first byte is a character of its own, begins a sequence, or stands for no character. -/
theorem start_cases (b : UInt8) :
    (b.toNat < 0x80 ∧ start b = (none, [Char.ofNat b.toNat])) ∨ (∃ p, start b = (some p, [])) ∨
      start b = (none, [replacement]) := by
  rw [start]
  by_cases hascii : b.toNat < 0x80
  · exact Or.inl ⟨hascii, if_pos hascii⟩
  apply Or.inr
  rw [if_neg hascii]
  -- every branch but the last begins a sequence
  iterate 7
    split
    · exact Or.inl ⟨_, rfl⟩
  exact Or.inr rfl

theorem not_mem_start {b : UInt8} {a : ℕ} (hne : b.toNat ≠ a) (ha : a < 0x80) (hpos : 0 < a) :
    Char.ofNat a ∉ (start b).2 := by
  obtain ⟨hascii, heq⟩ | ⟨p, heq⟩ | heq := start_cases b
  · rw [heq, List.mem_singleton]
    intro hchar
    have htoNat := congrArg Char.toNat hchar
    rw [toNat_ofNat, toNat_ofNat, if_pos (show a.isValidChar by left; omega),
      if_pos (show b.toNat.isValidChar by left; omega)] at htoNat
    exact hne htoNat.symm
  · rw [heq]
    exact List.not_mem_nil
  · rw [heq, List.mem_singleton]
    exact (replacement_ne ha hpos).symm

theorem not_mem_step {b : UInt8} {a : ℕ} (hne : b.toNat ≠ a) (ha : a < 0x80) (hpos : 0 < a)
    (state : Option Partial) : Char.ofNat a ∉ (step state b).2 := by
  cases state with
  | none => exact not_mem_start hne ha hpos
  | some p =>
    rw [step]
    split_ifs with hc
    · rw [Partial.accept]
      split_ifs with hlast
      · have hbig := p.big_accept hc
        rw [hlast, pow_zero, Nat.mul_one] at hbig
        rw [List.mem_singleton]
        exact (ofNat_ne_of_ge hbig ha hpos).symm
      · exact List.not_mem_nil
    · rw [List.mem_cons, not_or]
      exact ⟨(replacement_ne ha hpos).symm, not_mem_start hne ha hpos⟩

def newline : UInt8 := 0x0A

def carriageReturn : UInt8 := 0x0D

def decodeLines (state : Option Partial) :
    List (List UInt8) × List UInt8 → List (List Char) × List Char
  | ([], rest) => ([], decodeFrom state rest)
  | (line :: lines, rest) => (decodeFrom state line :: lines.map lossy, lossy rest)

theorem newline_not_mem_finish (state : Option Partial) : '\n' ∉ finish state := by
  cases state <;> simp [finish, replacement]

theorem cut_decodeFrom (state : Option Partial) (bytes : List UInt8) :
    cut '\n' (decodeFrom state bytes) = decodeLines state (cut newline bytes) := by
  induction bytes generalizing state with
  | nil =>
    have h := cut_append_of_not_mem (newline_not_mem_finish state) []
    rw [List.append_nil] at h
    rw [decodeFrom, h]
    simp [cut, extend, decodeLines, decodeFrom]
  | cons b bytes ih =>
    by_cases hb : b = newline
    · have hstep : step state newline = (none, finish state ++ ['\n']) :=
        step_ascii (by decide) state
      rw [hb, decodeFrom, hstep, cut_cons_sep, List.append_assoc,
        cut_append_of_not_mem (newline_not_mem_finish state)]
      change extend (finish state) (cut '\n' ('\n' :: decodeFrom none bytes)) = _
      rw [cut_cons_sep, ih]
      obtain ⟨_ | ⟨line, lines⟩, rest⟩ := cut newline bytes <;>
        simp [decodeLines, extend, lossy, decodeFrom]
    · have hout : '\n' ∉ (step state b).2 :=
        not_mem_step (a := 10) (fun h => hb (UInt8.toNat_inj.1 h)) (by decide) (by decide) state
      rw [decodeFrom, cut_append_of_not_mem hout, ih, cut_cons_of_ne hb]
      obtain ⟨_ | ⟨line, lines⟩, rest⟩ := cut newline bytes <;> rfl

theorem cut_lossy (bytes : List UInt8) :
    cut '\n' (lossy bytes) = ((cut newline bytes).1.map lossy, lossy (cut newline bytes).2) := by
  rw [lossy, cut_decodeFrom]
  obtain ⟨_ | ⟨line, lines⟩, rest⟩ := cut newline bytes <;> rfl

def stripLast {α : Type*} [DecidableEq α] (a : α) (line : List α) : List α :=
  if line.getLast? = some a then line.dropLast else line

theorem stripLast_append {α : Type*} [DecidableEq α] {a : α} {u line : List α}
    (h : line = [] → u.getLast? ≠ some a) : stripLast a (u ++ line) = u ++ stripLast a line := by
  rw [stripLast, stripLast]
  cases line with
  | nil => rw [List.append_nil, if_neg (h rfl)]; simp
  | cons b line =>
    rw [List.getLast?_append_of_ne_nil _ (List.cons_ne_nil b line),
      List.dropLast_append_of_ne_nil (List.cons_ne_nil b line)]
    split_ifs <;> rfl

/-- A byte that gives no character leaves the decoder in a sequence. -/
theorem step_eq_nil {state : Option Partial} {b : UInt8} (h : (step state b).2 = []) :
    (step state b).1.isSome = true := by
  have hstart : (start b).2 = [] → (start b).1.isSome = true := by
    intro hnil
    obtain ⟨-, heq⟩ | ⟨p, heq⟩ | heq := start_cases b
    · exact absurd (heq ▸ hnil) (List.cons_ne_nil _ _)
    · rw [heq]
      rfl
    · exact absurd (heq ▸ hnil) (List.cons_ne_nil _ _)
  cases state with
  | none => exact hstart h
  | some p =>
    rw [step] at h ⊢
    split_ifs at h ⊢ with hc
    rw [Partial.accept] at h ⊢
    split_ifs at h ⊢
    rfl

theorem decodeFrom_singleton_ne_nil (state : Option Partial) (b : UInt8) :
    decodeFrom state [b] ≠ [] := by
  rw [decodeFrom, decodeFrom]
  intro hnil
  obtain ⟨hout, hfinish⟩ := List.append_eq_nil_iff.1 hnil
  obtain ⟨p, hp⟩ := Option.isSome_iff_exists.1 (step_eq_nil hout)
  rw [hp] at hfinish
  exact List.cons_ne_nil _ _ hfinish

theorem lossy_concat (bytes : List UInt8) (b : UInt8) :
    lossy (bytes ++ [b]) = charsFrom none bytes ++ decodeFrom (stateAfter none bytes) [b] :=
  decodeFrom_append none bytes [b]

theorem lossy_ne_nil {bytes : List UInt8} (h : bytes ≠ []) : lossy bytes ≠ [] := by
  obtain rfl | ⟨front, b, rfl⟩ := List.eq_nil_or_concat bytes
  · exact absurd rfl h
  · rw [List.concat_eq_append, lossy_concat]
    exact List.append_ne_nil_of_right_ne_nil _ (decodeFrom_singleton_ne_nil _ _)

/-- An ASCII byte at the end of a text is an ASCII character at its end. -/
theorem lossy_concat_ascii (bytes : List UInt8) {b : UInt8} (h : b.toNat < 0x80) :
    lossy (bytes ++ [b]) = lossy bytes ++ [Char.ofNat b.toNat] := by
  rw [lossy_concat, decodeFrom, step_ascii h, lossy, decodeFrom_eq none bytes, decodeFrom, finish,
    List.append_nil, List.append_assoc]

theorem getLast_lossy_iff (bytes : List UInt8) :
    (lossy bytes).getLast? = some '\r' ↔ bytes.getLast? = some carriageReturn := by
  obtain rfl | ⟨front, b, rfl⟩ := List.eq_nil_or_concat bytes
  · exact iff_of_false (by simp [lossy, decodeFrom, finish]) (by simp)
  · rw [List.concat_eq_append, List.getLast?_concat, Option.some_inj]
    by_cases hb : b = carriageReturn
    · rw [hb, lossy_concat_ascii front (by decide), List.getLast?_concat]
      exact iff_of_true rfl rfl
    · refine iff_of_false ?_ hb
      intro hlast
      rw [lossy_concat, List.getLast?_append_of_ne_nil _ (decodeFrom_singleton_ne_nil _ _)] at hlast
      have hmem := List.mem_of_getLast? hlast
      rw [decodeFrom, decodeFrom, List.mem_append] at hmem
      rcases hmem with hmem | hmem
      · exact not_mem_step (a := 13) (fun h => hb (UInt8.toNat_inj.1 h)) (by decide)
          (by decide) _ hmem
      · cases hstate : (step (stateAfter none front) b).1 with
        | none => simp [hstate, finish] at hmem
        | some p => simp [hstate, finish, replacement] at hmem

/-- A carriage return is taken off a line before or after it is decoded. -/
theorem lossy_stripLast (line : List UInt8) :
    lossy (stripLast carriageReturn line) = stripLast '\r' (lossy line) := by
  rw [stripLast, stripLast]
  by_cases hlast : line.getLast? = some carriageReturn
  · rw [if_pos hlast, if_pos ((getLast_lossy_iff line).2 hlast)]
    obtain rfl | ⟨front, b, rfl⟩ := List.eq_nil_or_concat line
    · simp at hlast
    · rw [List.concat_eq_append, List.getLast?_concat] at hlast
      rw [List.concat_eq_append, Option.some.inj hlast, lossy_concat_ascii front (by decide),
        List.dropLast_concat, List.dropLast_concat]
  · rw [if_neg hlast, if_neg (mt (getLast_lossy_iff line).1 hlast)]

end Utf8
