import CyberSentinel.OptionText
import CyberSentinel.OptionWalk

/-!
# Byte jumps

A jump goes to a position that is a sum of whole numbers, if it lies in the buffer. The code sums in
unsigned words up to the post-offset, which it adds in signed ones: behind `2^63` the sum counts as
a negative number, and a post-offset that takes it past `2^64` makes it a small one again.
-/

namespace CyberSentinel.Detect

open Rules Bytes

/-- `apply_byte_jump`: whether the jump was made, and the cursor afterwards. -/
def byteJumpCall (jump : ByteJump) (haystack : List UInt8) (cursor : ℕ) : Bool × ℕ :=
  (applyByteJump jump haystack cursor).elim (false, cursor) fun destination => (true, destination)

/-- The field of the jump is at the position and lies in the buffer. -/
def Addresses (jump : ByteJump) (haystack : List UInt8) (cursor position : ℕ) : Prop :=
  IsPosition jump.relative jump.offset cursor position ∧
    position + jump.bytes.toNat ≤ haystack.length

def landing (jump : ByteJump) (haystack : List UInt8) (position : ℕ) : ℕ :=
  position + jump.bytes.toNat +
    fieldValue jump.endian (slice haystack position (position + jump.bytes.toNat)) *
      jump.multiplier.toNat

/-- The jump is made exactly to a position in the buffer, and otherwise leaves the cursor alone. -/
structure Exact (jump : ByteJump) (haystack : List UInt8) (cursor : ℕ) : Prop where
  made_iff : (byteJumpCall jump haystack cursor).1 = true ↔
    ∃ position, Addresses jump haystack cursor position ∧
      0 ≤ landing jump haystack position + jump.postOffset ∧
      landing jump haystack position + jump.postOffset ≤ haystack.length
  lands : (byteJumpCall jump haystack cursor).1 = true →
    ∃ position, Addresses jump haystack cursor position ∧
      ((byteJumpCall jump haystack cursor).2 : ℤ) =
        landing jump haystack position + jump.postOffset
  stays : (byteJumpCall jump haystack cursor).1 = false →
    (byteJumpCall jump haystack cursor).2 = cursor

/-- The sum reaches `2^64` by the post-offset only, and what is behind it fits the buffer. -/
def Wraps (jump : ByteJump) (haystack : List UInt8) (cursor : ℕ) : Prop :=
  ∃ position, Addresses jump haystack cursor position ∧
    landing jump haystack position < 2 ^ 64 ∧
    2 ^ 64 ≤ landing jump haystack position + jump.postOffset ∧
    landing jump haystack position + jump.postOffset ≤ 2 ^ 64 + haystack.length

theorem fieldValue_lt (endian : Endian) (field : List UInt8) :
    fieldValue endian field < 256 ^ field.length := by
  have hbyte (bytes : List UInt8) : ∀ d ∈ bytes.map UInt8.toNat, d < 256 := by
    intro d hd
    obtain ⟨byte, -, rfl⟩ := List.mem_map.1 hd
    exact byte.toNat_lt
  cases endian with
  | big =>
    have hlt := Numerals.ofPlaces_lt (hbyte field)
    rwa [List.length_map] at hlt
  | little =>
    have hlt := Numerals.ofPlaces_lt (hbyte field.reverse)
    rwa [List.length_map, List.length_reverse] at hlt

theorem toNat_wordAt {haystack : List UInt8} {position : ℕ} {bytes : UInt8} (endian : Endian)
    (hbytes : bytes.toNat ≤ 8) (hinside : position + bytes.toNat ≤ haystack.length) :
    (wordAt haystack position bytes endian).toNat =
      fieldValue endian (slice haystack position (position + bytes.toNat)) := by
  have hlt := fieldValue_lt endian (slice haystack position (position + bytes.toNat))
  rw [length_slice _ hinside, Nat.add_sub_cancel_left] at hlt
  have hword : 256 ^ bytes.toNat ≤ 2 ^ 64 :=
    (Nat.pow_le_pow_right (by decide) hbytes).trans (by decide)
  rw [wordAt, UInt64.toNat_ofNat', Nat.mod_eq_of_lt (hlt.trans_le hword)]

/-- A signed sum of words that is a position in the buffer is the sum itself, or `2^64` short of it.
-/
theorem bmod_add_eq_iff {landing d length : ℕ} {post : ℤ} (hlanding : landing < 2 ^ 64)
    (hpost : -2 ^ 31 ≤ post ∧ post < 2 ^ 31) (hlength : length < 2 ^ 63) (hd : d ≤ length) :
    Int.bmod (Int.bmod landing (2 ^ 64) + post) (2 ^ 64) = d ↔
      (d : ℤ) = landing + post ∨ (d : ℤ) + 2 ^ 64 = landing + post := by
  rw [Int.bmod_add_bmod, Int.bmod_def]
  omega

theorem applyByteJump_eq_some_iff {jump : ByteJump} (hrange : jump.InRange) {haystack : List UInt8}
    (hlength : haystack.length < 2 ^ 63) {cursor position d : ℕ}
    (haddresses : Addresses jump haystack cursor position) :
    applyByteJump jump haystack cursor = some d ↔
      landing jump haystack position < 2 ^ 64 ∧ d ≤ haystack.length ∧
        ((d : ℤ) = landing jump haystack position + jump.postOffset ∨
          (d : ℤ) + 2 ^ 64 = landing jump haystack position + jump.postOffset) := by
  obtain ⟨hposition, hinside⟩ := haddresses
  rw [applyByteJump, resolvePosition_eq_some.2 hposition, Option.bind_some, readNumber_eq,
    if_pos hinside, Option.bind_some, Option.filter_eq_some_iff, decide_eq_true_eq, jumpTarget,
    toNat_wordAt jump.endian hrange.width_le hinside, landing]
  generalize fieldValue jump.endian (slice haystack position (position + jump.bytes.toNat)) *
    jump.multiplier.toNat = scaled
  rw [Nat.add_comm (position + jump.bytes.toNat) scaled]
  by_cases hfits : scaled + (position + jump.bytes.toNat) < 2 ^ 64
  · have hscaled : scaled < 2 ^ 64 := (Nat.le_add_right _ _).trans_lt hfits
    dsimp only
    rw [if_pos ⟨hscaled, hfits⟩]
    constructor
    · rintro ⟨hsome, hd⟩
      split_ifs at hsome with hnonneg
      rw [Option.some.injEq] at hsome
      refine ⟨hfits, hd, (bmod_add_eq_iff hfits hrange.postOffset hlength hd).1 ?_⟩
      rw [← hsome, Int.toNat_of_nonneg hnonneg]
    · rintro ⟨-, hd, hsum⟩
      have hmod := (bmod_add_eq_iff hfits hrange.postOffset hlength hd).2 hsum
      rw [hmod, if_pos (Int.natCast_nonneg d), Int.toNat_natCast]
      exact ⟨rfl, hd⟩
  · dsimp only
    rw [if_neg fun h => hfits h.2]
    exact ⟨fun h => absurd h.1 (by simp), fun h => absurd h.1 hfits⟩

theorem Addresses.unique {jump : ByteJump} {haystack : List UInt8} {cursor position position' : ℕ}
    (h : Addresses jump haystack cursor position) (h' : Addresses jump haystack cursor position') :
    position = position' := by
  have heq := h.1.trans h'.1.symm
  omega

theorem applyByteJump_of_not_addresses {jump : ByteJump} {haystack : List UInt8} {cursor : ℕ}
    (h : ∀ position, ¬ Addresses jump haystack cursor position) :
    applyByteJump jump haystack cursor = none := by
  rw [applyByteJump]
  cases hposition : resolvePosition cursor jump.offset jump.relative with
  | none => rfl
  | some position =>
    have houtside : ¬ position + jump.bytes.toNat ≤ haystack.length := fun hinside =>
      h position ⟨resolvePosition_eq_some.1 hposition, hinside⟩
    rw [Option.bind_some, readNumber_eq, if_neg houtside, Option.bind_none]

/-- A jump that the parser accepts is exact unless its sum wraps around. -/
theorem byteJump_exact_iff (text : Texts.Text) (jump : ByteJump) (haystack : List UInt8)
    (cursor : ℕ)
    (hparsed : parseByteJump text = .ok jump) (hlength : haystack.length < 2 ^ 63) :
    Exact jump haystack cursor ↔ ¬ Wraps jump haystack cursor := by
  have hrange := parseByteJump_inRange hparsed
  by_cases hsome : ∃ position, Addresses jump haystack cursor position
  · obtain ⟨position, haddresses⟩ := hsome
    have hiff (d : ℕ) := applyByteJump_eq_some_iff (d := d) hrange hlength haddresses
    have hpost := hrange.postOffset
    cases hjump : applyByteJump jump haystack cursor with
    | none =>
      have hcall : byteJumpCall jump haystack cursor = (false, cursor) := by
        rw [byteJumpCall, hjump, Option.elim_none]
      have hnever (d : ℕ) := mt (hiff d).2 (by rw [hjump]; exact Option.some_ne_none d ∘ Eq.symm)
      refine ⟨?_, fun _ => ⟨?_, ?_, ?_⟩⟩
      · rintro _ ⟨other, hother, hlanding, hwraps, hle⟩
        obtain rfl := haddresses.unique hother
        refine hnever (landing jump haystack position + jump.postOffset - 2 ^ 64).toNat
          ⟨hlanding, ?_, Or.inr ?_⟩
        · omega
        · omega
      · rw [hcall]
        refine ⟨fun h => absurd h Bool.false_ne_true, ?_⟩
        rintro ⟨other, hother, hnonneg, hle⟩
        obtain rfl := haddresses.unique hother
        refine absurd ⟨?_, ?_, Or.inl ?_⟩
          (hnever (landing jump haystack position + jump.postOffset).toNat)
        · omega
        · omega
        · omega
      · rw [hcall]
        exact fun h => absurd h Bool.false_ne_true
      · rw [hcall]
        exact fun _ => rfl
    | some d =>
      have hcall : byteJumpCall jump haystack cursor = (true, d) := by
        rw [byteJumpCall, hjump, Option.elim_some]
      obtain ⟨hlanding, hd, hsum | hsum⟩ := (hiff d).1 hjump
      · refine ⟨?_, fun _ => ⟨?_, ?_, ?_⟩⟩
        · rintro _ ⟨other, hother, -, hwraps, -⟩
          obtain rfl := haddresses.unique hother
          omega
        · rw [hcall]
          exact ⟨fun _ => ⟨position, haddresses, by omega, by omega⟩, fun _ => rfl⟩
        · rw [hcall]
          exact fun _ => ⟨position, haddresses, hsum⟩
        · rw [hcall]
          exact fun h => absurd h.symm Bool.false_ne_true
      · refine ⟨fun hexact => ?_, fun hwraps => ?_⟩
        · obtain ⟨other, hother, -, hle⟩ := hexact.made_iff.1 (by rw [hcall])
          obtain rfl := haddresses.unique hother
          omega
        · exact absurd ⟨position, haddresses, hlanding, by omega, by omega⟩ hwraps
  · have hnone := applyByteJump_of_not_addresses (not_exists.1 hsome)
    have hcall : byteJumpCall jump haystack cursor = (false, cursor) := by
      rw [byteJumpCall, hnone, Option.elim_none]
    refine ⟨fun _ h => hsome ⟨h.choose, h.choose_spec.1⟩, fun _ => ⟨?_, ?_, ?_⟩⟩
    · rw [hcall]
      exact ⟨fun h => absurd h Bool.false_ne_true, fun h =>
        absurd ⟨h.choose, h.choose_spec.1⟩ hsome⟩
    · rw [hcall]
      exact fun h => absurd h Bool.false_ne_true
    · rw [hcall]
      exact fun _ => rfl

/-- `byte_jump:8,0,post_offset 10` and `byte_jump:1,1,multiplier 2`. -/
def farJump : Texts.Text := "8,0,post_offset 10".toList

def nearJump : Texts.Text := "1,1,multiplier 2".toList

/-- The byte 2 at position 1, doubled, leads from the end of its field to position 6. -/
theorem byteJump_exact_near :
    ∃ jump, parseByteJump nearJump = .ok jump ∧ Exact jump [0, 2, 0, 0, 0, 0, 0] 0 := by
  refine ⟨⟨1, 1, false, 2, .big, 0⟩, by decide +kernel, ?_⟩
  apply (byteJump_exact_iff nearJump _ _ 0 (by decide +kernel) (by decide)).2
  rintro ⟨position, haddresses, hlanding, hwraps, -⟩
  rw [add_zero] at hwraps
  omega

/-- The number `2^64 - 16` and the width and post-offset make a sum of `2^64 + 2`: the jump is made,
to position 2. -/
theorem byteJump_wraps :
    ∃ jump, parseByteJump farJump = .ok jump ∧
      byteJumpCall jump [0xff, 0xff, 0xff, 0xff, 0xff, 0xff, 0xff, 0xf0] 0 = (true, 2) ∧
      ¬ Exact jump [0xff, 0xff, 0xff, 0xff, 0xff, 0xff, 0xff, 0xf0] 0 := by
  refine ⟨⟨8, 0, false, 1, .big, 10⟩, by decide +kernel, by decide +kernel, fun hexact => ?_⟩
  obtain ⟨position, haddresses, -, hle⟩ := hexact.made_iff.1 (by decide +kernel)
  obtain rfl : position = 0 := by
    have hposition := haddresses.1
    simpa [IsPosition] using hposition
  exact absurd hle (by decide +kernel)

end CyberSentinel.Detect
