import CyberSentinel.Config

/-!
# Normalization of request paths

Percent decoding, repeated up to a number of rounds, and path collapsing, with the flags that record
what each had to do. Decoding comes before collapsing.
-/

namespace CyberSentinel

structure NormalizationFlags where
  percentEncoded : Bool := false
  doubleEncoded : Bool := false
  invalidEscape : Bool := false
  nullByte : Bool := false
  traversal : Bool := false
  aboveRoot : Bool := false
  selfReference : Bool := false
  emptySegment : Bool := false
  backslash : Bool := false
  decodeLimitReached : Bool := false
  deriving DecidableEq, Repr

def NormalizationFlags.merge (a b : NormalizationFlags) : NormalizationFlags where
  percentEncoded := a.percentEncoded || b.percentEncoded
  doubleEncoded := a.doubleEncoded || b.doubleEncoded
  invalidEscape := a.invalidEscape || b.invalidEscape
  nullByte := a.nullByte || b.nullByte
  traversal := a.traversal || b.traversal
  aboveRoot := a.aboveRoot || b.aboveRoot
  selfReference := a.selfReference || b.selfReference
  emptySegment := a.emptySegment || b.emptySegment
  backslash := a.backslash || b.backslash
  decodeLimitReached := a.decodeLimitReached || b.decodeLimitReached

structure Normalized where
  bytes : List UInt8
  roundsApplied : ℕ
  flags : NormalizationFlags
  deriving DecidableEq, Repr

def hexValue (byte : UInt8) : Option UInt8 :=
  if 0x30 ≤ byte ∧ byte ≤ 0x39 then some (byte - 0x30)
  else if 0x61 ≤ byte ∧ byte ≤ 0x66 then some (byte - 0x61 + 10)
  else if 0x41 ≤ byte ∧ byte ≤ 0x46 then some (byte - 0x41 + 10)
  else none

def percentSign : UInt8 := 0x25

/-- One decoding pass. A `%` that begins no escape stays as it is. -/
def percentDecode : List UInt8 → List UInt8 × NormalizationFlags
  | [] => ([], {})
  | byte :: rest =>
    let next := percentDecode rest
    if byte ≠ percentSign then (byte :: next.1, next.2)
    else
      match rest with
      | first :: second :: tail =>
        match hexValue first, hexValue second with
        | some high, some low =>
          let decoded := (high <<< 4) ||| low
          let after := percentDecode tail
          (decoded :: after.1,
            { after.2 with
              nullByte := after.2.nullByte || decoded == 0
              percentEncoded := true })
        | _, _ => (percentSign :: next.1, { next.2 with invalidEscape := true })
      | _ => (percentSign :: next.1, { next.2 with invalidEscape := true })

/-- The remaining rounds, of which `round` have been applied. A round that changes nothing is the
last and is not counted. -/
def decodeLoop : ℕ → ℕ → List UInt8 → NormalizationFlags → Normalized
  | 0, round, current, flags => ⟨current, round, flags⟩
  | remaining + 1, round, current, flags =>
    let pass := percentDecode current
    if pass.1 = current then ⟨current, round, flags⟩
    else
      let merged := flags.merge pass.2
      decodeLoop remaining (round + 1) pass.1
        { merged with doubleEncoded := merged.doubleEncoded || decide (0 < round) }

def percentDecodeRepeatedly (input : List UInt8) (rounds : ℕ) : Normalized :=
  let result := decodeLoop rounds 0 input {}
  if result.roundsApplied = rounds ∧ 0 < rounds ∧ (percentDecode result.bytes).1 ≠ result.bytes then
    { result with flags := { result.flags with decodeLimitReached := true } }
  else result

def slash : UInt8 := 0x2f
def backslashByte : UInt8 := 0x5c
def dot : UInt8 := 0x2e

/-- One part of the path: kept, dropped, or taking the segment before it away. -/
def collapseStep (state : List (List UInt8) × NormalizationFlags) (part : List UInt8) :
    List (List UInt8) × NormalizationFlags :=
  if part = [] then state
  else if part = [dot] then (state.1, { state.2 with selfReference := true })
  else if part = [dot, dot] then
    (state.1.dropLast,
      { state.2 with traversal := true, aboveRoot := state.2.aboveRoot || state.1.isEmpty })
  else (state.1 ++ [part], state.2)

def collapsePath (input : List UInt8) (backslashIsSeparator : Bool) :
    List UInt8 × NormalizationFlags :=
  let backslash := backslashIsSeparator && input.contains backslashByte
  let separated := if backslashIsSeparator then
    input.map (fun byte => if byte = backslashByte then slash else byte) else input
  if separated = [] then ([], { backslash := backslash })
  else
    let parts := separated.splitOn slash
    -- the leading and the trailing part may be empty without a `//`
    let emptySegment := (parts.drop 1).dropLast.any List.isEmpty
    let trailing := parts.getLast? ∈ [some [], some [dot], some [dot, dot]]
    let collapsed := parts.foldl collapseStep
      ([], { backslash := backslash, emptySegment := emptySegment })
    let joined := (if separated.head? = some slash then [slash] else []) ++
      (collapsed.1.intersperse [slash]).flatten
    if trailing ∧ joined ≠ [] ∧ joined.getLast? ≠ some slash then (joined ++ [slash], collapsed.2)
    else (joined, collapsed.2)

def normalizePath (input : List UInt8) (options : NormalizeConfig) : Normalized :=
  let decoded := percentDecodeRepeatedly input options.decodeRounds
  if options.collapsePath then
    let collapsed := collapsePath decoded.bytes options.backslashIsSeparator
    { decoded with bytes := collapsed.1, flags := decoded.flags.merge collapsed.2 }
  else decoded

end CyberSentinel
