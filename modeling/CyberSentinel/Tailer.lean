import CyberSentinel.Logs
import CyberSentinel.Runs
import CyberSentinel.Utf8

/-!
# Following a log file

A `Tailer` remembers how far it has read and what it has of an unfinished line. Each read is cut to
a limit, decoded, and split at its newlines. What the file system says about the path and what it
delivers are arguments: a stat, and the bytes from an offset on, fewer than asked for if it likes.
-/

namespace CyberSentinel.Logs

open Texts Lines Utf8

def maxLine : ℕ := 16 * 1024

def maxRead : ℕ := 1024 * 1024

inductive Stat
  | notFound
  | failed
  | found (length : ℕ) (identity : Option (ℕ × ℕ))
  deriving DecidableEq, Repr

structure Tailer where
  path : String
  offset : ℕ
  /-- Identity of the file being followed, so that a rotation is visible. -/
  identity : Option (ℕ × ℕ)
  /-- Partial trailing line held over until its newline arrives. -/
  pending : Text
  /-- Lines dropped because they exceeded the limit. -/
  oversized : ℕ := 0
  rotations : ℕ := 0
  deriving DecidableEq, Repr

structure Reading where
  pending : Text
  oversized : ℕ
  lines : List Text

/-- A piece with its newline completes the line that is held; any other is held, but not without
limit. -/
def Reading.takePiece (r : Reading) (piece : Text) : Reading :=
  if piece.getLast? = some '\n' then
    let complete := r.pending ++ stripLast '\r' piece.dropLast
    if maxLine < byteLength complete then { r with pending := [], oversized := r.oversized + 1 }
    else { r with pending := [], lines := r.lines ++ [complete] }
  else if maxLine < byteLength r.pending + byteLength piece then
    { r with pending := [], oversized := r.oversized + 1 }
  else { r with pending := r.pending ++ piece }

namespace Tailer

def new (path : String) : Stat → Tailer
  | .found length identity => { path, offset := length, identity, pending := [] }
  | .notFound | .failed => { path, offset := 0, identity := none, pending := [] }

def fromStart (path : String) (stat : Stat) : Tailer := { new path stat with offset := 0 }

/-- Truncated or rotated: start over on the new file. -/
def rotate (t : Tailer) (length : ℕ) (identity : Option (ℕ × ℕ)) : Tailer :=
  if length < t.offset || (identity.isSome && identity != t.identity) then
    { t with offset := 0, pending := [], rotations := t.rotations + 1, identity }
  else { t with identity }

def takeIn (t : Tailer) (buffer : List UInt8) : Tailer × List Text :=
  let reading := (splitInclusive '\n' (lossy buffer)).foldl Reading.takePiece
    ⟨t.pending, t.oversized, []⟩
  ({ t with
      offset := t.offset + buffer.length
      pending := reading.pending
      oversized := reading.oversized }, reading.lines)

/-- Read whatever has been appended since the last call; none when the file system fails. -/
def readNewLines (t : Tailer) (stat : Stat) (read : ℕ → ℕ → Option (List UInt8)) :
    Tailer × Option (List Text) :=
  match stat with
  -- a service that has not logged yet
  | .notFound => (t, some [])
  | .failed => (t, none)
  | .found length identity =>
    let t := t.rotate length identity
    if length = t.offset then (t, some [])
    else
      match read t.offset (min (length - t.offset) maxRead) with
      | none => (t, none)
      | some buffer =>
        let (t, lines) := t.takeIn buffer
        (t, some lines)

theorem readNewLines_found {t : Tailer} {length : ℕ} {identity : Option (ℕ × ℕ)}
    {read : ℕ → ℕ → Option (List UInt8)} {buffer : List UInt8}
    (hmore : length ≠ (t.rotate length identity).offset)
    (hread : read (t.rotate length identity).offset
      (min (length - (t.rotate length identity).offset) maxRead) = some buffer) :
    t.readNewLines (.found length identity) read =
      (((t.rotate length identity).takeIn buffer).1,
      some ((t.rotate length identity).takeIn buffer).2) := by
  simp only [readNewLines, if_neg hmore, hread]

end Tailer

/-- A file that one tailer follows, absent until something is written to it. -/
structure Following where
  identity : Option (ℕ × ℕ)
  contents : Option (List UInt8)
  tailer : Tailer

/-- How the file system answers a read: the stat fails, a later call fails, or it delivers at most
so many of the bytes asked for. -/
inductive Answer
  | statFailed
  | readFailed
  | delivered (count : ℕ)
  deriving DecidableEq, Repr

inductive FollowStep
  | append (bytes : List UInt8)
  | read (answer : Answer)
  deriving DecidableEq, Repr

namespace Following

def bytes (s : Following) : List UInt8 := s.contents.getD []

def stat (s : Following) : Stat :=
  match s.contents with
  | none => .notFound
  | some contents => .found contents.length s.identity

def readBytes (s : Following) : List UInt8 := s.bytes.take s.tailer.offset

def statFor (s : Following) : Answer → Stat
  | .statFailed => .failed
  | .readFailed | .delivered _ => s.stat

def deliver (s : Following) (offset want : ℕ) : Answer → Option (List UInt8)
  | .statFailed | .readFailed => none
  | .delivered count => some ((s.bytes.drop offset).take (min count want))

def step (s : Following) : FollowStep → Following × List Text
  | .append bytes => ({ s with contents := some (s.bytes ++ bytes) }, [])
  | .read answer =>
    let (tailer, lines) := s.tailer.readNewLines (s.statFor answer)
      (fun offset want => s.deliver offset want answer)
    ({ s with tailer }, lines.getD [])

/-- A tailer that has just been made, whatever the file system told it. -/
def Begins (s : Following) : Prop :=
  ∃ path stat, (stat = s.stat ∨ stat = .failed) ∧
    (s.tailer = Tailer.new path stat ∨ s.tailer = Tailer.fromStart path stat)

end Following

end CyberSentinel.Logs
