import CyberSentinel.Addresses
import CyberSentinel.Bytes
import CyberSentinel.HostEvents
import CyberSentinel.Lines
import CyberSentinel.Tables
import CyberSentinel.Words

/-!
# Process and socket monitoring

A sweep reads the process table and the tables of listening sockets and reports what the sweep
before it did not have. The tree it reads is given by what its calls return. A process is known by
its id and its start time, a socket by its address.
-/

namespace CyberSentinel.Processes

open Bytes Numerals Tables Texts Words

def parseU32 (text : Text) : Option UInt32 := (parseNumber (2 ^ 32) text).map UInt32.ofNat

def parseU64 (text : Text) : Option UInt64 := (parseNumber (2 ^ 64) text).map UInt64.ofNat

/-- `from_str_radix(text, 16)` of a type with `size` values. -/
def parseHex (size : ℕ) (text : Text) : Option ℕ :=
  let digits := if text.head? = some '+' then text.tail else text
  if !digits.isEmpty && digits.all (isDigitIn 16) &&
    decide (value 16 digits < size) then some (value 16 digits)
  else none

def sanitise (text : Text) (limit : ℕ) : Text := (text.take limit).map cleanChar

/-- The name, the parent and the start time. The name is what lies between the first parenthesis
that opens and the last one that closes. -/
def parseStat (stat : Text) : Option (Text × Option UInt32 × UInt64) :=
  match splitOnce '(' stat, rsplitOnce ')' stat with
  | some (beforeName, _), some (upToClose, rest) =>
    if upToClose.length < beforeName.length then none
    else
      match slice? stat (beforeName.length + 1) upToClose.length with
      | none => none
      | some name =>
        let fields := splitWhitespace rest
        (fields[19]?.bind parseU64).map fun startTime =>
          (sanitise name 128, fields[1]?.bind parseU32, startTime)
  | _, _ => none

def lines (text : Text) : List Text := Lines.splitInclusive '\n' text

def parseStatusUid (status : Text) : Option UInt32 :=
  ((lines status).find? fun line => "Uid:".toList.isPrefixOf line).bind fun line =>
    (splitWhitespace line)[1]?.bind parseU32

structure ListeningSocket where
  address : Endpoint
  inode : UInt64
  deriving DecidableEq

/-- `HEXADDR:HEXPORT`, the address in words that have the lowest byte first. -/
def parseHexAddress (field : Text) (isV6 : Bool) : Option Endpoint := do
  let (address, port) ← splitOnce ':' field
  let port ← parseHex (2 ^ 16) port
  if isV6 then
    if byteLength address ≠ 32 then none
    else do
      let one ← parseHex (2 ^ 32) (slice address 0 8)
      let two ← parseHex (2 ^ 32) (slice address 8 16)
      let three ← parseHex (2 ^ 32) (slice address 16 24)
      let four ← parseHex (2 ^ 32) (slice address 24 32)
      let octets := [one, two, three, four].flatMap (ByteOrder.little.bytes 4)
      return ⟨.v6 (BitVec.ofNat 128 (ByteOrder.big.value octets)), UInt16.ofNat port⟩
  else
    if byteLength address ≠ 8 then none
    else do
      let word ← parseHex (2 ^ 32) address
      return ⟨.v4 (BitVec.ofNat 32 (ByteOrder.big.value (ByteOrder.little.bytes 4 word))),
        UInt16.ofNat port⟩

def parseNetLine (isV6 : Bool) (line : Text) : Option ListeningSocket := do
  let fields := splitWhitespace line
  let address ← fields[1]?
  let state ← fields[3]?
  if state.map Char.toLower ≠ "0a".toList then none
  else do
    let address ← parseHexAddress address isV6
    return ⟨address, (fields[9]?.bind parseU64).getD 0⟩

def parseNetTable (text : Text) (isV6 : Bool) : List ListeningSocket :=
  ((lines text).drop 1).filterMap (parseNetLine isV6)

structure ProcessKey where
  pid : UInt32
  startTime : UInt64
  deriving DecidableEq, Repr

def ProcessKey.rank (key : ProcessKey) : ℕ := key.pid.toNat * 2 ^ 64 + key.startTime.toNat

structure ProcessInfo where
  key : ProcessKey
  name : Text
  executable : Option Text
  commandLine : Option Text
  uid : Option UInt32
  parentPid : Option UInt32
  deriving DecidableEq

/-- What the files of a process read as; a text is there only if the file can be read as one. -/
structure ProcessFiles where
  stat : Option Text
  /-- What the link leads to, as it shows. -/
  exe : Option Text
  /-- The bytes as they show. -/
  cmdline : Option Text
  status : Option Text

structure ProcTree where
  /-- The names in the tree, where it can be listed; a name that is no text has none. -/
  entries : Option (List (Option Text))
  files : Text → ProcessFiles
  netTcp : Option Text
  netTcp6 : Option Text
  /-- What the open files of a process are, where they can be listed. -/
  fdLinks : UInt32 → Option (List (Option Text))

structure ScanLimits where
  maxProcesses : ℕ := 16384
  maxSockets : ℕ := 8192

structure Snapshot where
  processes : Table ProcessKey ProcessInfo := ∅
  listening : Table Endpoint ListeningSocket := ∅
  truncated : ℕ := 0
  unreadable : ℕ := 0

def maxCommandLine : ℕ := 4096

def commandLine (cmdline : Text) : Option Text :=
  let joined := [' '].intercalate ((cmdline.splitOn '\x00').filter fun part => !part.isEmpty)
  if joined.isEmpty then none else some (sanitise joined maxCommandLine)

def readProcess (files : ProcessFiles) (pid : UInt32) : Option ProcessInfo := do
  let stat ← files.stat
  let (name, parentPid, startTime) ← parseStat stat
  return {
    key := ⟨pid, startTime⟩
    name := name
    executable := files.exe
    commandLine := files.cmdline.bind commandLine
    uid := files.status.bind parseStatusUid
    parentPid := parentPid }

namespace Snapshot

def addEntry (tree : ProcTree) (limits : ScanLimits) (s : Snapshot)
    (entry : Option Text) : Snapshot :=
  match entry.bind fun name => (parseU32 name).map fun pid => (name, pid) with
  | none => s
  | some (name, pid) =>
    if limits.maxProcesses ≤ size s.processes then { s with truncated := s.truncated + 1 }
    else
      match readProcess (tree.files name) pid with
      | some info => { s with processes := s.processes.insert info.key info }
      | none => { s with unreadable := s.unreadable + 1 }

def addSockets (limits : ScanLimits) : Snapshot → List ListeningSocket → Snapshot
  | s, [] => s
  | s, socket :: rest =>
    if limits.maxSockets ≤ size s.listening then { s with truncated := s.truncated + 1 }
    else addSockets limits { s with listening := s.listening.insert socket.address socket } rest

/-- Take in a table of sockets; one that cannot be read is passed over. -/
def addTable (limits : ScanLimits) (s : Snapshot) (text : Option Text) (isV6 : Bool) : Snapshot :=
  match text with
  | none => s
  | some text => addSockets limits s (parseNetTable text isV6)

end Snapshot

def snapshot (tree : ProcTree) (limits : ScanLimits) : Snapshot :=
  match tree.entries with
  | none => { unreadable := 1 }
  | some entries =>
    let s := entries.foldl (Snapshot.addEntry tree limits) {}
    Snapshot.addTable limits (Snapshot.addTable limits s tree.netTcp false) tree.netTcp6 true

structure SweepEvent extends ProcessEvent where
  pid : UInt32
  executable : Option Text := none
  uid : Option UInt32 := none
  parentPid : Option UInt32 := none
  deriving DecidableEq

structure SweepOutcome where
  events : List SweepEvent := []
  truncated : ℕ := 0
  processesSeen : ℕ := 0
  socketsSeen : ℕ := 0

structure Watcher where
  limits : ScanLimits
  knownProcesses : Finset ProcessKey := ∅
  knownListening : Finset Endpoint := ∅
  established : Bool := false

def byRank {κ : Type} (rank : κ → ℕ) : HashOrder κ where
  arrange keys := keys.insertionSort fun a b => rank a ≤ rank b
  perm keys := List.perm_insertionSort _ keys

def started (info : ProcessInfo) : SweepEvent where
  change := .started
  name := String.ofList info.name
  commandLine := info.commandLine.map String.ofList
  pid := info.key.pid
  executable := info.executable
  uid := info.uid
  parentPid := info.parentPid

def displayEndpoint (address : Endpoint) : Text :=
  (match address.ip with
    | .v4 _ => address.ip.display
    | .v6 _ => '[' :: address.ip.display ++ [']']) ++
  ':' :: Nat.toDigits 10 address.port.toNat

/-- The first process, in the order of ids and start times, that has the socket among its open
files. -/
def ownerOf (tree : ProcTree) (s : Snapshot) (inode : UInt64) : Option ProcessInfo :=
  if inode = 0 then none
  else
    let needle := "socket:[".toList ++ Nat.toDigits 10 inode.toNat ++ [']']
    ((iter (byRank ProcessKey.rank) s.processes).find? fun entry =>
      ((tree.fdLinks entry.2.key.pid).getD []).any (· == some needle)).map Prod.snd

def listening (address : Endpoint) (owner : Option ProcessInfo) : SweepEvent where
  change := .listening
  name := (owner.map fun info => String.ofList info.name).getD "unknown"
  commandLine := some (String.ofList ("listening on ".toList ++ displayEndpoint address))
  pid := (owner.map fun info => info.key.pid).getD 0
  executable := owner.bind ProcessInfo.executable
  uid := owner.bind ProcessInfo.uid
  parentPid := owner.bind ProcessInfo.parentPid

def newProcesses (s : Snapshot) (known : Finset ProcessKey) : List SweepEvent :=
  ((iter (byRank ProcessKey.rank) s.processes).filter fun entry => entry.1 ∉ known).map fun entry =>
    started entry.2

def newListening (tree : ProcTree) (s : Snapshot) (known : Finset Endpoint) : List SweepEvent :=
  ((iter (byRank Endpoint.rank) s.listening).filter fun entry => entry.1 ∉ known).map fun entry =>
    listening entry.1 (ownerOf tree s entry.2.inode)

/-- Take a sweep and report what is new. The first one establishes the picture. -/
def Watcher.sweep (w : Watcher) (tree : ProcTree) : Watcher × SweepOutcome :=
  let s := snapshot tree w.limits
  ({ w with
      knownProcesses := s.processes.keys.toFinset
      knownListening := s.listening.keys.toFinset
      established := true },
    { events :=
        if w.established then newProcesses s w.knownProcesses ++
          newListening tree s w.knownListening else []
      truncated := s.truncated
      processesSeen := size s.processes
      socketsSeen := size s.listening })

end CyberSentinel.Processes
