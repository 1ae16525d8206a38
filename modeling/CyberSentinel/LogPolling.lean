import CyberSentinel.TailerLines
import Mathlib.Data.List.DropRight

/-!
# Polling the log sources

A poll goes through the log files and then the journal with one budget of lines. A file is read
before the budget is asked how many of its lines may be looked at, and the lines beyond it are kept
nowhere: the journal's stay in their channel. So a poll looks at every line it was given exactly
when each read fits into what is left of the budget.
-/

namespace CyberSentinel.Logs

open Texts Lines Utf8

def isBlank (c : Char) : Bool := c = ' ' || c = '\t'

def nextToken (text : Text) : Option (Text × Text) :=
  let text := text.dropWhile isBlank
  if text.isEmpty then none
  else some (text.takeWhile (!isBlank ·), (text.dropWhile (!isBlank ·)).dropWhile isBlank)

/-- `'!'..='~'`. -/
def isAsciiGraphic (c : Char) : Bool := 0x21 ≤ c.toNat && c.toNat ≤ 0x7e

section

variable (quoted : String → String)

/-- Parse `MMM DD HH:MM:SS host service[pid]: message`. -/
def parseSyslogLine (line : Text) (logSource : String) : Option ParsedAuth := do
  if maxLine < byteLength line then none
  let (_, rest) ← nextToken line
  let (_, rest) ← nextToken rest
  let (_, rest) ← nextToken rest
  let (_, rest) ← nextToken rest
  let (tag, message) ← nextToken rest
  let service := (tag.rdropWhile (· = ':')).takeWhile (· ≠ '[')
  if service.isEmpty || !service.all isAsciiGraphic then none
  parseAuthMessage quoted (String.ofList message) (some (String.ofList service)) logSource

end

def maxLogLinesPerPoll : ℕ := 1024

structure HidsStats where
  authRecords : ℕ := 0
  authUnparsed : ℕ := 0
  authSuspicious : ℕ := 0
  deriving DecidableEq, Repr

/-- What the host sensor has for its log sources: a tailer for each file, and the records of the
journal that wait in their channel. -/
structure HostLogs where
  tailers : List Tailer
  journal : Option (List String)
  stats : HidsStats

structure FileView where
  stat : Stat
  read : ℕ → ℕ → Option (List UInt8)

/-- What a poll finds: an answer for each file, and the records that have come over the journal. -/
structure PollInput where
  views : ℕ → FileView
  arrived : List String

/-- The lines that one read returned, and those of them that were parsed. -/
structure FileRead where
  returned : List Text
  parsed : List Text
  deriving DecidableEq, Repr

def HidsStats.count (stats : HidsStats) (parsed : Option ParsedAuth) : HidsStats :=
  { authRecords := stats.authRecords + 1
    authUnparsed := stats.authUnparsed + if parsed.isNone then 1 else 0
    authSuspicious := stats.authSuspicious +
      if parsed.any (fun p => !p.event.suspicious.isEmpty) then 1 else 0 }

/-- Read the files as long as there is budget; what is left of it goes to the next one. -/
def pollFiles : ℕ → List Tailer → (ℕ → FileView) → List (Tailer × FileRead) × ℕ
  | budget, [], _ => ([], budget)
  | budget, tailer :: tailers, views =>
    if budget = 0 then ((tailer :: tailers).map (fun t => (t, ⟨[], []⟩)), 0)
    else
      let (tailer, lines) := tailer.readNewLines (views 0).stat (views 0).read
      -- a file that cannot be read is warned about, and the next one has its turn
      let lines := lines.getD []
      let taken := lines.take budget
      let (rest, left) := pollFiles (budget - taken.length) tailers (fun i => views (i + 1))
      ((tailer, ⟨lines, taken⟩) :: rest, left)

/-- What one poll does: what it read of each file and of the journal, and the events it hands on. -/
structure PollOutput where
  files : List FileRead
  journal : List String
  auth : List AuthEvent

section

variable (quoted : String → String) (parseJournalRecord : String → String → Option ParsedAuth)

def pollLogs (s : HostLogs) (input : PollInput) : HostLogs × PollOutput :=
  let (polled, budget) := pollFiles maxLogLinesPerPoll s.tailers input.views
  let waiting := s.journal.map (· ++ input.arrived)
  let drained := (waiting.getD []).take budget
  let parsed := polled.flatMap (fun file => file.2.parsed.map
      (fun line => parseSyslogLine quoted line ("file:" ++ file.1.path))) ++
    drained.map (fun record => parseJournalRecord record "journald")
  ({ tailers := polled.map Prod.fst
     journal := waiting.map (·.drop budget)
     stats := parsed.foldl HidsStats.count s.stats },
    { files := polled.map Prod.snd
      journal := drained
      auth := parsed.filterMap (·.map ParsedAuth.event) })

end

/-- Each file that is read returns no more lines than the budget has left. -/
def FitsBudget : ℕ → List Tailer → (ℕ → FileView) → Prop
  | _, [], _ => True
  | budget, tailer :: tailers, views =>
    budget = 0 ∨
      let lines := (tailer.readNewLines (views 0).stat (views 0).read).2.getD []
      lines.length ≤ budget ∧ FitsBudget (budget - lines.length) tailers (fun i => views (i + 1))

theorem pollFiles_of_zero (tailers : List Tailer) (views : ℕ → FileView) :
    pollFiles 0 tailers views = (tailers.map (fun t => (t, ⟨[], []⟩)), 0) := by
  cases tailers with
  | nil => rfl
  | cons tailer tailers => rw [pollFiles, if_pos rfl]

theorem pollFiles_cons {budget : ℕ} (hbudget : budget ≠ 0) (tailer : Tailer) (tailers : List Tailer)
    (views : ℕ → FileView) :
    let lines := (tailer.readNewLines (views 0).stat (views 0).read).2.getD []
    (pollFiles budget (tailer :: tailers) views).1 =
      ((tailer.readNewLines (views 0).stat (views 0).read).1, ⟨lines, lines.take budget⟩) ::
        (pollFiles (budget - (lines.take budget).length) tailers (fun i => views (i + 1))).1 := by
  rw [pollFiles, if_neg hbudget]

theorem parsed_prefix (budget : ℕ) (tailers : List Tailer) (views : ℕ → FileView) :
    ∀ file ∈ (pollFiles budget tailers views).1, file.2.parsed <+: file.2.returned := by
  induction tailers generalizing budget views with
  | nil => simp [pollFiles]
  | cons tailer tailers ih =>
    by_cases hbudget : budget = 0
    · rw [hbudget, pollFiles_of_zero]
      intro file hfile
      obtain ⟨t, -, rfl⟩ := List.mem_map.1 hfile
      exact List.prefix_rfl
    · rw [pollFiles_cons hbudget]
      exact List.forall_mem_cons.2 ⟨List.take_prefix _ _, ih _ _⟩

theorem fitsBudget_iff (budget : ℕ) (tailers : List Tailer) (views : ℕ → FileView) :
    FitsBudget budget tailers views ↔
      ∀ file ∈ (pollFiles budget tailers views).1, file.2.parsed = file.2.returned := by
  induction tailers generalizing budget views with
  | nil => simp [FitsBudget, pollFiles]
  | cons tailer tailers ih =>
    rw [FitsBudget]
    by_cases hbudget : budget = 0
    · apply iff_of_true (Or.inl hbudget)
      rw [hbudget, pollFiles_of_zero]
      intro file hfile
      obtain ⟨t, -, rfl⟩ := List.mem_map.1 hfile
      rfl
    · rw [pollFiles_cons hbudget, List.forall_mem_cons, or_iff_right hbudget, ← ih]
      generalize (tailer.readNewLines (views 0).stat (views 0).read).2.getD [] = lines
      constructor
      · rintro ⟨hle, hrest⟩
        have htake : lines.take budget = lines := List.take_of_length_le hle
        rw [htake]
        exact ⟨rfl, hrest⟩
      · rintro ⟨htake, hrest⟩
        change lines.take budget = lines at htake
        rw [htake] at hrest
        exact ⟨List.take_eq_self_iff lines |>.1 htake, hrest⟩

def parsedOf (i : ℕ) (outputs : List PollOutput) : List Text :=
  outputs.flatMap (fun out => (out.files[i]?.map FileRead.parsed).getD [])

def returnedOf (i : ℕ) (outputs : List PollOutput) : List Text :=
  outputs.flatMap (fun out => (out.files[i]?.map FileRead.returned).getD [])

theorem length_flatMap_le {α β : Type*} {f g : α → List β} {l : List α} (h : ∀ a ∈ l, f a <+: g a) :
    (l.flatMap f).length ≤ (l.flatMap g).length := by
  rw [List.length_flatMap, List.length_flatMap]
  exact List.sum_le_sum (fun a ha => (h a ha).length_le)

/-- Where each part is a front of another, the wholes are the same only when the parts are. -/
theorem flatMap_eq_iff_of_prefix {α β : Type*} {f g : α → List β} {l : List α}
    (h : ∀ a ∈ l, f a <+: g a) : l.flatMap f = l.flatMap g ↔ ∀ a ∈ l, f a = g a := by
  induction l with
  | nil => simp
  | cons a l ih =>
    obtain ⟨ha, hl⟩ := List.forall_mem_cons.1 h
    rw [List.flatMap_cons, List.flatMap_cons, List.forall_mem_cons, ← ih hl]
    constructor
    · intro heq
      have hlength := congrArg List.length heq
      rw [List.length_append, List.length_append] at hlength
      have hfirst := ha.length_le
      have hrest := length_flatMap_le hl
      exact List.append_inj heq (by omega)
    · rintro ⟨hfirst, hrest⟩
      rw [hfirst, hrest]

theorem parsedOf_eq_returnedOf_iff {outputs : List PollOutput}
    (h : ∀ out ∈ outputs, ∀ file ∈ out.files, file.parsed <+: file.returned) :
    (∀ i, parsedOf i outputs = returnedOf i outputs) ↔
      ∀ out ∈ outputs, ∀ file ∈ out.files, file.parsed = file.returned := by
  have hparts : ∀ i, parsedOf i outputs = returnedOf i outputs ↔ ∀ out ∈ outputs,
      (out.files[i]?.map FileRead.parsed).getD [] =
      (out.files[i]?.map FileRead.returned).getD [] := by
    intro i
    apply flatMap_eq_iff_of_prefix
    intro out hout
    cases hfile : out.files[i]? with
    | none => exact List.prefix_rfl
    | some file => exact h out hout file (List.mem_of_getElem? hfile)
  constructor
  · intro heq out hout file hfile
    obtain ⟨i, hi⟩ := List.mem_iff_getElem?.1 hfile
    have hsame := (hparts i).1 (heq i) out hout
    rwa [hi] at hsame
  · intro heq i
    refine (hparts i).2 (fun out hout => ?_)
    cases hfile : out.files[i]? with
    | none => rfl
    | some file => exact heq out hout file (List.mem_of_getElem? hfile)

def quiet : PollInput := ⟨fun _ => ⟨.notFound, fun _ _ => none⟩, []⟩

def PollOutput.records (out : PollOutput) : ℕ :=
  (out.files.map (fun file => file.parsed.length)).sum + out.journal.length

theorem authRecords_foldl (parsed : List (Option ParsedAuth)) (stats : HidsStats) :
    (parsed.foldl HidsStats.count stats).authRecords = stats.authRecords + parsed.length := by
  induction parsed generalizing stats with
  | nil => rfl
  | cons p parsed ih =>
    rw [List.foldl_cons, ih, List.length_cons]
    change stats.authRecords + 1 + parsed.length = _
    omega

section

variable (quoted : String → String) (parseJournalRecord : String → String → Option ParsedAuth)

theorem authRecords_pollLogs (s : HostLogs) (input : PollInput) :
    (pollLogs quoted parseJournalRecord s input).1.stats.authRecords =
      s.stats.authRecords + (pollLogs quoted parseJournalRecord s input).2.records := by
  simp only [pollLogs, authRecords_foldl, PollOutput.records, List.length_append,
    List.length_flatMap,
    List.length_map, List.map_map]
  rfl

/-- The polls so far have parsed what was returned, what a later poll makes up for included. -/
def CaughtUp (s : HostLogs) (polls : List PollInput) : Prop :=
  ∃ later, ∀ i,
    parsedOf i (Runs.run (pollLogs quoted parseJournalRecord) s
      (polls ++ List.replicate later quiet)).2 =
    returnedOf i (Runs.run (pollLogs quoted parseJournalRecord) s
      (polls ++ List.replicate later quiet)).2

def PollFits (s : HostLogs) (input : PollInput) : Prop :=
  FitsBudget maxLogLinesPerPoll s.tailers input.views

theorem parsed_all_iff (s : HostLogs) (polls : List PollInput) :
    (∀ i, parsedOf i (Runs.run (pollLogs quoted parseJournalRecord) s polls).2 =
      returnedOf i (Runs.run (pollLogs quoted parseJournalRecord) s polls).2) ↔
      Runs.Along (pollLogs quoted parseJournalRecord) PollFits s polls := by
  have hbegins : ∀ out ∈ (Runs.run (pollLogs quoted parseJournalRecord) s polls).2,
      ∀ file ∈ out.files, file.parsed <+: file.returned := by
    rw [Runs.forall_output_iff (A := fun _ _ => True)]
    · rw [Runs.along_iff]
      exact fun _ _ _ _ => trivial
    · intro s input
      refine iff_of_true ?_ trivial
      intro file hfile
      obtain ⟨polled, hpolled, rfl⟩ := List.mem_map.1 hfile
      exact parsed_prefix _ _ _ polled hpolled
  rw [parsedOf_eq_returnedOf_iff hbegins, Runs.forall_output_iff]
  intro s input
  exact List.forall_mem_map.trans (fitsBudget_iff _ _ _).symm

theorem caughtUp_iff_fits (s : HostLogs) (polls : List PollInput) :
    CaughtUp quoted parseJournalRecord s polls ↔
      Runs.Along (pollLogs quoted parseJournalRecord) PollFits s polls := by
  constructor
  · rintro ⟨later, hall⟩
    rw [parsed_all_iff, Runs.along_append] at hall
    exact hall.1
  · intro halong
    refine ⟨0, ?_⟩
    rw [List.replicate_zero, List.append_nil, parsed_all_iff]
    exact halong

/-- Every record that is counted is a line that was parsed or came over the journal; and the polls
have caught up with what the files' reads returned exactly when no read of a poll returned more
lines than its budget had left. -/
theorem parsed_lines_caught_up_iff (s : HostLogs) (polls : List PollInput) :
    (Runs.run (pollLogs quoted parseJournalRecord) s polls).1.stats.authRecords =
      s.stats.authRecords +
        ((Runs.run (pollLogs quoted parseJournalRecord) s polls).2.map PollOutput.records).sum ∧
    (CaughtUp quoted parseJournalRecord s polls ↔
      Runs.Along (pollLogs quoted parseJournalRecord) PollFits s polls) := by
  refine ⟨?_, caughtUp_iff_fits quoted parseJournalRecord s polls⟩
  induction polls generalizing s with
  | nil => rfl
  | cons input polls ih =>
    rw [Runs.run_cons, ih, authRecords_pollLogs, List.map_cons, List.sum_cons, Nat.add_assoc]

def emptyLines (count : ℕ) : FileView where
  stat := .found count (some (1, 1))
  read offset want := some (((List.replicate count newline).drop offset).take want)

theorem cut_replicate_newline (count : ℕ) :
    cut newline (List.replicate count newline) = (List.replicate count [], []) := by
  induction count with
  | zero => rfl
  | succ count ih => rw [List.replicate_succ, cut_cons_sep, ih, List.replicate_succ]

theorem readNewLines_emptyLines {count : ℕ} (hpos : 0 < count) (hle : count ≤ maxRead)
    (path : String) :
    ((Tailer.new path .notFound).readNewLines (emptyLines count).stat (emptyLines count).read).2 =
      some (List.replicate count []) := by
  have hrotated : ((Tailer.new path .notFound).rotate count (some (1, 1))).pending = [] := rfl
  have hwhole : Whole [] (List.replicate count newline) := by
    refine ⟨?_, by simp, ?_⟩
    · rintro ⟨p, hp, -⟩
      exact absurd hp (by simp [stateAfter])
    · rw [cut_replicate_newline, extend_nil]
      exact Nat.zero_le _
  obtain ⟨-, hlines⟩ := takeIn_whole hrotated hwhole
  have hkept : keep ((List.replicate count []).map decodeLine) = List.replicate count [] := by
    rw [List.map_replicate, keep, List.filter_replicate]
    rfl
  rw [cut_replicate_newline, extend_nil, hkept] at hlines
  have hread : (emptyLines count).read 0 (min (count - 0) maxRead) =
      some (List.replicate count newline) := by
    rw [Nat.sub_zero, min_eq_left hle]
    change some (((List.replicate count newline).drop 0).take count) = _
    rw [List.drop_zero, List.take_of_length_le (List.length_replicate).le]
  have hmore : count ≠ ((Tailer.new path .notFound).rotate count (some (1, 1))).offset := hpos.ne'
  have hreads := Tailer.readNewLines_found hmore hread
  exact (congrArg Prod.snd hreads).trans (congrArg some hlines)

/-- One line more than the budget: the last one is never parsed. -/
theorem last_line_of_flood_lost :
    ¬ CaughtUp (fun text => text) (fun _ _ => none) ⟨[Tailer.new "auth.log" .notFound], none, {}⟩
      [⟨fun _ => emptyLines (maxLogLinesPerPoll + 1), []⟩] := by
  rw [caughtUp_iff_fits]
  rintro ⟨hzero | ⟨hle, -⟩, -⟩
  · exact absurd hzero (by decide)
  · rw [readNewLines_emptyLines (by decide) (by decide), Option.getD_some,
      List.length_replicate] at hle
    exact absurd hle (by decide)

end

end CyberSentinel.Logs
