import CyberSentinel.Processes

/-!
# Sweeps that cannot read

A table that cannot be read is taken in as an empty one, and the sweep makes what it took in the
picture the next sweep is compared with. `failed_sweeps_change_nothing_iff` says in which runs that
does no harm.
-/

namespace CyberSentinel.Processes

open Tables Texts

/-- The table of processes cannot be read, or neither table of sockets can. -/
def ProcTree.Unreadable (tree : ProcTree) : Prop :=
  tree.entries = none ∨ (tree.netTcp = none ∧ tree.netTcp6 = none)

instance : DecidablePred ProcTree.Unreadable := fun tree =>
  decidable_of_iff (tree.entries.isNone = true ∨
    (tree.netTcp.isNone = true ∧ tree.netTcp6.isNone = true))
    (by simp only [ProcTree.Unreadable, Option.isNone_iff_eq_none])

def ProcTree.processKeys (tree : ProcTree) (limits : ScanLimits) : Finset ProcessKey :=
  ((tree.entries.getD []).foldl (Snapshot.addEntry tree limits) {}).processes.keys.toFinset

namespace Snapshot

theorem addEntry_listening (tree : ProcTree) (limits : ScanLimits) (s : Snapshot)
    (entry : Option Text) :
    (s.addEntry tree limits entry).listening = s.listening := by
  rw [addEntry]
  split
  · rfl
  · split_ifs
    · rfl
    · split
      · rfl
      · rfl

theorem foldl_addEntry_listening (tree : ProcTree) (limits : ScanLimits)
    (entries : List (Option Text)) (s : Snapshot) :
    (entries.foldl (addEntry tree limits) s).listening = s.listening := by
  induction entries generalizing s with
  | nil => rfl
  | cons entry rest ih => rw [List.foldl_cons, ih, addEntry_listening]

theorem addSockets_processes (limits : ScanLimits) (sockets : List ListeningSocket) (s : Snapshot) :
    (addSockets limits s sockets).processes = s.processes := by
  induction sockets generalizing s with
  | nil => rfl
  | cons socket rest ih =>
    rw [addSockets]
    split_ifs
    · rfl
    · rw [ih]

theorem addTable_processes (limits : ScanLimits) (s : Snapshot) (text : Option Text) (isV6 : Bool) :
    (addTable limits s text isV6).processes = s.processes := by
  cases text with
  | none => rfl
  | some text => exact addSockets_processes limits _ s

end Snapshot

theorem snapshot_processes (tree : ProcTree) (limits : ScanLimits) :
    (snapshot tree limits).processes.keys.toFinset = tree.processKeys limits := by
  rw [snapshot, ProcTree.processKeys]
  cases tree.entries with
  | none => rfl
  | some entries => simp only [Snapshot.addTable_processes, Option.getD_some]

theorem snapshot_listening {tree : ProcTree} (h : tree.Unreadable) (limits : ScanLimits) :
    (snapshot tree limits).listening = ∅ := by
  rw [snapshot]
  cases hentries : tree.entries with
  | none => rfl
  | some entries =>
    rcases h with hnone | ⟨htcp, htcp6⟩
    · rw [hnone] at hentries
      cases hentries
    · simp only [htcp, htcp6, Snapshot.addTable, Snapshot.foldl_addEntry_listening]

/-- A sweep that cannot read leaves the watcher as it was exactly if the picture was established and
was what the tree still shows of it. -/
theorem sweep_eq_self_iff {tree : ProcTree} (h : tree.Unreadable) (w : Watcher) :
    (w.sweep tree).1 = w ↔
      w.established = true ∧ w.knownProcesses = tree.processKeys w.limits ∧
        w.knownListening = ∅ := by
  have hlistening : (snapshot tree w.limits).listening.keys.toFinset = ∅ := by
    rw [snapshot_listening h]
    rfl
  obtain ⟨limits, processes, listening, established⟩ := w
  simp only [Watcher.sweep, snapshot_processes, hlistening, Watcher.mk.injEq, true_and]
  constructor
  · rintro ⟨hprocesses, hknown, hestablished⟩
    exact ⟨hestablished.symm, hprocesses.symm, hknown.symm⟩
  · rintro ⟨hestablished, hprocesses, hknown⟩
    exact ⟨hprocesses.symm, hknown.symm, hestablished.symm⟩

def run (limits : ScanLimits) (trees : List ProcTree) : Watcher :=
  trees.foldl (fun w tree => (w.sweep tree).1) { limits := limits }

theorem run_concat (limits : ScanLimits) (trees : List ProcTree) (tree : ProcTree) :
    run limits (trees ++ [tree]) = ((run limits trees).sweep tree).1 := by
  rw [run, List.foldl_append, List.foldl_cons, List.foldl_nil, ← run]

theorem run_limits (limits : ScanLimits) (trees : List ProcTree) :
    (run limits trees).limits = limits := by
  induction trees using List.reverseRecOn with
  | nil => rfl
  | append_singleton trees tree ih =>
    rw [run_concat]
    exact ih

def lastRead (trees : List ProcTree) : Option ProcTree :=
  (trees.filter fun tree => ¬tree.Unreadable).getLast?

/-- What is new since the last sweep that could read; nothing if there was none. -/
def newSince (limits : ScanLimits) (last : Option ProcTree) (tree : ProcTree) : List SweepEvent :=
  match last with
  | none => []
  | some earlier =>
    newProcesses (snapshot tree limits) (snapshot earlier limits).processes.keys.toFinset ++
      newListening tree (snapshot tree limits) (snapshot earlier limits).listening.keys.toFinset

/-- In the run a sweep that cannot read changes nothing, and any other reports what is new since the
last one that could read. -/
structure FailuresChangeNothing (limits : ScanLimits) (trees : List ProcTree) : Prop where
  kept : ∀ before tree after, trees = before ++ tree :: after → tree.Unreadable →
    ((run limits before).sweep tree).1 = run limits before
  reported : ∀ before tree after, trees = before ++ tree :: after → ¬tree.Unreadable →
    ((run limits before).sweep tree).2.events = newSince limits (lastRead before) tree

/-- What a sweep that could read leaves is what the next one compares with. -/
structure Pictures (limits : ScanLimits) (trees : List ProcTree) (w : Watcher) : Prop where
  established : w.established = (lastRead trees).isSome
  processes : ∀ earlier, lastRead trees = some earlier →
    w.knownProcesses = (snapshot earlier limits).processes.keys.toFinset
  listening : ∀ earlier, lastRead trees = some earlier →
    w.knownListening = (snapshot earlier limits).listening.keys.toFinset

theorem lastRead_concat_unreadable {tree : ProcTree} (h : tree.Unreadable) (trees : List ProcTree) :
    lastRead (trees ++ [tree]) = lastRead trees := by
  simp [lastRead, h]

theorem lastRead_concat {tree : ProcTree} (h : ¬tree.Unreadable) (trees : List ProcTree) :
    lastRead (trees ++ [tree]) = some tree := by
  simp [lastRead, h]

/-- Where the sweeps that cannot read have changed nothing, the watcher has the picture of the last
one that could. -/
theorem pictures_run {limits : ScanLimits} {trees : List ProcTree}
    (h : ∀ before tree after, trees = before ++ tree :: after → tree.Unreadable →
      ((run limits before).sweep tree).1 = run limits before) :
      Pictures limits trees (run limits trees) := by
  induction trees using List.reverseRecOn with
  | nil =>
    have hnone : lastRead [] = none := rfl
    refine ⟨rfl, fun earlier hlast => ?_, fun earlier hlast => ?_⟩
    · rw [hnone] at hlast
      cases hlast
    · rw [hnone] at hlast
      cases hlast
  | append_singleton trees tree ih =>
    have hbefore := ih fun before other after hsplit =>
      h before other (after ++ [tree]) (by rw [hsplit, List.append_assoc, List.cons_append])
    rw [run_concat]
    by_cases hread : tree.Unreadable
    · rw [h trees tree [] rfl hread]
      have hlast := lastRead_concat_unreadable hread trees
      exact ⟨hlast ▸ hbefore.established, fun earlier hearlier =>
        hbefore.processes earlier (hlast ▸ hearlier),
        fun earlier hearlier => hbefore.listening earlier (hlast ▸ hearlier)⟩
    · have hlast := lastRead_concat hread trees
      refine ⟨by rw [hlast]; rfl, fun earlier hearlier => ?_, fun earlier hearlier => ?_⟩
      · rw [hlast, Option.some.injEq] at hearlier
        rw [← hearlier, Watcher.sweep, run_limits]
      · rw [hlast, Option.some.injEq] at hearlier
        rw [← hearlier, Watcher.sweep, run_limits]

/-- In a run the sweeps that cannot read change nothing, so that the others report exactly what is
new since the last one that could, if and only if each of them finds the picture established, no
socket known, and as known processes exactly those that the tree shows. -/
theorem failed_sweeps_change_nothing_iff (limits : ScanLimits) (trees : List ProcTree) :
    FailuresChangeNothing limits trees ↔
      ∀ before tree after, trees = before ++ tree :: after → tree.Unreadable →
        (run limits before).established = true ∧
          (run limits before).knownProcesses = tree.processKeys limits ∧
          (run limits before).knownListening = ∅ := by
  have hstep (before : List ProcTree) {tree : ProcTree} (hread : tree.Unreadable) :=
    sweep_eq_self_iff hread (run limits before)
  simp only [run_limits] at hstep
  constructor
  · intro h before tree after hsplit hread
    exact (hstep before hread).1 (h.kept before tree after hsplit hread)
  · intro h
    have hkept : ∀ before tree after, trees = before ++ tree :: after → tree.Unreadable →
        ((run limits before).sweep tree).1 = run limits before :=
        fun before tree after hsplit hread =>
      (hstep before hread).2 (h before tree after hsplit hread)
    refine ⟨hkept, fun before tree after hsplit _ => ?_⟩
    have hpictures : Pictures limits before (run limits before) :=
      pictures_run fun earlier other later hearlier =>
      hkept earlier other (later ++ tree :: after)
        (by rw [hsplit, hearlier, List.append_assoc, List.cons_append])
    rw [Watcher.sweep, run_limits]
    dsimp only
    rw [hpictures.established]
    cases hlast : lastRead before with
    | none => rfl
    | some earlier => rw [hpictures.processes earlier hlast, hpictures.listening earlier hlast]; rfl

def quietTree : ProcTree where
  entries := some [some ['1']]
  files _ :=
    { stat := some "1 (init) S 0 0 0 0 0 0 0 0 0 0 0 0 0 0 0 0 0 0 7 0 0".toList
      exe := none
      cmdline := none
      status := none }
  netTcp := some []
  netTcp6 := none
  fdLinks _ := none

def darkTree : ProcTree := { quietTree with entries := none }

/-- After a sweep that could not read, the process is reported as started. -/
theorem running_process_reported_again :
    ¬FailuresChangeNothing {} [quietTree, darkTree, quietTree] ∧
      ((run {} [quietTree, darkTree]).sweep quietTree).2.events.map (fun event => event.change) =
      [.started] ∧
      (run {} [darkTree]).established = true := by
  refine ⟨fun h => ?_, by decide +kernel, rfl⟩
  have hkept := h.kept [quietTree] darkTree [quietTree] rfl (.inl rfl)
  have hknown := congrArg Watcher.knownProcesses hkept
  exact absurd hknown (by decide +kernel)

end CyberSentinel.Processes
