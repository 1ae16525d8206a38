import CyberSentinel.FimThread

/-!
# Overflows and the rescans they force

A tick takes the pending flag before it runs the rescan that the flag forces, and does not look at
what became of it: after a rescan that failed or was abandoned the flag is down, and the next one
waits for its time. Where every forced rescan is completed, an overflow stays pending until the
rescan it forces has compared everything.
-/

namespace CyberSentinel.Fim

open Tables Channels

/-- What happens to the worker: the watcher hands in a notification or goes, and the calls on it. -/
inductive WorkerCall
  | notify (notification : Notification)
  | watcherStops
  | handleNotification (notification : Notification)
  | tick (input : TickInput)

namespace FimWorker

def step (w : FimWorker) : WorkerCall → FimWorker × List FimEvent
  | .notify notification =>
    ({ w with notifications := w.notifications.map (fun c => (c.trySend notification).1) }, [])
  | .watcherStops => ({ w with notifications := w.notifications.map Channel.closeSender }, [])
  | .handleNotification notification => w.handleNotification notification
  | .tick input => ((w.tick input).1, (w.tick input).2.events)

def received (w : FimWorker) : FimWorker := (takeNotifications maxNotificationsPerTick w).1

def attempts (w : FimWorker) (input : TickInput) : Bool :=
  w.received.overflowPending || w.received.nextRescan.all (fun next => next ≤ input.now)

/-- The rescan that the tick would run returns an outcome, and was not abandoned. -/
def finishes (w : FimWorker) (input : TickInput) : Bool :=
  (w.received.monitor.rescanFallible .baselineRescan input.walked input.conditions input.left).2.any
    (fun outcome => !outcome.limits.abandoned)

def raises (w : FimWorker) : WorkerCall → Bool
  | .tick _ => w.received.overflowPending
  | .handleNotification notification => (w.handleNotification notification).1.overflowPending
  | .notify _ | .watcherStops => false

def completes (w : FimWorker) : WorkerCall → Bool
  | .tick input => w.attempts input && w.finishes input
  | _ => false

def Settles (w : FimWorker) : WorkerCall → Prop
  | .tick input => w.received.overflowPending = true → w.finishes input = true
  | _ => True

instance (w : FimWorker) (call : WorkerCall) : Decidable (w.Settles call) :=
  match call with
  | .tick _ => inferInstanceAs (Decidable (_ → _))
  | .notify _ | .watcherStops | .handleNotification _ => .isTrue trivial

/-- The flag that is set when the call is over, or that the call sets, is only taken down by a
rescan that comes to its end. -/
def ClearedByRescan (w : FimWorker) (calls : List WorkerCall) : Prop :=
  Runs.Along step (fun v call => v.overflowPending = true ∨ v.raises call = true →
    v.completes call = false → (v.step call).1.overflowPending = true) w calls

/-- After a call that sets the flag every tick runs a rescan, until one has come to its end. -/
def ReachesRescan (w : FimWorker) (calls : List WorkerCall) : Prop :=
  ∀ before call between input after,
    calls = before ++ (call :: between) ++ .tick input :: after →
    (Runs.run step w before).1.raises call = true →
    Runs.Along step (fun v c =>
    v.completes c = false) (Runs.run step w before).1 (call :: between) →
    (Runs.run step w (before ++ (call :: between))).1.attempts input = true

theorem tick_spec (w : FimWorker) (input : TickInput) :
    let cleared := { w.received with overflowPending := false }
    (w.tick input).1 = if w.attempts input then
      { (cleared.rescan input).1 with
        nextRescan := some (input.now + (cleared.rescan input).1.rescanInterval) }
      else cleared := by
  intro cleared
  have htick : (w.tick input).1 = (if w.attempts input then
      ({ (cleared.rescan input).1 with
        nextRescan := some (input.now + (cleared.rescan input).1.rescanInterval) },
        (cleared.rescan input).2)
      else (cleared, [])).1 := rfl
  rw [htick]
  split_ifs
  · rfl
  · rfl

theorem tick_pending (w : FimWorker) (input : TickInput) :
    (w.tick input).1.overflowPending = false := by
  rw [tick_spec]
  split_ifs
  · rw [rescan]
    split
    · rfl
    · rfl
  · rfl

theorem handleNotification_pending {w : FimWorker} (h : w.overflowPending = true)
    (notification : Notification) :
    (w.handleNotification notification).1.overflowPending = true := by
  cases notification with
  | failed => rfl
  | event needRescan paths =>
    rw [handleNotification]
    split_ifs
    · rfl
    · exact h

theorem takeNotifications_pending {w : FimWorker} (h : w.overflowPending = true) (limit : ℕ) :
    (takeNotifications limit w).1.overflowPending = true := by
  induction limit generalizing w with
  | zero => exact h
  | succ limit ih =>
    rw [takeNotifications]
    cases w.notifications with
    | none => exact h
    | some channel =>
      dsimp only
      split
      · next taken notification hreceived =>
        exact ih (handleNotification_pending
          (w := { w with notifications := some taken }) h notification)
      · exact h
      · rfl

theorem received_pending {w : FimWorker} (h : w.overflowPending = true) :
    w.received.overflowPending = true :=
  takeNotifications_pending h maxNotificationsPerTick

/-- A call settles what it is forced to exactly if it leaves the flag up where no rescan comes to
its end. -/
theorem settles_iff (w : FimWorker) (call : WorkerCall) :
    w.Settles call ↔ (w.overflowPending = true ∨ w.raises call = true →
      w.completes call = false → (w.step call).1.overflowPending = true) := by
  cases call with
  | notify notification =>
    exact ⟨fun _ h _ => h.resolve_right Bool.false_ne_true, fun _ => trivial⟩
  | watcherStops => exact ⟨fun _ h _ => h.resolve_right Bool.false_ne_true, fun _ => trivial⟩
  | handleNotification notification =>
    refine ⟨fun _ h _ => ?_, fun _ => trivial⟩
    rcases h with hpending | hraises
    · exact handleNotification_pending hpending notification
    · exact hraises
  | tick input =>
    have hforced : w.overflowPending = true ∨ w.raises (.tick input) = true ↔
        w.received.overflowPending = true := ⟨fun h => h.elim received_pending id, Or.inr⟩
    have hcleared : (w.step (.tick input)).1.overflowPending = false := w.tick_pending input
    rw [hforced, hcleared, Settles, completes, attempts]
    constructor
    · intro hsettles hpending hopen
      rw [hpending, hsettles hpending, Bool.true_or, Bool.true_and] at hopen
      exact absurd hopen (Bool.false_ne_true ∘ Eq.symm)
    · intro hcleared hpending
      by_contra hfinishes
      rw [Bool.not_eq_true] at hfinishes
      exact Bool.false_ne_true (hcleared hpending (by rw [hfinishes, Bool.and_false]))

/-- Overflows are cleared by completed rescans only, and every tick after one runs a rescan until
there is such a one, exactly if every forced rescan is run to its end. -/
theorem overflow_cleared_iff (w : FimWorker) (calls : List WorkerCall) :
    w.ClearedByRescan calls ∧ w.ReachesRescan calls ↔ Runs.Along step Settles w calls := by
  have hcleared : w.ClearedByRescan calls ↔ Runs.Along step Settles w calls := by
    rw [ClearedByRescan, show Settles = _ from funext fun v => funext fun call =>
      propext (v.settles_iff call)]
  rw [hcleared, and_iff_left_iff_imp]
  intro hsettles before call between input after hcalls hraises hopen
  rw [hcalls, Runs.along_append, Runs.along_append] at hsettles
  obtain ⟨⟨-, hsettled⟩, -⟩ := hsettles
  have hcall : ((Runs.run step w before).1.step call).1.overflowPending = true :=
    (settles_iff _ call).1 hsettled.1 (Or.inr hraises) hopen.1
  have hpending : (Runs.run step
      ((Runs.run step w before).1.step call).1 between).1.overflowPending =
      true := by
    refine Runs.invariant_along step (fun v => v.overflowPending = true)
      (fun v c => v.Settles c ∧ v.completes c = false) ?_ hcall
      ((Runs.along_and step _ _ _ _).2 ⟨hsettled.2, hopen.2⟩)
    intro v c hv hc
    exact (v.settles_iff c).1 hc.1 (Or.inl hv) hc.2
  have hrun : (Runs.run step w (before ++ (call :: between))).1 =
      (Runs.run step ((Runs.run step w before).1.step call).1 between).1 := by
    rw [Runs.run_append, Runs.run_cons]
  rw [hrun, attempts, received_pending hpending, Bool.true_or]

def hourlyWorker : FimWorker where
  monitor := sampleMonitor ⟨some "a", 10, 0o644, 0, 0⟩
  notifications := none
  rescanInterval := 3600
  nextRescan := some 3600

/-- A tick whose rescan would meet a changed file, with so many operations of the baseline that
succeed. -/
def changedTick (now left : ℕ) : WorkerCall :=
  .tick { now, walked := ⟨[samplePath], {}, List.nodup_singleton _⟩,
          conditions := { inspected := fun _ => .ok (some ⟨some "b", 10, 0o644, 0, 0⟩) }, left }

/-- The forced rescan fails at its first operation, and the next tick runs none. -/
theorem overflow_forgotten :
    ¬ hourlyWorker.ReachesRescan [.handleNotification (.event true []), changedTick 1 0,
      changedTick 2 8] := by
  intro h
  have hattempts := h [] (.handleNotification (.event true [])) [changedTick 1 0] _ [] rfl rfl
    ⟨rfl, by decide +kernel, trivial⟩
  exact absurd hattempts (by decide +kernel)

end FimWorker

end CyberSentinel.Fim
