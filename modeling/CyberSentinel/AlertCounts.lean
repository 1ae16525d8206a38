import CyberSentinel.SensorEvents

/-!
# The engine counts its alerts

The engine's counters are taken through the loop over the candidate rules together with the alerts
that the loop collects, and back into the engine. So what they count is what the calls return.
-/

namespace CyberSentinel.Detect

open Tables
open Rules (Buffer)

variable {R : Regex} {A : AhoCorasick} {T : TextRegex}

/-- The alerts counted since there were `base` of them are those at hand. -/
def Tally.Counted (base : ℕ) (t : Tally) : Prop := t.counters.alerts = base + t.alerts.length

theorem Tally.Counted.judge {base : ℕ} {t : Tally} (h : t.Counted base) (limits : EngineLimits)
    (input : MatchInput) (now : Instant) (bits : FlowBits) (rule : CompiledRule R) :
    (t.judge limits input now bits rule).Counted base := by
  unfold Tally.judge
  cases evaluate rule input bits with
  | none => exact h
  | some outcome =>
    simp only [Tally.hit]
    split_ifs
    · exact h
    · rw [Tally.Counted, List.length_append, List.length_singleton, ← Nat.add_assoc]
      exact congrArg (· + 1) h
    · exact h

def HostTally.Counted (base : ℕ) (t : HostTally) : Prop :=
  t.counters.alerts = base + t.alerts.length

theorem HostTally.Counted.judge {base : ℕ} {t : HostTally} (h : t.Counted base)
    (limits : EngineLimits) (observation : HostObservation) (now : Instant) (bits : FlowBits)
    (rule : CompiledHostRule T) : (t.judge limits observation now bits rule).Counted base := by
  unfold HostTally.judge
  cases evaluateHost rule observation bits with
  | none => exact h
  | some outcome =>
    simp only [HostTally.hit]
    split_ifs
    · exact h
    · rw [HostTally.Counted, List.length_append, List.length_singleton, ← Nat.add_assoc]
      exact congrArg (· + 1) h
    · exact h

def CountsAlerts (e : Engine R A) (r : Engine R A × Output) : Prop :=
  r.1.counters.alerts = e.counters.alerts + r.2.alerts.length

namespace Engine

theorem conclude_alerts (e : Engine R A) (order : HashOrder UInt64) (flowId : UInt64)
    (timestamp : Instant) (t : Tally) :
    (e.conclude order flowId timestamp t).1.counters.alerts = t.counters.alerts ∧
      (e.conclude order flowId timestamp t).2.alerts = t.alerts := by
  refine ⟨?_, rfl⟩
  simp only [conclude, applyPending, makeRoom]
  split_ifs
  · rfl
  · rfl
  · rfl

theorem inspectBuffers_countsAlerts (e : Engine R A) (order : HashOrder UInt64) (flowId : UInt64)
    (tuple : NetTuple) (toServer established : Bool) (buffers : Buffers)
    (prefilterBuffers : List Buffer) (timestamp : Instant) :
    CountsAlerts e (e.inspectBuffers order flowId tuple toServer established buffers
      prefilterBuffers
      timestamp) := by
  have hcounted (bits : FlowBits) (candidates : List ℕ) (t : Tally)
      (ht : t.Counted e.counters.alerts) :
      (candidates.foldl (fun t index => (e.ruleset.rule index).elim t
        (Tally.judge e.limits ⟨tuple, established, toServer, buffers⟩ timestamp bits t)) t).Counted
          e.counters.alerts := by
    induction candidates generalizing t with
    | nil => exact ht
    | cons index rest ih =>
      refine ih _ ?_
      dsimp only
      cases e.ruleset.rule index with
      | none => exact ht
      | some rule => exact ht.judge _ _ _ _ _
  obtain ⟨hcounters, halerts⟩ := e.conclude_alerts order flowId timestamp
    ((e.ruleset.candidatesIn (buffers.haystacks prefilterBuffers)).foldl (fun t index =>
      (e.ruleset.rule index).elim t (Tally.judge e.limits ⟨tuple, established, toServer, buffers⟩
        timestamp (((e.states.lookup flowId).map FlowState.bits).getD {}) t))
      { thresholds := e.thresholds
        counters := e.countInspection (buffers.haystacks prefilterBuffers) })
  rw [CountsAlerts, inspectBuffers, hcounters, halerts]
  exact hcounted _ _ _ rfl

theorem inspectRequests_countsAlerts (order : HashOrder UInt64) (flowId : UInt64) (tuple : NetTuple)
    (timestamp : Instant) (e : Engine R A) (requests : List HttpRequest) :
    CountsAlerts e (inspectRequests order flowId tuple timestamp e requests) := by
  induction requests generalizing e with
  | nil => rfl
  | cons request rest ih =>
    have hfirst := e.inspectBuffers_countsAlerts order flowId tuple true true
      (requestBuffers request) httpBuffers timestamp
    have hrest := ih (e.inspectBuffers order flowId tuple true true (requestBuffers request)
      httpBuffers timestamp).1
    rw [CountsAlerts] at hfirst hrest
    simp only [CountsAlerts, inspectRequests, Output.andThen, List.length_append]
    rw [hrest, hfirst, Nat.add_assoc]

theorem inspectHttp_countsAlerts (e : Engine R A) (order : HashOrder UInt64) (flowId : UInt64)
    (tuple : NetTuple) (delivered : List UInt8) (timestamp : Instant) :
    CountsAlerts e (e.inspectHttp order flowId tuple delivered timestamp) := by
  unfold inspectHttp
  cases e.states.lookup flowId with
  | none => rfl
  | some state => exact inspectRequests_countsAlerts order flowId tuple timestamp _ _

theorem inspectStream_countsAlerts (e : Engine R A) (order : HashOrder UInt64) (flowId : UInt64)
    (tuple : NetTuple) (toServer : Bool) (delivered : List UInt8) (timestamp : Instant) :
    CountsAlerts e (e.inspectStream order flowId tuple toServer delivered timestamp) := by
  unfold inspectStream
  by_cases hnone : delivered = []
  · rw [if_pos hnone]
    rfl
  · rw [if_neg hnone]
    have hroom : (e.makeRoom order).1.counters.alerts = e.counters.alerts := by
      unfold makeRoom
      split_ifs
      · rfl
      · rfl
    have hscanned := ((e.makeRoom order).1.extendWindow flowId toServer delivered timestamp
      ).1.inspectBuffers_countsAlerts order flowId tuple toServer true
        { payload := ((e.makeRoom order).1.extendWindow flowId toServer delivered
        timestamp).2.region }
        [.payload] timestamp
    have hextended : ((e.makeRoom order).1.extendWindow flowId toServer delivered timestamp
        ).1.counters.alerts = e.counters.alerts := hroom
    rw [CountsAlerts, hextended] at hscanned
    dsimp only
    split_ifs
    · have hhttp := inspectHttp_countsAlerts
        (((e.makeRoom order).1.extendWindow flowId toServer delivered timestamp).1.inspectBuffers
        order
          flowId tuple toServer true
          { payload := ((e.makeRoom order).1.extendWindow flowId toServer delivered
            timestamp).2.region }
          [.payload] timestamp).1 order flowId tuple delivered timestamp
      rw [CountsAlerts, hscanned] at hhttp
      simp only [CountsAlerts, Output.andThen, List.nil_append, List.length_append]
      rw [hhttp, Nat.add_assoc]
    · exact hscanned

/-- The alerts that a call is reported with: a flow's end has none. -/
def alertsOf (call : Call) (output : Output) : List AlertRecord :=
  if call.addressed?.isSome then output.alerts else []

theorem step_countsAlerts (e : Engine R A) (call : Call) :
    (e.step call).1.counters.alerts =
      e.counters.alerts + (alertsOf call (e.step call).2).length := by
  cases call with
  | packet order flowId tuple toServer payload timestamp =>
    exact e.inspectBuffers_countsAlerts order flowId tuple toServer false { payload := payload }
      [.payload] timestamp
  | stream order flowId tuple toServer delivered timestamp =>
    exact e.inspectStream_countsAlerts order flowId tuple toServer delivered timestamp
  | flowEnd flowId => rfl

theorem run_countsAlerts (e : Engine R A) (calls : List Call) :
    (Runs.run step e calls).1.counters.alerts = e.counters.alerts +
      ((calls.zip (Runs.run step e calls).2).map (fun c => (alertsOf c.1 c.2).length)).sum := by
  induction calls generalizing e with
  | nil => rfl
  | cons call rest ih =>
    rw [Runs.run_cons, List.zip_cons_cons, List.map_cons, List.sum_cons, ih,
      e.step_countsAlerts call,
      Nat.add_assoc]

end Engine

/-- The host side of the engine has counted the alerts that it returns. -/
theorem HostEngine.inspectHost_countsAlerts (e : HostEngine T) (observation : HostObservation)
    (timestamp : Instant) :
    (e.inspectHost observation timestamp).1.counters.alerts =
      e.counters.alerts + (e.inspectHost observation timestamp).2.length := by
  have hcounted (candidates : List (CompiledHostRule T)) (t : HostTally)
      (ht : t.Counted e.counters.alerts) :
      (candidates.foldl (HostTally.judge e.limits observation timestamp e.bits) t).Counted
        e.counters.alerts := by
    induction candidates generalizing t with
    | nil => exact ht
    | cons rule rest ih => exact ih _ (ht.judge _ _ _ _ _)
  unfold inspectHost
  by_cases hnone : e.rules.candidates observation.kind = []
  · simp only [if_pos hnone]
    rfl
  · simp only [if_neg hnone]
    exact hcounted _ _ rfl

end CyberSentinel.Detect
