import CyberSentinel.Config
import CyberSentinel.Crashes
import CyberSentinel.Incidents

/-!
# Which correlation limits the sensor can run with

`attach_host_monitoring` builds the correlator from the configuration, whose check looks at the
window only. A full window gives up its first observation before the new one goes in. A window of a
host that is new is empty, and full when the limit is zero: then there is no first observation, and
the code crashes.
-/

namespace CyberSentinel.Correlation

open Tables Crashes

/-- The configuration with the part of `correlation` that its check does not read. -/
structure SensorConfig extends Config where
  correlationCooldownSecs : ℕ
  correlationMaxHosts : ℕ
  correlationMaxPerHost : ℕ

def SensorConfig.correlation (config : SensorConfig) : CorrelationSettings where
  window := config.correlationWindowSecs * 10 ^ 9
  maxHosts := config.correlationMaxHosts
  maxPerHost := config.correlationMaxPerHost
  cooldown := config.correlationCooldownSecs * 10 ^ 9

/-- The correlator that `attach_host_monitoring` builds. -/
def SensorConfig.correlator (config : SensorConfig) : Option Correlator :=
  if config.correlationEnabled then some (Correlator.new config.correlation) else none

/-- `describe`, with the check of its subtraction. -/
def describe? (contributors : List Observation) : Option String :=
  let hostSide := contributors.countP (fun o => o.domain = .host)
  (sub? contributors.length hostSide).map fun networkSide =>
    toString networkSide ++ " network and " ++ toString hostSide ++
      " host observations on the same host within the correlation window"

/-- `incidentOf`, with the check in `describe`. -/
def incidentOf? (window : List Observation) : Option (Option IncidentEvent) :=
  let contributors := inOrder window
  match contributors.head?, contributors.getLast? with
  | some first, some last =>
    (describe? contributors).map fun reason =>
      some
        { reason := reason
          severity := ((contributors.map Observation.severity).min?).getD 3
          firstSeen := first.timestamp
          lastSeen := last.timestamp
          contributors := contributors.map Observation.contributor }
  | _, _ => some none

namespace Correlator

/-- `push`, with the check of `remove`. -/
def push? (c : Correlator) (o : Observation) : Option Correlator :=
  let window := (c.windows.lookup o.host).getD []
  let full : Bool := c.settings.maxPerHost ≤ window.length
  (if full then removeFirst? window else some window).map fun left =>
    { c with
      windows := c.windows.insert o.host (left ++ [o])
      stats := { c.stats with dropped := c.stats.dropped + if full then 1 else 0 } }

/-- `tryCorrelate`, with the check in `describe`. -/
def tryCorrelate? (c : Correlator) (trigger : Observation) :
    Option (Correlator × Option IncidentEvent) :=
  if (c.lastIncident.lookup trigger.host).any
      (fun previous => within previous trigger.timestamp c.settings.cooldown) then some (c, none)
  else
    match c.windows.lookup trigger.host with
    | none => some (c, none)
    | some window =>
      if !window.any (fun o => o.domain = trigger.domain.opposite) then some (c, none)
      else
        (incidentOf? window).map fun found =>
          match found with
          | none => (c, none)
          | some incident =>
            ({ c with
                stats := { c.stats with incidents := c.stats.incidents + 1 }
                lastIncident := c.lastIncident.insert trigger.host trigger.timestamp },
              some incident)

/-- `observe`, with its checks. -/
def observeChecked (c : Correlator) (o : Observation) :
    Option (Correlator × Option IncidentEvent) :=
  let c := { c with stats := { c.stats with observations := c.stats.observations + 1 } }
  let c := c.expire o.timestamp
  if !c.hasRoom o.host then
    some ({ c with stats := { c.stats with dropped := c.stats.dropped + 1 } }, none)
  else (c.push? o).bind (fun c => c.tryCorrelate? o)

end Correlator

theorem describe?_eq (contributors : List Observation) :
    describe? contributors = some (describe contributors) := by
  rw [describe?, sub?_of_le List.countP_le_length, Option.map_some, describe]

theorem incidentOf?_eq (window : List Observation) :
    incidentOf? window = some (incidentOf window) := by
  unfold incidentOf? incidentOf
  generalize inOrder window = contributors
  dsimp only
  cases contributors.head? with
  | none => rfl
  | some first =>
    cases contributors.getLast? with
    | none => rfl
    | some last =>
      rw [describe?_eq]
      rfl

namespace Correlator

theorem tryCorrelate?_eq (c : Correlator) (trigger : Observation) :
    c.tryCorrelate? trigger = some (c.tryCorrelate trigger) := by
  unfold tryCorrelate? tryCorrelate
  split_ifs with hquiet
  · rfl
  · cases c.windows.lookup trigger.host with
    | none => rfl
    | some window =>
      dsimp only
      split_ifs with hone
      · rfl
      · apply (congrArg (Option.map _) (incidentOf?_eq window)).trans
        cases incidentOf window with
        | none => rfl
        | some incident => rfl

/-- No window is full while it is empty, or no host is ever let in. -/
def Roomy (c : Correlator) : Prop :=
  c.settings.maxPerHost ≠ 0 ∨
    c.settings.maxHosts = 0 ∧ ∀ host, c.windows.lookup host = none

theorem push?_of_pos {c : Correlator} (hpos : c.settings.maxPerHost ≠ 0) (o : Observation) :
    c.push? o = some (c.push o) := by
  unfold push? push
  generalize (c.windows.lookup o.host).getD [] = window
  by_cases hfull : c.settings.maxPerHost ≤ window.length
  · have hne : window ≠ [] := by
      intro hnil
      rw [hnil] at hfull
      exact hpos (Nat.le_zero.1 hfull)
    simp only [hfull, decide_true, if_true, removeFirst?_of_ne_nil hne, Option.map_some]
  · simp only [hfull, decide_false, Bool.false_eq_true, if_false, Option.map_some]

theorem lookup_expire_of_none {c : Correlator} {host : String} (h : c.windows.lookup host = none)
    (now : ℤ) : (c.expire now).windows.lookup host = none := by
  rw [lookup_expire, h, Option.bind_none]

theorem hasRoom_of_none {c : Correlator} {host : String} (h : c.windows.lookup host = none) :
    c.hasRoom host = decide (size c.windows < c.settings.maxHosts) := by
  rw [hasRoom, h, Option.isSome_none, Bool.false_or]

theorem observeChecked_eq {c : Correlator} (h : c.Roomy) (o : Observation) :
    c.observeChecked o = some (c.observe o) := by
  unfold observeChecked observe
  dsimp only
  generalize hd : expire _ o.timestamp = d
  have hsettings : d.settings = c.settings := by rw [← hd, expire]
  have hwindows : d.windows = (c.expire o.timestamp).windows := by rw [← hd, expire, expire]
  by_cases hroom : d.hasRoom o.host = true
  · have hpos : d.settings.maxPerHost ≠ 0 := by
      rw [hsettings]
      apply h.resolve_right
      rintro ⟨hzero, hnone⟩
      have hlookup : d.windows.lookup o.host = none := by
        rw [hwindows, lookup_expire_of_none (hnone o.host)]
      rw [hasRoom_of_none hlookup, hsettings, hzero, decide_eq_true_eq] at hroom
      exact Nat.not_lt_zero _ hroom
    rw [hroom, Bool.not_true, if_neg Bool.false_ne_true, if_neg Bool.false_ne_true,
      push?_of_pos hpos,
      Option.bind_some, tryCorrelate?_eq]
  · rw [Bool.not_eq_true] at hroom
    rw [hroom, Bool.not_false, if_pos rfl, if_pos rfl]

theorem Roomy.observe {c : Correlator} (h : c.Roomy) (o : Observation) : (c.observe o).1.Roomy := by
  obtain ⟨hsettings, hcases⟩ := observe_cases c o
  rw [Roomy, hsettings]
  apply h.imp_right
  rintro ⟨hzero, hnone⟩
  refine ⟨hzero, ?_⟩
  intro host
  have hexpired := fun host => lookup_expire_of_none (hnone host) o.timestamp
  rcases hcases with ⟨-, -, hwindows, -⟩ | ⟨haccepts, -⟩
  · rw [hwindows, hexpired]
  · have hroom : (c.expire o.timestamp).hasRoom o.host = true := haccepts
    rw [hasRoom_of_none (hexpired o.host), decide_eq_true_eq] at hroom
    exact absurd (hroom.trans_eq hzero) (Nat.not_lt_zero _)

/-- Where a host may be let in and may keep nothing, the first observation of all crashes. -/
theorem observeChecked_new {settings : CorrelationSettings} (hper : settings.maxPerHost = 0)
    (hhosts : settings.maxHosts ≠ 0) (o : Observation) :
    (new settings).observeChecked o = none := by
  unfold observeChecked
  dsimp only
  generalize hd : expire _ o.timestamp = d
  have hsettings : d.settings = settings := by rw [← hd, expire, new]
  have hwindows : d.windows = ∅ := by
    rw [← hd, expire, new]
    rfl
  have hroom : d.hasRoom o.host = true := by
    rw [hasRoom_of_none (by rw [hwindows, AList.lookup_empty]), hsettings, hwindows,
      decide_eq_true_eq]
    exact Nat.pos_of_ne_zero hhosts
  have hpush : d.push? o = none := by
    rw [push?, hwindows, AList.lookup_empty, hsettings, hper]
    rfl
  rw [hroom, Bool.not_true, if_neg Bool.false_ne_true, hpush, Option.bind_none]

theorem roomy_new {settings : CorrelationSettings}
    (h : settings.maxPerHost ≠ 0 ∨ settings.maxHosts = 0) : (new settings).Roomy :=
  h.imp_right (fun hzero => ⟨hzero, fun host => AList.lookup_empty host⟩)

theorem attempt_eq_run {c : Correlator} (h : c.Roomy) (observations : List Observation) :
    Runs.attempt observeChecked c observations = some (Runs.run observe c observations) :=
  Runs.attempt_eq_run Roomy (fun _ o h => observeChecked_eq h o) (fun _ o h =>
    h.observe o) h observations

end Correlator

/-- The correlator of a configuration with correlation enabled returns from a sequence of
observations exactly when a host may keep an observation, no host may be let in, or there is nothing
to observe. Whether the check accepts the configuration does not matter to it. -/
theorem observe_returns_iff (config : SensorConfig) (henabled : config.correlationEnabled = true)
    (observations : List Observation) :
    ∃ c, config.correlator = some c ∧
      (Runs.attempt Correlator.observeChecked c observations =
          some (Runs.run Correlator.observe c observations) ↔
        config.correlationMaxPerHost ≠ 0 ∨ config.correlationMaxHosts = 0 ∨ observations = []) := by
  refine ⟨Correlator.new config.correlation, by rw [SensorConfig.correlator, if_pos henabled], ?_⟩
  constructor
  · intro hreturns
    by_contra hno
    obtain ⟨hper, hrest⟩ := not_or.1 hno
    obtain ⟨hhosts, hne⟩ := not_or.1 hrest
    cases observations with
    | nil => exact hne rfl
    | cons o rest =>
      have hcrash : (Correlator.new config.correlation).observeChecked o = none :=
        Correlator.observeChecked_new (not_not.1 hper) hhosts o
      rw [Runs.attempt_cons_of_none hcrash] at hreturns
      cases hreturns
  · rintro (hper | hhosts | hnil)
    · exact Correlator.attempt_eq_run (Correlator.roomy_new (.inl hper)) observations
    · exact Correlator.attempt_eq_run (Correlator.roomy_new (.inr hhosts)) observations
    · rw [hnil]
      rfl

def correlatingConfig (maxPerHost : ℕ) : SensorConfig where
  loggingQueueCapacity := 8192
  loggingLevel := "info"
  statsEnabled := true
  statsIntervalSecs := 60
  fileOutputEnabled := false
  fileOutputPath := ""
  webhookEnabled := false
  webhookUrl := none
  captureSnaplen := 65535
  flowMaxFlows := 65536
  flowTimeoutSecs := 300
  reassembly := {}
  fimEnabled := false
  fimRescanIntervalSecs := 3600
  fimMaxEntries := 1
  processEnabled := false
  processIntervalSecs := 60
  prevent := ⟨false, "detect", "open", [], 300, 1, 1⟩
  correlationEnabled := true
  correlationWindowSecs := 120
  detect := {}
  normalize := {}
  correlationCooldownSecs := 300
  correlationMaxHosts := 1024
  correlationMaxPerHost := maxPerHost

def sampleObservation (domain : Domain) : Observation := ⟨"h", 0, domain, .alert, none, 2, "seen"⟩

/-- With the default limit the two halves of a host are paired. -/
theorem observe_returns_iff_default_limit :
    (correlatingConfig 256).check (fun _ => true) = .ok () ∧
      ∃ c, (correlatingConfig 256).correlator = some c ∧
        Runs.attempt Correlator.observeChecked c [sampleObservation .network,
          sampleObservation .host] =
          some (Runs.run Correlator.observe c [sampleObservation .network,
            sampleObservation .host]) := by
  obtain ⟨c, hbuilt, hreturns⟩ := observe_returns_iff (correlatingConfig 256) rfl
    [sampleObservation .network, sampleObservation .host]
  exact ⟨by decide +kernel, c, hbuilt, hreturns.2 (.inl (Nat.succ_ne_zero 255))⟩

/-- The check accepts that a host keeps no observation, and the first one crashes. -/
theorem observation_without_room_crashes :
    (correlatingConfig 0).check (fun _ => true) = .ok () ∧
      (correlatingConfig 0).correlationEnabled = true ∧
      (correlatingConfig 0).correlator = some (Correlator.new (correlatingConfig 0).correlation) ∧
      Runs.attempt Correlator.observeChecked (Correlator.new (correlatingConfig 0).correlation)
        [sampleObservation .network] = none :=
  ⟨by decide +kernel, rfl, rfl, by decide +kernel⟩

end CyberSentinel.Correlation
