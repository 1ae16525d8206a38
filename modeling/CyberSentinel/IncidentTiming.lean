import CyberSentinel.Incidents

/-!
# Incidents of one host

Under timestamps that do not go back, what an observation expires of another host is what the next
observation of that host would have expired anyway. So the correlator is, seen from one host, a
machine of that host alone (`HostState`): its incidents are more than a cooldown apart, and they
depend on the observations of the host alone.
-/

namespace CyberSentinel.Correlation

open Tables Correlator

theorem within_of_later {previous now later : ℤ} {length : ℕ} (hpast : previous ≤ now)
    (hlater : now ≤ later) (h : within previous later length = true) :
    within previous now length = true := by
  rw [within, decide_eq_true_eq] at h ⊢
  omega

/-- What the correlator knows of the incidents of a host, as far as later times can tell: at any
later time its record is fresh just when `recent` says so. -/
structure Recalls (host : String) (now : ℤ) (recent : ℤ → Bool) (c : Correlator) : Prop where
  past : ∀ previous, c.lastIncident.lookup host = some previous → previous ≤ now
  fresh : ∀ later, now ≤ later → (c.lastIncident.lookup host).any
    (fun previous => within previous later c.settings.cooldown) = recent later

section

variable {host : String} {now : ℤ} {recent : ℤ → Bool} {c : Correlator} {o : Observation}

theorem Recalls.mono {now' : ℤ} (h : Recalls host now recent c) (hle : now ≤ now') :
    Recalls host now' recent c where
  past previous hlookup := (h.past previous hlookup).trans hle
  fresh later hlater := h.fresh later (hle.trans hlater)

theorem Recalls.expire (h : Recalls host now recent c) :
    Recalls host now recent (c.expire now) where
  past previous hlookup := by
    rw [lookup_expire_last, Option.filter_eq_some_iff] at hlookup
    exact h.past previous hlookup.1
  fresh later hlater := by
    rw [lookup_expire_last, ← h.fresh later hlater]
    cases hlookup : c.lastIncident.lookup host with
    | none => rfl
    | some previous =>
      rw [Option.filter_some]
      split_ifs with hwithin
      · rfl
      · have hold : ¬ within previous later c.settings.cooldown = true := fun hfresh =>
          hwithin (within_of_later (h.past previous hlookup) hlater hfresh)
        rw [Option.any_none, Option.any_some, Bool.eq_false_iff.2 hold]

theorem Recalls.congr {d : Correlator} (h : Recalls host now recent c)
    (hlast : d.lastIncident.lookup host = c.lastIncident.lookup host)
    (hsettings : d.settings = c.settings) : Recalls host now recent d where
  past := by
    rw [hlast]
    exact h.past
  fresh := by
    rw [hlast, hsettings]
    exact h.fresh

/-- An observation changes the record of a host only when it raises an incident of that host. -/
theorem Recalls.observe (h : Recalls host o.timestamp recent c) :
    (o.host = host → (c.observe o).2.isSome = true → recent o.timestamp = false ∧
      Recalls host o.timestamp (fun later => within o.timestamp later c.settings.cooldown)
        (c.observe o).1) ∧
    (¬ (o.host = host ∧ (c.observe o).2.isSome = true) →
      Recalls host o.timestamp recent (c.observe o).1) := by
  obtain ⟨incident, hincident⟩ := exists_incident_retained (c := c) o
  obtain ⟨hsettings, ⟨-, hnone, -, hlast⟩ | ⟨-, -,
      ⟨-, hnone, hlast⟩ | ⟨⟨hcooling, -⟩, hsome, hlast⟩⟩⟩ :=
    c.observe_cases o
  · rw [hnone]
    exact ⟨fun _ h => absurd h (by simp), fun _ => h.expire.congr (by rw [hlast]) hsettings⟩
  · rw [hnone]
    exact ⟨fun _ h => absurd h (by simp), fun _ => h.expire.congr (by rw [hlast]) hsettings⟩
  · rw [hsome, hincident]
    constructor
    · rintro rfl -
      refine ⟨(h.fresh _ le_rfl).symm.trans hcooling, ?_, ?_⟩
      · intro previous hlookup
        rw [hlast, AList.lookup_insert] at hlookup
        exact (Option.some.inj hlookup).ge
      · intro later hlater
        rw [hlast, AList.lookup_insert, Option.any_some, hsettings]
    · intro hother
      have hne : host ≠ o.host := fun heq => hother ⟨heq.symm, rfl⟩
      exact h.expire.congr (by rw [hlast, AList.lookup_insert_ne hne]) hsettings

end

def incidentsOf (settings : CorrelationSettings) (host : String) (given : List Observation) :
    List (Observation × IncidentEvent) :=
  (raised settings given).filter (fun e => e.1.host = host)

section

variable {settings : CorrelationSettings} {host : String} {given : List Observation}
    {o : Observation}

theorem incidentsOf_snoc (settings : CorrelationSettings) (host : String) (given : List Observation)
    (o : Observation) :
    incidentsOf settings host (given ++ [o]) = incidentsOf settings host given ++
      if o.host = host then
        (((after settings given).observe o).2.map (fun incident => (o, incident))).toList
      else [] := by
  rw [incidentsOf, incidentsOf, raised_snoc, List.filter_append]
  congr 1
  cases ((after settings given).observe o).2 with
  | none => simp
  | some incident => simp [List.filter_cons]

theorem settings_after (settings : CorrelationSettings) (given : List Observation) :
    (after settings given).settings = settings :=
  Runs.invariant _ (fun c : Correlator => c.settings = settings)
    (fun c o h => (c.observe_cases o).1.trans h) rfl given

/-- The record of a host is fresh just when one of its incidents was within the cooldown. -/
theorem recalls_incidentsOf
    (hmono : given.Pairwise (fun a b => a.timestamp ≤ b.timestamp)) {now : ℤ}
    (hnow : ∀ o ∈ given, o.timestamp ≤ now) :
    Recalls host now (fun later => (incidentsOf settings host given).any
      (fun e => within e.1.timestamp later settings.cooldown)) (after settings given) ∧
    (∀ e ∈ incidentsOf settings host given, e.1.timestamp ≤ now) ∧
    (incidentsOf settings host given).Pairwise
      (fun a b : Observation × IncidentEvent =>
      a.1.timestamp + settings.cooldown < b.1.timestamp) := by
  induction given using List.reverseRecOn generalizing now with
  | nil =>
    refine ⟨⟨?_, fun _ _ => rfl⟩, ?_, ?_⟩ <;> simp [after, new, incidentsOf, raised, raisedFrom]
  | append_singleton given o ih =>
    obtain ⟨hmono, -, hpast⟩ := List.pairwise_append.1 hmono
    obtain ⟨hrecalls, hle, hapart⟩ :=
      ih hmono (fun x hx => hpast x hx o (List.mem_singleton_self o))
    obtain ⟨hraised, hquiet⟩ := hrecalls.observe
    have hnow : o.timestamp ≤ now := hnow o (by simp)
    rw [incidentsOf_snoc, after_snoc]
    by_cases hhost : o.host = host
    · rw [if_pos hhost]
      cases hanswer : ((after settings given).observe o).2 with
      | none =>
        rw [Option.map_none, Option.toList_none, List.append_nil]
        exact ⟨(hquiet (by simp [hanswer])).mono hnow, fun e he => (hle e he).trans hnow, hapart⟩
      | some incident =>
        obtain ⟨hover, hrecalls⟩ := hraised hhost (by rw [hanswer]; rfl)
        rw [settings_after] at hrecalls
        -- no incident so far is within the cooldown, and none will be again
        have hfar : ∀ e ∈ incidentsOf settings host given,
            e.1.timestamp + settings.cooldown < o.timestamp := by
          intro e he
          have hnot := List.any_eq_false.1 hover e he
          have hpast := hle e he
          rw [within, decide_eq_true_eq] at hnot
          omega
        rw [Option.map_some, Option.toList_some]
        refine ⟨Recalls.mono ⟨hrecalls.past, ?_⟩ hnow, ?_, ?_⟩
        · intro later hlater
          rw [hrecalls.fresh later hlater, List.any_append, List.any_cons, List.any_nil,
            Bool.or_false]
          have hnone : (incidentsOf settings host given).any
              (fun e => within e.1.timestamp later settings.cooldown) = false := by
            rw [List.any_eq_false]
            intro e he hwithin
            have hlong := hfar e he
            rw [within, decide_eq_true_eq] at hwithin
            omega
          rw [hnone, Bool.false_or]
        · intro e he
          rcases List.mem_append.1 he with he | he
          · exact (hle e he).trans hnow
          · rw [List.mem_singleton.1 he]
            exact hnow
        · refine List.pairwise_append.2 ⟨hapart, List.pairwise_singleton _ _, ?_⟩
          intro e he b hb
          rw [List.mem_singleton.1 hb]
          exact hfar e he
    · rw [if_neg hhost, List.append_nil]
      exact ⟨(hquiet (fun h => hhost h.1)).mono hnow, fun e he => (hle e he).trans hnow, hapart⟩

end

/-- What one host has, when nothing is expired on behalf of another. -/
structure HostState where
  window : List Observation
  last : Option ℤ

def HostState.observe (settings : CorrelationSettings) (s : HostState) (o : Observation) :
    HostState × Option IncidentEvent :=
  let kept := s.window.filter (fun x => within x.timestamp o.timestamp settings.window)
  let window := (if settings.maxPerHost ≤ kept.length then kept.tail else kept) ++ [o]
  if s.last.any (fun previous => within previous o.timestamp settings.cooldown) = false ∧
      window.any (fun other => other.domain = o.domain.opposite) = true then
    (⟨window, some o.timestamp⟩, incidentOf window)
  else (⟨window, s.last⟩, none)

/-- The correlator agrees with a host alone, as far as later times can tell. -/
structure Agrees (settings : CorrelationSettings) (host : String) (now : ℤ) (s : HostState)
    (c : Correlator) : Prop where
  settings_eq : c.settings = settings
  recalls : Recalls host now
    (fun later => s.last.any (fun previous => within previous later settings.cooldown)) c
  past : ∀ x ∈ (c.windows.lookup host).getD [], x.timestamp ≤ now
  window_eq : ∀ later, now ≤ later →
    ((c.windows.lookup host).getD []).filter (fun x => within x.timestamp later settings.window) =
      s.window.filter (fun x => within x.timestamp later settings.window)

section

variable {settings : CorrelationSettings} {host : String} {now : ℤ} {s : HostState} {c : Correlator}
  {o : Observation}

theorem Agrees.mono {now' : ℤ} (h : Agrees settings host now s c) (hle : now ≤ now') :
    Agrees settings host now' s c where
  settings_eq := h.settings_eq
  recalls := h.recalls.mono hle
  past x hx := (h.past x hx).trans hle
  window_eq later hlater := h.window_eq later (hle.trans hlater)

/-- An observation of another host leaves the window as far as later times can tell. -/
theorem Agrees.other (h : Agrees settings host o.timestamp s c) (hhost : o.host ≠ host) :
    Agrees settings host o.timestamp s (c.observe o).1 := by
  have hwindow : ((c.observe o).1.windows.lookup host).getD [] =
      ((c.windows.lookup host).getD []).filter
      (fun x => within x.timestamp o.timestamp settings.window) := by
    rw [← h.settings_eq, ← getD_lookup_expire]
    obtain ⟨-, ⟨-, -, hwindows, -⟩ | ⟨-, hwindows, -⟩⟩ := c.observe_cases o
    · rw [hwindows]
    · rw [hwindows, AList.lookup_insert_ne (Ne.symm hhost)]
  refine ⟨(c.observe_cases o).1.trans h.settings_eq, h.recalls.observe.2 (fun h =>
    hhost h.1), ?_, ?_⟩
  · intro x hx
    rw [hwindow] at hx
    exact h.past x (List.mem_filter.1 hx).1
  · intro later hlater
    rw [hwindow, List.filter_filter, ← h.window_eq later hlater]
    apply List.filter_congr
    intro x hx
    cases hwithin : within x.timestamp later settings.window with
    | false => rfl
    | true => rw [within_of_later (h.past x hx) hlater hwithin, Bool.and_true]

/-- An accepted observation of the host does what it does to the host alone. -/
theorem Agrees.own (h : Agrees settings o.host o.timestamp s c) (haccepts : c.accepts o = true) :
    (c.observe o).2 = (s.observe settings o).2 ∧
      Agrees settings o.host o.timestamp (s.observe settings o).1 (c.observe o).1 := by
  obtain ⟨kept, hkept⟩ : ∃ kept, s.window.filter
      (fun x => within x.timestamp o.timestamp settings.window) = kept := ⟨_, rfl⟩
  have hretained : c.retained o =
      (if settings.maxPerHost ≤ kept.length then kept.tail else kept) ++ [o] := by
    simp only [retained, getD_lookup_expire, h.settings_eq, h.window_eq _ le_rfl, hkept]
  have hcooling : c.cooling o =
      s.last.any (fun previous => within previous o.timestamp settings.cooldown) :=
    h.recalls.fresh _ le_rfl
  have hsolo : s.observe settings o = if c.cooling o = false ∧ c.paired o = true then
      (⟨c.retained o, some o.timestamp⟩, incidentOf (c.retained o))
      else (⟨c.retained o, s.last⟩, none) := by
    rw [paired, hcooling, hretained, HostState.observe, hkept]
  have hpast : ∀ x ∈ c.retained o, x.timestamp ≤ o.timestamp := by
    intro x hx
    rcases mem_retained hx with rfl | ⟨hold, -⟩
    · exact le_rfl
    · exact h.past x hold
  have hwindow : (c.observe o).1.windows.lookup o.host = some (c.retained o) := by
    obtain ⟨-, ⟨hrefused, -⟩ | ⟨-, hwindows, -⟩⟩ := c.observe_cases o
    · exact absurd (haccepts.symm.trans hrefused) (by simp)
    · rw [hwindows, AList.lookup_insert]
  obtain ⟨hraised, hquiet⟩ := h.recalls.observe
  obtain ⟨incident, hincident⟩ := exists_incident_retained (c := c) o
  have hagrees : ∀ last, Recalls o.host o.timestamp
      (fun later => last.any (fun previous => within previous later settings.cooldown))
      (c.observe o).1 → Agrees settings o.host o.timestamp ⟨c.retained o, last⟩
        (c.observe o).1 := by
    intro last hrecalls
    refine ⟨(c.observe_cases o).1.trans h.settings_eq, hrecalls, ?_, ?_⟩
    · rw [hwindow]
      exact hpast
    · intro later _
      rw [hwindow, Option.getD_some]
  obtain ⟨-, ⟨hrefused, -⟩ | ⟨-, -, ⟨hnot, hnone, -⟩ | ⟨hpair, hsome, -⟩⟩⟩ := c.observe_cases o
  · exact absurd (haccepts.symm.trans hrefused) (by simp)
  · rw [hsolo, if_neg (by rcases hnot with hnot | hnot <;> simp [hnot])]
    exact ⟨hnone, hagrees _ (hquiet (by simp [hnone]))⟩
  · rw [hsolo, if_pos hpair]
    have hrecalls := (hraised rfl (by rw [hsome, hincident]; rfl)).2
    rw [h.settings_eq] at hrecalls
    exact ⟨hsome, hagrees (some o.timestamp) hrecalls⟩

end

def NeverRefused (settings : CorrelationSettings) (host : String)
    (given : List Observation) : Prop :=
  ∀ before o later, given = before ++ o :: later → o.host = host →
    (after settings before).accepts o = true

theorem incidentsOf_eq_alone {settings : CorrelationSettings} {host : String}
    {given : List Observation} (hmono : given.Pairwise (fun a b => a.timestamp ≤ b.timestamp))
    (hroom : NeverRefused settings host given) {now : ℤ} (hnow : ∀ o ∈ given, o.timestamp ≤ now) :
    incidentsOf settings host given = raisedFrom (HostState.observe settings) ⟨[], none⟩
      (given.filter (fun o => o.host = host)) ∧
    Agrees settings host now (Runs.run (HostState.observe settings) ⟨[], none⟩
      (given.filter (fun o => o.host = host))).1 (after settings given) := by
  induction given using List.reverseRecOn generalizing now with
  | nil => exact ⟨rfl, rfl, ⟨by simp [after, new], fun _ _ => rfl⟩, by
    simp [after, new], fun _ _ => rfl⟩
  | append_singleton given o ih =>
    obtain ⟨hmono, -, hpast⟩ := List.pairwise_append.1 hmono
    have hearlier : NeverRefused settings host given := by
      intro before x later heq
      exact hroom before x (later ++ [o]) (by rw [heq]; simp)
    obtain ⟨hsame, hagrees⟩ :=
      ih hmono hearlier (fun x hx => hpast x hx o (List.mem_singleton_self o))
    have hnow : o.timestamp ≤ now := hnow o (by simp)
    rw [incidentsOf_snoc, after_snoc, hsame, List.filter_append]
    by_cases hhost : o.host = host
    · subst hhost
      obtain ⟨hanswer, hagrees⟩ := hagrees.own (hroom given o [] rfl rfl)
      rw [if_pos rfl, List.filter_cons_of_pos (by simp), List.filter_nil, raisedFrom_snoc, hanswer,
        Runs.run_append, Runs.run_cons, Runs.run_nil]
      exact ⟨rfl, hagrees.mono hnow⟩
    · rw [if_neg hhost, List.filter_cons_of_neg (by simpa using hhost), List.filter_nil,
        List.append_nil,
        List.append_nil]
      exact ⟨rfl, (hagrees.other hhost).mono hnow⟩

/-- Every incident has its evidence and the windows keep their bounds, whatever the timestamps. An
accepted observation with evidence of the other half raises an incident unless one was raised within
the cooldown; and under timestamps that do not go back, the incidents of a host are more than a
cooldown apart, and two runs that give a host the same observations raise the same incidents of it.
-/
theorem correlation_spec (settings : CorrelationSettings) (hpos : 1 ≤ settings.maxPerHost)
    (given : List Observation) :
    (∀ before trigger later incident, given = before ++ trigger :: later →
      ((after settings before).observe trigger).2 = some incident →
      ∃ evidence, Evidence settings (before ++ [trigger]) trigger incident evidence) ∧
    (∀ before later, given = before ++ later →
      size (after settings before).windows ≤ settings.maxHosts ∧
      ∀ host window, (after settings before).windows.lookup host = some window →
        window.length ≤ settings.maxPerHost) ∧
    (∀ before o later window other, given = before ++ o :: later →
      (after settings before).accepts o = true →
      ((after settings before).observe o).1.windows.lookup o.host = some window →
      other ∈ window → other.domain = o.domain.opposite →
      (∀ e ∈ raised settings before, e.1.host = o.host →
        settings.cooldown < (o.timestamp - e.1.timestamp).natAbs) →
      ∃ incident, ((after settings before).observe o).2 = some incident) ∧
    (given.Pairwise (fun a b => a.timestamp ≤ b.timestamp) → ∀ host,
      (incidentsOf settings host given).Pairwise
        (fun a b : Observation × IncidentEvent =>
        a.1.timestamp + settings.cooldown < b.1.timestamp) ∧
      ∀ given' : List Observation, given'.Pairwise (fun a b => a.timestamp ≤ b.timestamp) →
        NeverRefused settings host given → NeverRefused settings host given' →
        given.filter (fun o => o.host = host) = given'.filter (fun o => o.host = host) →
        incidentsOf settings host given = incidentsOf settings host given') := by
  have hlatest : ∀ given : List Observation, ∃ now : ℤ, ∀ o ∈ given, o.timestamp ≤ now := by
    intro given
    obtain ⟨now, hnow⟩ := (given.map Observation.timestamp).toFinset.bddAbove
    exact ⟨now, fun o ho => hnow (List.mem_toFinset.2 (List.mem_map_of_mem ho))⟩
  refine ⟨?_, ?_, ?_, ?_⟩
  · intro before trigger later incident _ hanswer
    exact ⟨_, evidence_of_observe (sound_after hpos before) hanswer⟩
  · intro before later _
    have hsound := sound_after hpos before
    refine ⟨hsound.hosts_le, fun host window hwindow => ?_⟩
    have hlength := hsound.length_le host
    rwa [hwindow] at hlength
  · intro before o later window other _ haccepts hwindow hother hopposite hquiet
    exact observe_isSome (sound_after hpos before) haccepts hwindow hother hopposite hquiet
  · intro hmono host
    obtain ⟨now, hnow⟩ := hlatest given
    refine ⟨(recalls_incidentsOf hmono hnow).2.2, ?_⟩
    intro given' hmono' hroom hroom' hsame
    obtain ⟨now', hnow'⟩ := hlatest given'
    rw [(incidentsOf_eq_alone hmono hroom hnow).1,
      (incidentsOf_eq_alone hmono' hroom' hnow').1, hsame]

/-- An alert and a file change on one host within the window: the second raises the incident. -/
theorem correlation_spec_alert_then_fim :
    let alert : Observation := ⟨"h", 0, .network, .alert, some 7, 2, "scan"⟩
    let fim : Observation := ⟨"h", 60, .host, .fim, none, 1, "changed"⟩
    let settings : CorrelationSettings := ⟨120, 1, 2, 300⟩
    1 ≤ settings.maxPerHost ∧ ∃ incident evidence,
      ((after settings [alert]).observe fim).2 = some incident ∧
      Evidence settings [alert, fim] fim incident evidence := by
  intro alert fim settings
  obtain ⟨hevidence, -, hraised, -⟩ := correlation_spec settings (by decide) [alert, fim]
  obtain ⟨incident, hincident⟩ :=
    hraised [alert] fim [] [alert, fim] alert rfl (by decide) (by decide)
    (by decide) rfl (by decide)
  obtain ⟨evidence, hall⟩ := hevidence [alert] fim [] incident rfl hincident
  exact ⟨by decide, incident, evidence, hincident, hall⟩

end CyberSentinel.Correlation
