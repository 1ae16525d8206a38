import CyberSentinel.Correlation

/-!
# What incidents are

An incident has the retained observations of its host for evidence, its trigger among them. The
windows stay within their bounds, hold what was given for their host, and what is remembered as the
last incident of a host is one that was raised.
-/

namespace CyberSentinel.Correlation

open Tables

/-- The evidence of an incident: what was given to the correlator so far and led to it. -/
structure Evidence (settings : CorrelationSettings) (given : List Observation)
    (trigger : Observation)
    (incident : IncidentEvent) (evidence : List Observation) : Prop where
  contributors_eq : incident.contributors = evidence.map Observation.contributor
  given : ∀ o ∈ evidence, o ∈ given
  host_eq : ∀ o ∈ evidence, o.host = trigger.host
  within : ∀ o ∈ evidence, (trigger.timestamp - o.timestamp).natAbs ≤ settings.window
  hostSide : ∃ o ∈ evidence, o.domain = .host
  networkSide : ∃ o ∈ evidence, o.domain = .network
  trigger_mem : trigger ∈ evidence
  sorted : evidence.Pairwise (fun a b => a.timestamp ≤ b.timestamp)
  firstSeen : IsLeast {t | ∃ o ∈ evidence, o.timestamp = t} incident.firstSeen
  lastSeen : IsGreatest {t | ∃ o ∈ evidence, o.timestamp = t} incident.lastSeen
  severity : IsLeast {s | ∃ o ∈ evidence, o.severity = s} incident.severity

theorem pairwise_inOrder (window : List Observation) :
    (inOrder window).Pairwise (fun a b => a.timestamp ≤ b.timestamp) := by
  have : Std.Total (fun a b : Observation => a.timestamp ≤ b.timestamp) := ⟨fun a b => le_total _ _⟩
  have : IsTrans Observation (fun a b : Observation => a.timestamp ≤ b.timestamp) :=
    ⟨fun _ _ _ => le_trans⟩
  exact List.pairwise_insertionSort _ window

theorem mem_inOrder {window : List Observation} {o : Observation} :
    o ∈ inOrder window ↔ o ∈ window :=
  List.mem_insertionSort _

theorem incidentOf_spec {window : List Observation} (hne : window ≠ []) :
    ∃ incident, incidentOf window = some incident ∧
      incident.contributors = (inOrder window).map Observation.contributor ∧
      IsLeast {t | ∃ o ∈ inOrder window, o.timestamp = t} incident.firstSeen ∧
      IsGreatest {t | ∃ o ∈ inOrder window, o.timestamp = t} incident.lastSeen ∧
      IsLeast {s | ∃ o ∈ inOrder window, o.severity = s} incident.severity := by
  have hsorted := pairwise_inOrder window
  have hordered : inOrder window ≠ [] := by
    intro hnil
    exact hne (List.eq_nil_of_length_eq_zero (by
      rw [← List.length_insertionSort (fun a b : Observation => a.timestamp ≤ b.timestamp) window]
      exact congrArg List.length hnil))
  unfold incidentOf
  generalize inOrder window = ordered at hsorted hordered ⊢
  cases ordered with
  | nil => exact absurd rfl hordered
  | cons first rest =>
    have hlast := List.getLast?_eq_some_getLast hordered
    obtain ⟨worst, hworst⟩ := Option.isSome_iff_exists.1
      (List.isSome_min?_of_ne_nil (l := (first :: rest).map Observation.severity) (by simp))
    obtain ⟨hmem, hle⟩ := List.min?_eq_some_iff.1 hworst
    simp only [List.head?_cons, hlast, hworst, Option.getD_some]
    refine ⟨_, rfl, rfl, ⟨⟨first, List.mem_cons_self, rfl⟩, ?_⟩,
      ⟨⟨_, List.getLast_mem hordered, rfl⟩, ?_⟩, ?_, ?_⟩
    · rintro t ⟨o, ho, rfl⟩
      rcases List.mem_cons.1 ho with rfl | ho
      · exact le_rfl
      · exact List.rel_of_pairwise_cons hsorted ho
    · rintro t ⟨o, ho, rfl⟩
      -- the last one is behind every other
      obtain ⟨before, hsplit⟩ : ∃ before,
          first :: rest = before ++ [(first :: rest).getLast hordered] :=
        ⟨_, (List.dropLast_append_getLast hordered).symm⟩
      generalize (first :: rest).getLast hordered = last at hsplit ⊢
      rw [hsplit] at ho hsorted
      rcases List.mem_append.1 ho with ho | ho
      · exact (List.pairwise_append.1 hsorted).2.2 o ho last (by simp)
      · rw [List.mem_singleton.1 ho]
    · obtain ⟨o, ho, hseverity⟩ := List.mem_map.1 hmem
      exact ⟨o, ho, hseverity⟩
    · rintro severity ⟨o, ho, rfl⟩
      exact hle _ (List.mem_map_of_mem ho)

namespace Correlator

variable (c : Correlator)

theorem lookup_expire (now : ℤ) (host : String) :
    (c.expire now).windows.lookup host =
      (c.windows.lookup host).bind (trim now c.settings.window) :=
  lookup_revise _ _ _

theorem lookup_expire_last (now : ℤ) (host : String) :
    (c.expire now).lastIncident.lookup host = (c.lastIncident.lookup host).filter
      (fun previous => within previous now c.settings.cooldown) :=
  lookup_retain _ _ _

/-- What the window of a host is after an observation of it has been retained. -/
def retained (c : Correlator) (o : Observation) : List Observation :=
  let window := ((c.expire o.timestamp).windows.lookup o.host).getD []
  (if c.settings.maxPerHost ≤ window.length then window.tail else window) ++ [o]

variable {c} in
theorem mem_retained_self (o : Observation) : o ∈ c.retained o := by
  rw [retained]
  exact List.mem_append_right _ (List.mem_singleton_self o)

theorem exists_incident_retained (o : Observation) :
    ∃ incident, incidentOf (c.retained o) = some incident := by
  obtain ⟨incident, hincident, -⟩ :=
    incidentOf_spec (List.ne_nil_of_mem (mem_retained_self (c := c) o))
  exact ⟨incident, hincident⟩

def cooling (c : Correlator) (o : Observation) : Bool :=
  (c.lastIncident.lookup o.host).any (fun previous =>
    within previous o.timestamp c.settings.cooldown)

def accepts (c : Correlator) (o : Observation) : Bool := (c.expire o.timestamp).hasRoom o.host

/-- The window that retains the observation has evidence of the other half. -/
def paired (c : Correlator) (o : Observation) : Bool :=
  (c.retained o).any (fun other => other.domain = o.domain.opposite)

theorem windows_push (o : Observation) : ((c.expire o.timestamp).push o).windows =
    (c.expire o.timestamp).windows.insert o.host (c.retained o) := by
  simp only [push, retained, decide_eq_true_eq]
  rfl

theorem cooling_push (o : Observation) :
    (((c.expire o.timestamp).push o).lastIncident.lookup o.host).any (fun previous =>
      within previous o.timestamp ((c.expire o.timestamp).push o).settings.cooldown) =
    c.cooling o := by
  change ((c.expire o.timestamp).lastIncident.lookup o.host).any _ = _
  rw [lookup_expire_last, cooling]
  cases c.lastIncident.lookup o.host with
  | none => rfl
  | some previous =>
    rw [Option.filter_some]
    split_ifs with hwithin
    · rfl
    · simpa using hwithin

/-- A retained observation raises an incident when it completes a pair and the host is not cooling.
-/
theorem tryCorrelate_push (o : Observation) :
    let pushed := (c.expire o.timestamp).push o
    pushed.tryCorrelate o = if c.cooling o || !c.paired o then (pushed, none) else
      ({ pushed with
          stats := { pushed.stats with incidents := pushed.stats.incidents + 1 }
          lastIncident := pushed.lastIncident.insert o.host o.timestamp },
        incidentOf (c.retained o)) := by
  intro pushed
  have hlookup : pushed.windows.lookup o.host = some (c.retained o) := by
    rw [c.windows_push o, AList.lookup_insert]
  obtain ⟨incident, hincident⟩ := c.exists_incident_retained o
  rw [tryCorrelate, c.cooling_push o, hlookup]
  change (if c.cooling o = true then (pushed, none) else
    if (!c.paired o) = true then (pushed, none) else _) = _
  cases c.cooling o with
  | true => rfl
  | false =>
    cases c.paired o with
    | false => rfl
    | true =>
      rw [hincident]
      rfl

/-- What an observation does: it is refused, retained, or retained and raises an incident. -/
theorem observe_cases (o : Observation) :
    let next := (c.observe o).1
    let answer := (c.observe o).2
    let expired := c.expire o.timestamp
    next.settings = c.settings ∧
    ((c.accepts o = false ∧ answer = none ∧ next.windows = expired.windows ∧
        next.lastIncident = expired.lastIncident) ∨
      (c.accepts o = true ∧ next.windows = expired.windows.insert o.host (c.retained o) ∧
        ((c.cooling o = true ∨ c.paired o = false) ∧ answer = none ∧
            next.lastIncident = expired.lastIncident ∨
          (c.cooling o = false ∧ c.paired o = true) ∧ answer = incidentOf (c.retained o) ∧
            next.lastIncident = expired.lastIncident.insert o.host o.timestamp))) := by
  intro next answer expired
  let counted : Correlator :=
    { c with stats := { c.stats with observations := c.stats.observations + 1 } }
  have hobserve : c.observe o = if !(counted.expire o.timestamp).hasRoom o.host then
      ({ counted.expire o.timestamp with
        stats := { (counted.expire o.timestamp).stats with
          dropped := (counted.expire o.timestamp).stats.dropped + 1 } }, none)
      else ((counted.expire o.timestamp).push o).tryCorrelate o := rfl
  have hroom : (counted.expire o.timestamp).hasRoom o.host = c.accepts o := rfl
  rw [hroom] at hobserve
  cases haccepts : c.accepts o with
  | false =>
    rw [haccepts, Bool.not_false, if_pos rfl] at hobserve
    have hnext : next = _ := congrArg Prod.fst hobserve
    have hanswer : answer = _ := congrArg Prod.snd hobserve
    exact ⟨by rw [hnext]; rfl, Or.inl ⟨rfl, hanswer, by rw [hnext]; rfl, by rw [hnext]; rfl⟩⟩
  | true =>
    rw [haccepts, Bool.not_true, if_neg Bool.false_ne_true] at hobserve
    let pushed := (counted.expire o.timestamp).push o
    have hwindows : pushed.windows = expired.windows.insert o.host (c.retained o) :=
      counted.windows_push o
    have hraises := hobserve.trans (counted.tryCorrelate_push o)
    rw [show counted.cooling o = c.cooling o from rfl, show counted.paired o = c.paired o from rfl,
      show counted.retained o = c.retained o from rfl] at hraises
    have hkept : c.observe o = (pushed, none) → next.settings = c.settings ∧ answer = none ∧
        next.windows = expired.windows.insert o.host (c.retained o) ∧
        next.lastIncident = expired.lastIncident := by
      intro hsame
      have hnext : next = pushed := congrArg Prod.fst hsame
      exact ⟨by rw [hnext]; rfl, congrArg Prod.snd hsame, by rw [hnext,
        hwindows], by rw [hnext]; rfl⟩
    cases hcool : c.cooling o with
    | true =>
      rw [hcool] at hraises
      obtain ⟨hsettings, hanswer, hnext, hsame⟩ := hkept hraises
      exact ⟨hsettings, Or.inr ⟨rfl, hnext, Or.inl ⟨Or.inl rfl, hanswer, hsame⟩⟩⟩
    | false =>
      cases hpaired : c.paired o with
      | false =>
        rw [hcool, hpaired] at hraises
        obtain ⟨hsettings, hanswer, hnext, hsame⟩ := hkept hraises
        exact ⟨hsettings, Or.inr ⟨rfl, hnext, Or.inl ⟨Or.inr rfl, hanswer, hsame⟩⟩⟩
      | true =>
        rw [hcool, hpaired] at hraises
        have hnext : next = _ := congrArg Prod.fst hraises
        have hanswer : answer = incidentOf (c.retained o) := congrArg Prod.snd hraises
        refine ⟨by rw [hnext]; rfl, Or.inr ⟨rfl, by rw [hnext]; exact hwindows, Or.inr ⟨⟨rfl, rfl⟩,
          hanswer, ?_⟩⟩⟩
        rw [hnext]
        rfl

theorem getD_lookup_expire (now : ℤ) (host : String) :
    ((c.expire now).windows.lookup host).getD [] =
      ((c.windows.lookup host).getD []).filter
      (fun o => within o.timestamp now c.settings.window) := by
  rw [lookup_expire]
  cases c.windows.lookup host with
  | none => rfl
  | some window =>
    rw [Option.bind_some, Option.getD_some, trim]
    split_ifs with hempty
    · rw [hempty]
      rfl
    · rfl

variable {c}

theorem mem_retained {o x : Observation} (h : x ∈ c.retained o) :
    x = o ∨ x ∈ (c.windows.lookup o.host).getD [] ∧
      within x.timestamp o.timestamp c.settings.window = true := by
  simp only [retained, getD_lookup_expire] at h
  rcases List.mem_append.1 h with h | h
  · split_ifs at h
    · exact Or.inr (List.mem_filter.1 (List.mem_of_mem_tail h))
    · exact Or.inr (List.mem_filter.1 h)
  · exact Or.inl (List.mem_singleton.1 h)

theorem length_retained {o : Observation} (hpos : 1 ≤ c.settings.maxPerHost)
    (hle : ((c.windows.lookup o.host).getD []).length ≤ c.settings.maxPerHost) :
    (c.retained o).length ≤ c.settings.maxPerHost := by
  simp only [retained, getD_lookup_expire, List.length_append, List.length_singleton]
  have hfilter := List.length_filter_le (fun x : Observation => within x.timestamp o.timestamp
    c.settings.window) ((c.windows.lookup o.host).getD [])
  split_ifs with hfull
  · rw [List.length_tail]
    omega
  · omega

theorem lookup_observe {o : Observation} {host : String} {window : List Observation}
    (h : (c.observe o).1.windows.lookup host = some window) :
    host = o.host ∧ window = c.retained o ∨
      window = ((c.windows.lookup host).getD []).filter
        (fun x => within x.timestamp o.timestamp c.settings.window) := by
  have hexpired : (c.expire o.timestamp).windows.lookup host = some window →
      window = ((c.windows.lookup host).getD []).filter
        (fun x => within x.timestamp o.timestamp c.settings.window) := by
    intro hlookup
    rw [← getD_lookup_expire, hlookup, Option.getD_some]
  obtain ⟨-, ⟨-, -, hwindows, -⟩ | ⟨-, hwindows, -⟩⟩ := c.observe_cases o
  · rw [hwindows] at h
    exact Or.inr (hexpired h)
  · rw [hwindows] at h
    by_cases hhost : host = o.host
    · rw [hhost, AList.lookup_insert] at h
      exact Or.inl ⟨hhost, (Option.some.inj h).symm⟩
    · rw [AList.lookup_insert_ne hhost] at h
      exact Or.inr (hexpired h)

end Correlator

open Correlator

def after (settings : CorrelationSettings) (given : List Observation) : Correlator :=
  (Runs.run Correlator.observe (Correlator.new settings) given).1

/-- The incidents that a machine raises on some observations, each with the observation that raised
it. -/
def raisedFrom {σ : Type} (step : σ → Observation → σ × Option IncidentEvent) (s : σ)
    (given : List Observation) : List (Observation × IncidentEvent) :=
  (given.zip (Runs.run step s given).2).filterMap (fun e =>
    e.2.map (fun incident => (e.1, incident)))

def raised (settings : CorrelationSettings) (given : List Observation) :
    List (Observation × IncidentEvent) :=
  raisedFrom Correlator.observe (Correlator.new settings) given

theorem raisedFrom_snoc {σ : Type} (step : σ → Observation → σ × Option IncidentEvent) (s : σ)
    (given : List Observation) (o : Observation) :
    raisedFrom step s (given ++ [o]) = raisedFrom step s given ++
      ((step (Runs.run step s given).1 o).2.map (fun incident => (o, incident))).toList := by
  rw [raisedFrom, raisedFrom, Runs.run_append, Runs.run_cons, Runs.run_nil,
    List.zip_append (Runs.length_run _ _ _).symm, List.filterMap_append]
  generalize step _ o = next
  cases next.2 <;> simp

section

variable {settings : CorrelationSettings} {given : List Observation} {o : Observation}

theorem after_snoc (settings : CorrelationSettings) (given : List Observation) (o : Observation) :
    after settings (given ++ [o]) = ((after settings given).observe o).1 := by
  rw [after, after, Runs.run_append, Runs.run_cons, Runs.run_nil]

theorem raised_snoc (settings : CorrelationSettings) (given : List Observation) (o : Observation) :
    raised settings (given ++ [o]) = raised settings given ++
      (((after settings given).observe o).2.map (fun incident => (o, incident))).toList :=
  raisedFrom_snoc _ _ _ _

structure Sound (settings : CorrelationSettings) (given : List Observation)
    (c : Correlator) : Prop where
  settings_eq : c.settings = settings
  hosts_le : size c.windows ≤ settings.maxHosts
  length_le : ∀ host, ((c.windows.lookup host).getD []).length ≤ settings.maxPerHost
  mem_given : ∀ host, ∀ o ∈ (c.windows.lookup host).getD [], o ∈ given ∧ o.host = host
  recalled : ∀ host previous, c.lastIncident.lookup host = some previous →
    ∃ e ∈ raised settings given, e.1.host = host ∧ e.1.timestamp = previous

theorem Sound.observe {c : Correlator} (h : Sound settings given c) (hpos : 1 ≤ settings.maxPerHost)
    (o : Observation) (hc : c = after settings given) :
    Sound settings (given ++ [o]) (c.observe o).1 where
  settings_eq := (c.observe_cases o).1.trans h.settings_eq
  hosts_le := by
    have hexpired : size (c.expire o.timestamp).windows ≤ settings.maxHosts :=
      (size_revise_le _ _).trans h.hosts_le
    obtain ⟨-, ⟨-, -, hwindows, -⟩ | ⟨haccepts, hwindows, -⟩⟩ := c.observe_cases o
    · rw [hwindows]
      exact hexpired
    · rw [hwindows, size_insert]
      rw [accepts, hasRoom, Bool.or_eq_true, decide_eq_true_eq] at haccepts
      rcases haccepts with hthere | hroom
      · rw [if_pos hthere]
        exact hexpired
      · have hmax : (c.expire o.timestamp).settings.maxHosts = settings.maxHosts := by
          rw [← h.settings_eq]
          rfl
        split_ifs <;> omega
  length_le host := by
    cases hlookup : (c.observe o).1.windows.lookup host with
    | none => exact Nat.zero_le _
    | some window =>
      rw [Option.getD_some]
      obtain ⟨rfl, rfl⟩ | rfl := lookup_observe hlookup
      · have hlength := h.length_le o.host
        rw [← h.settings_eq] at hpos hlength ⊢
        exact length_retained hpos hlength
      · exact (List.length_filter_le _ _).trans (h.length_le host)
  mem_given host x hx := by
    cases hlookup : (c.observe o).1.windows.lookup host with
    | none => simp [hlookup] at hx
    | some window =>
      rw [hlookup, Option.getD_some] at hx
      obtain ⟨rfl, rfl⟩ | rfl := lookup_observe hlookup
      · rcases mem_retained hx with rfl | ⟨hold, -⟩
        · exact ⟨List.mem_append_right _ (List.mem_singleton_self _), rfl⟩
        · exact (h.mem_given _ x hold).imp_left (List.mem_append_left _)
      · exact (h.mem_given _ x (List.mem_filter.1 hx).1).imp_left (List.mem_append_left _)
  recalled host previous hlookup := by
    have hearlier : (c.expire o.timestamp).lastIncident.lookup host = some previous →
        ∃ e ∈ raised settings (given ++ [o]), e.1.host = host ∧ e.1.timestamp = previous := by
      intro hkept
      rw [lookup_expire_last, Option.filter_eq_some_iff] at hkept
      obtain ⟨e, he, hsame⟩ := h.recalled host previous hkept.1
      exact ⟨e, by rw [raised_snoc]; exact List.mem_append_left _ he, hsame⟩
    obtain ⟨-, ⟨-, -, -, hlast⟩ | ⟨-, -, ⟨-, -, hlast⟩ | ⟨-, hanswer, hlast⟩⟩⟩ := c.observe_cases o
    · exact hearlier (hlast ▸ hlookup)
    · exact hearlier (hlast ▸ hlookup)
    · rw [hlast] at hlookup
      by_cases hhost : host = o.host
      · rw [hhost, AList.lookup_insert] at hlookup
        obtain ⟨incident, hincident⟩ := exists_incident_retained (c := c) o
        refine ⟨(o, incident), ?_, hhost.symm, Option.some.inj hlookup⟩
        rw [raised_snoc, ← hc, hanswer, hincident]
        simp
      · rw [AList.lookup_insert_ne hhost] at hlookup
        exact hearlier hlookup

theorem sound_after (hpos : 1 ≤ settings.maxPerHost) (given : List Observation) :
    Sound settings given (after settings given) := by
  induction given using List.reverseRecOn with
  | nil =>
    exact ⟨rfl, Nat.zero_le _, fun _ => Nat.zero_le _, fun _ _ h => absurd h (by simp [after, new]),
      fun _ _ h => absurd h (by simp [after, new])⟩
  | append_singleton given o ih =>
    rw [after_snoc]
    exact ih.observe hpos o rfl

theorem exists_domain {evidence : List Observation} {trigger other : Observation}
    (htrigger : trigger ∈ evidence) (hother : other ∈ evidence)
    (hopposite : other.domain = trigger.domain.opposite) (d : Domain) :
    ∃ o ∈ evidence, o.domain = d := by
  by_cases hd : trigger.domain = d
  · exact ⟨trigger, htrigger, hd⟩
  · refine ⟨other, hother, hopposite.trans ?_⟩
    cases d <;> cases hdomain : trigger.domain <;> simp_all [Domain.opposite]

theorem evidence_of_observe {c : Correlator} (h : Sound settings given c) {incident : IncidentEvent}
    (hanswer : (c.observe o).2 = some incident) :
    Evidence settings (given ++ [o]) o incident (inOrder (c.retained o)) := by
  have hself : o ∈ c.retained o := mem_retained_self o
  obtain ⟨spanned, hincident, hcontributors, hfirst, hlast, hseverity⟩ :=
    incidentOf_spec (List.ne_nil_of_mem hself)
  obtain ⟨-, ⟨-, hnone, -, -⟩ | ⟨-, -, ⟨-, hnone, -⟩ | ⟨⟨-, hpaired⟩, hsome, -⟩⟩⟩ :=
    c.observe_cases o
  · exact absurd (hanswer.symm.trans hnone) (by simp)
  · exact absurd (hanswer.symm.trans hnone) (by simp)
  · obtain rfl : incident = spanned :=
      Option.some.inj (hanswer.symm.trans (hsome.trans hincident))
    rw [paired, List.any_eq_true] at hpaired
    obtain ⟨other, hother, hopposite⟩ := hpaired
    have hdomain := exists_domain (mem_inOrder.2 hself) (mem_inOrder.2 hother)
      (of_decide_eq_true hopposite)
    refine ⟨hcontributors, ?_, ?_, ?_, hdomain _, hdomain _, mem_inOrder.2 hself,
      pairwise_inOrder _, hfirst, hlast, hseverity⟩
    · intro x hx
      rcases mem_retained (mem_inOrder.1 hx) with rfl | ⟨hold, -⟩
      · simp
      · exact List.mem_append_left _ (h.mem_given _ x hold).1
    · intro x hx
      rcases mem_retained (mem_inOrder.1 hx) with rfl | ⟨hold, -⟩
      · rfl
      · exact (h.mem_given _ x hold).2
    · intro x hx
      rcases mem_retained (mem_inOrder.1 hx) with rfl | ⟨-, hwithin⟩
      · simp
      · rw [← h.settings_eq]
        exact of_decide_eq_true hwithin

/-- An accepted observation whose window has evidence of the other half, and whose host has not
raised an incident within the cooldown, raises one. -/
theorem observe_isSome {c : Correlator} (h : Sound settings given c) (haccepts : c.accepts o = true)
    {window : List Observation} (hwindow : (c.observe o).1.windows.lookup o.host = some window)
    {other : Observation} (hother : other ∈ window) (hopposite : other.domain = o.domain.opposite)
    (hquiet : ∀ e ∈ raised settings given, e.1.host = o.host →
      settings.cooldown < (o.timestamp - e.1.timestamp).natAbs) :
    ∃ incident, (c.observe o).2 = some incident := by
  have hcooling : c.cooling o = false := by
    rw [cooling, Option.any_eq_false_iff_get]
    intro hsome
    obtain ⟨e, he, hhost, htime⟩ := h.recalled o.host _ (Option.some_get hsome).symm
    have hfar := hquiet e he hhost
    rw [htime] at hfar
    rw [within, decide_eq_false_iff_not, not_le, h.settings_eq]
    exact hfar
  obtain ⟨incident, hincident⟩ := exists_incident_retained (c := c) o
  obtain ⟨-, ⟨hrefused, -⟩ | ⟨-, hwindows, ⟨hquiet | hpaired, -⟩ | ⟨-, hanswer, -⟩⟩⟩ :=
    c.observe_cases o
  · exact absurd (haccepts.symm.trans hrefused) (by simp)
  · exact absurd (hcooling.symm.trans hquiet) (by simp)
  · rw [hwindows, AList.lookup_insert] at hwindow
    rw [← Option.some.inj hwindow] at hother
    rw [paired, List.any_eq_false] at hpaired
    exact absurd (decide_eq_true hopposite) (hpaired other hother)
  · exact ⟨incident, hanswer.trans hincident⟩

end

end CyberSentinel.Correlation
