import CyberSentinel.VarMeaning

/-!
# Ports that are no ports

The field of a header refuses a range the wrong way round, an empty list and an empty field. Lists
and the texts of variables are read again by another path that takes all three, so that a rule may
be scoped to nothing or to port zero.
-/

namespace CyberSentinel.Detect

open Rules SetExpr Texts
open Evtx (trim)

inductive Malformed : Text → Prop
  | blank {text : Text} : trim text = [] → Malformed text
  | emptyList {text : Text} : form text = .list [] → Malformed text
  | inverted {text written : Text} {low high : UInt16} : form text = .literal written →
      VarTable.portLiteral written = .ok (low, high) → high < low → Malformed text

namespace VarTable

variable (vars : VarTable)

/-- A set for the field has a port in it, unless the field denotes none, and nothing malformed was
read. -/
def NotScopedToNothing (spec : PortSpec) (set : PortSet) : Prop :=
  ((∃ port, set.contains port = true) ∨
    ∀ e, spec.field.Written vars.portGrammar maxVarDepth e → e.denote portsOf = ∅) ∧
  ∀ part, spec.field.value.HasPart vars.portGrammar part → ¬Malformed part

/-- Something is left: of everything, without the ranges under an odd number of negations, or a
range under an even number. -/
def LeavesPort (e : Expr (UInt16 × UInt16)) : Prop :=
  if e.broad then ∃ port, ∀ range ∈ e.leaves false, port ∉ portsOf range else e.leaves true ≠ []

end VarTable

theorem portRange_ordered {low high : Option UInt16} {value : PortValue}
    (h : portRange low high = .ok value) :
    value = .range low high ∧ low.getD 0 ≤ high.getD 65535 := by
  cases low with
  | none =>
    have hzero : (0 : UInt16) ≤ high.getD 65535 := UInt16.zero_le
    exact ⟨(Except.ok.inj h).symm, hzero⟩
  | some l =>
    cases high with
    | none =>
      have htop : l ≤ (65535 : UInt16) := UInt16.le_iff_toNat_le.2 (Nat.le_of_lt_succ l.toNat_lt)
      exact ⟨(Except.ok.inj h).symm, htop⟩
    | some u =>
      rw [portRange] at h
      split_ifs at h with hreversed
      exact ⟨(Except.ok.inj h).symm, UInt16.not_lt.1 hreversed⟩

theorem portValue_ordered {body : Text} {value : PortValue} (h : portValue body = .ok value)
    {low high : Option UInt16} (hrange : value = .range low high) :
    low.getD 0 ≤ high.getD 65535 := by
  subst hrange
  rw [portValue.eq_def] at h
  by_cases hempty : body = []
  · rw [if_pos hempty] at h
    exact nomatch h
  rw [if_neg hempty] at h
  by_cases hany : lowercase body = "any".toList
  · rw [if_pos hany] at h
    exact nomatch h
  rw [if_neg hany] at h
  split at h
  · obtain ⟨_, _, hvar⟩ := map_eq_ok.1 h
    exact nomatch hvar
  · split_ifs at h
    exact nomatch h
  · split at h
    · obtain ⟨low', _, h⟩ := bind_eq_ok.1 h
      obtain ⟨high', _, h⟩ := bind_eq_ok.1 h
      obtain ⟨hsame, hordered⟩ := portRange_ordered h
      obtain ⟨rfl, rfl⟩ := PortValue.range.inj hsame
      exact hordered
    · split at h <;> exact nomatch h

def PortSpec.Ordered (spec : PortSpec) : Prop :=
  ∀ low high, spec.value = .range low high → low.getD 0 ≤ high.getD 65535

theorem parsePort_ordered {text : Text} {spec : PortSpec} (h : parsePort text = .ok spec) :
    PortSpec.Ordered spec := by
  intro low high hrange
  cases hvalue : portValue (splitNegation text).2 with
  | error e =>
    simp only [parsePort, hvalue] at h
    exact nomatch h
  | ok value =>
    simp only [parsePort, hvalue] at h
    obtain rfl := Except.ok.inj h
    exact portValue_ordered hvalue hrange

theorem parseHeader_ports {text : Text} {header : RuleHeader} (h : parseHeader text = .ok header) :
    PortSpec.Ordered header.sourcePort ∧ PortSpec.Ordered header.destinationPort := by
  rw [parseHeader.eq_def] at h
  split at h
  · obtain ⟨action, _, h⟩ := bind_eq_ok.1 h
    obtain ⟨protocol, _, h⟩ := bind_eq_ok.1 h
    obtain ⟨source, _, h⟩ := bind_eq_ok.1 h
    obtain ⟨sourcePort, hsource, h⟩ := bind_eq_ok.1 h
    obtain ⟨direction, _, h⟩ := bind_eq_ok.1 h
    obtain ⟨destination, _, h⟩ := bind_eq_ok.1 h
    obtain ⟨destinationPort, hdestination, h⟩ := bind_eq_ok.1 h
    obtain rfl := Except.ok.inj h
    exact ⟨parsePort_ordered hsource, parsePort_ordered hdestination⟩
  · exact nomatch h

theorem parseRule_ports {text : Text} {rule : ParsedRule} (h : parseRule text = .ok rule) :
    PortSpec.Ordered rule.header.sourcePort ∧ PortSpec.Ordered rule.header.destinationPort := by
  rw [parseRule] at h
  split_ifs at h
  obtain ⟨⟨headerText, body⟩, _, h⟩ := bind_eq_ok.1 h
  obtain ⟨header, hheader, h⟩ := bind_eq_ok.1 h
  obtain ⟨options, _, h⟩ := bind_eq_ok.1 h
  obtain ⟨draft, _, h⟩ := bind_eq_ok.1 h
  rw [(draft.finish_kept h).1]
  exact parseHeader_ports hheader

variable {vars : VarTable}

theorem portsOf_nonempty {range : UInt16 × UInt16} : (portsOf range).Nonempty ↔ range.1 ≤ range.2 :=
  ⟨fun ⟨_, hlow, hhigh⟩ => UInt16.le_trans hlow hhigh, fun h => ⟨range.1, UInt16.le_refl _, h⟩⟩

theorem Written.leaves_ordered {hops : ℕ} {text : Text} {e : Expr (UInt16 × UInt16)}
    (h : Written vars.portGrammar hops text e)
    (hparts : ∀ part, Relation.ReflTransGen (Part vars.portGrammar) text part → ¬Malformed part)
    (even : Bool) :
    ∀ range ∈ e.leaves even, range.1 ≤ range.2 := by
  induction h generalizing even with
  | not hform _ ih => exact ih (fun part hpart => hparts part (.head (.not hform) hpart)) !even
  | @list hops text elements es hform hlength _ ih =>
    intro range hrange
    rw [Expr.leaves, Expr.allLeaves_eq] at hrange
    obtain ⟨e, he, hrange⟩ := List.mem_flatMap.1 hrange
    obtain ⟨element, helement, hmem⟩ := exists_zip_of_mem_right hlength he
    exact ih _ hmem (fun part hpart =>
      hparts part (.head (.list hform helement) hpart)) even range hrange
  | any _ =>
    intro range hrange
    cases hrange
  | var hform htable _ ih =>
    exact ih (fun part hpart => hparts part (.head (.var hform htable) hpart)) even
  | @literal hops text written range hform hliteral =>
    intro range' hrange
    have hsame : range' = range := by
      rw [Expr.leaves] at hrange
      split_ifs at hrange
      · exact List.mem_singleton.1 hrange
      · cases hrange
    rw [hsame]
    by_contra hinverted
    exact hparts text .refl (.inverted hform hliteral (UInt16.not_le.1 hinverted))

theorem HeaderField.Written.leaves_ordered {spec : PortSpec} (hordered : PortSpec.Ordered spec)
    {e : Expr (UInt16 × UInt16)} (h : spec.field.Written vars.portGrammar maxVarDepth e)
    (hparts : ∀ part, spec.field.value.HasPart vars.portGrammar part → ¬Malformed part)
    (even : Bool) :
    ∀ range ∈ e.leaves even, range.1 ≤ range.2 := by
  obtain ⟨x, hx, he⟩ := h
  have hvalue : ∀ even, ∀ range ∈ x.leaves even, range.1 ≤ range.2 := by
    intro even range hrange
    have hleaf {range' : UInt16 × UInt16} (hsame : x = .leaf range') (h : range'.1 ≤ range'.2) :
        range.1 ≤ range.2 := by
      rw [hsame, Expr.leaves] at hrange
      split_ifs at hrange
      · exact List.mem_singleton.1 hrange ▸ h
      · cases hrange
    obtain ⟨negated, value⟩ := spec
    cases value with
    | any =>
      obtain rfl : x = .any := hx
      cases hrange
    | single port =>
      obtain ⟨j, hj, hsame⟩ := hx
      obtain rfl := Except.ok.inj hj
      exact hleaf hsame (UInt16.le_refl port)
    | range low high =>
      obtain ⟨j, hj, hsame⟩ := hx
      obtain rfl := Except.ok.inj hj
      exact hleaf hsame (hordered low high rfl)
    | var name =>
      obtain ⟨n, target, _, htable, hx⟩ := hx
      exact hx.leaves_ordered (fun part hpart =>
        hparts part ⟨target, htable, hpart⟩) even range hrange
    | list text => exact Detect.Written.leaves_ordered hx hparts even range hrange
  rw [he]
  split_ifs
  · exact hvalue !even
  · exact hvalue even

/-- A set has a port in it where something is left and no range is the wrong way round. -/
theorem exists_port_iff {e : Expr (UInt16 × UInt16)} (hexpressible : e.Expressible)
    (hordered : ∀ range ∈ e.leaves true, range.1 ≤ range.2) :
    (∃ port, (PortSet.ofFlat e.flat).contains port = true) ↔ VarTable.LeavesPort e := by
  have hnonempty : (e.flat.toSet portsOf).Nonempty ↔ _ := Expr.flat_nonempty_iff hexpressible
  simp only [PortSet.contains_ofFlat, VarTable.LeavesPort]
  rw [← Set.nonempty_def, hnonempty]
  split_ifs
  · rfl
  · constructor
    · rintro ⟨range, hrange, _⟩
      exact List.ne_nil_of_mem hrange
    · intro hne
      obtain ⟨range, hrange⟩ := List.exists_mem_of_ne_nil _ hne
      exact ⟨range, hrange, portsOf_nonempty.2 (hordered range hrange)⟩

/-- Of the ports of an accepted header, a set is not scoped to nothing exactly if nothing malformed
is in them and, if they denote any ports, something is left. -/
theorem ports_not_scoped_to_nothing_iff {text : Text} {rule : ParsedRule}
    (hrule : parseRule text = .ok rule)
    {spec : PortSpec} (hspec : spec = rule.header.sourcePort ∨ spec = rule.header.destinationPort)
    {set : PortSet} (hset : vars.resolvePorts spec = .ok set) :
    vars.NotScopedToNothing spec set ↔
      (∀ part, spec.field.value.HasPart vars.portGrammar part → ¬Malformed part) ∧
        ∀ e, spec.field.Written vars.portGrammar maxVarDepth e →
          e.denote portsOf = ∅ ∨ VarTable.LeavesPort e := by
  have hordered : PortSpec.Ordered spec := by
    obtain ⟨hsource, hdestination⟩ := parseRule_ports hrule
    rcases hspec with rfl | rfl
    · exact hsource
    · exact hdestination
  obtain ⟨s, hs, rfl⟩ := map_eq_ok.1 hset
  obtain ⟨e, he, hexpressible, rfl⟩ := resolve_eq_ok_iff.1 hs
  have hunique : ∀ {P : Expr (UInt16 × UInt16) → Prop},
      (∀ x, spec.field.Written vars.portGrammar maxVarDepth x → P x) ↔ P e :=
    ⟨fun h => h e he, fun h x hx => hx.unique he ▸ h⟩
  rw [VarTable.NotScopedToNothing, hunique, hunique]
  constructor
  · rintro ⟨hports, hparts⟩
    refine ⟨hparts, hports.symm.imp_right fun hport => ?_⟩
    exact (exists_port_iff hexpressible (he.leaves_ordered hordered hparts true)).1 hport
  · rintro ⟨hparts, hports⟩
    refine ⟨hports.symm.imp_left fun hleaves => ?_, hparts⟩
    exact (exists_port_iff hexpressible (he.leaves_ordered hordered hparts true)).2 hleaves

def portRuleText (ports : Text) : Text :=
  "alert tcp any ".toList ++ ports ++ " -> any any (msg:\"m\"; sid:1;)".toList

def portRule (ports : Text) (spec : PortSpec) : ParsedRule :=
  { header := { action := .alert, protocol := .tcp, sourcePort := spec }
    sid := 1
    msg := "m"
    options := []
    gid := none
    references := []
    raw := portRuleText ports }

def blankVars : VarTable := ⟨∅, AList.insert "EMPTY" " " ∅⟩

def webPorts : PortSpec := { value := .list "[80,443]" }

theorem parseRule_webPorts :
    parseRule (portRuleText "[80,443]".toList) = .ok (portRule "[80,443]".toList webPorts) := by
  decide +kernel

theorem resolvePorts_webPorts :
    blankVars.resolvePorts webPorts = .ok { included := [(80, 80), (443, 443)] } := by
  decide +kernel

theorem ports_not_scoped_to_nothing_iff_webPorts :
    blankVars.NotScopedToNothing webPorts { included := [(80, 80), (443, 443)] } ↔
      (∀ part, webPorts.field.value.HasPart blankVars.portGrammar part → ¬Malformed part) ∧
        ∀ e, webPorts.field.Written blankVars.portGrammar maxVarDepth e →
          e.denote portsOf = ∅ ∨ VarTable.LeavesPort e :=
  ports_not_scoped_to_nothing_iff parseRule_webPorts (.inl rfl) resolvePorts_webPorts

/-- A rule for these source ports is accepted and resolves to the set although something malformed
is in it. -/
def Disarmed (ports : Text) (spec : PortSpec) (set : PortSet) : Prop :=
  parseRule (portRuleText ports) = .ok (portRule ports spec) ∧
    blankVars.resolvePorts spec = .ok set ∧
    ¬blankVars.NotScopedToNothing spec set

/-- An empty list is a set without a port, and so is a list of a range the wrong way round. A
variable with nothing in it is port zero. -/
theorem malformed_ports_accepted :
    Disarmed "[,]".toList { value := .list "[,]" } {} ∧
      Disarmed "[200:100]".toList { value := .list "[200:100]" } { included := [(200, 100)] } ∧
      Disarmed "$EMPTY".toList { value := .var "EMPTY" } { included := [(0, 0)] } := by
  refine ⟨⟨by decide +kernel, by decide +kernel, fun h => ?_⟩, ⟨by
    decide +kernel, by decide +kernel, fun h => ?_⟩,
    by decide +kernel, by decide +kernel, fun h => ?_⟩
  · exact h.2 _ .refl (.emptyList (by decide +kernel))
  · have hlist : form "[200:100]".toList = .list ["200:100".toList] := by decide +kernel
    have hliteral : form "200:100".toList = .literal "200:100".toList := by decide +kernel
    have hports : VarTable.portLiteral "200:100".toList = .ok (200, 100) := by decide +kernel
    exact h.2 _ (.single (.list hlist (List.mem_singleton_self _)))
      (.inverted hliteral hports (by decide))
  · exact h.2 " ".toList ⟨" ".toList, by decide +kernel, .refl⟩ (.blank (by decide +kernel))

end CyberSentinel.Detect
