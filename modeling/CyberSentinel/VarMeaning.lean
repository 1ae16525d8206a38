import CyberSentinel.Blanks
import CyberSentinel.VarResolution

/-!
# What resolved sets mean

A resolved set should have the addresses or ports in it that its expression denotes. It has them,
and so have the sets of all expressions that are written in it, exactly if every list keeps its
meaning where its elements are put together: a list of something and of something negated does not.
-/

namespace CyberSentinel.Detect

open Rules SetExpr Texts
open Evtx (trim)

/-- The brackets of the text belong together. Outside of them there are commas only if `commas` says
so. -/
inductive Bracketed : (commas : Bool) → Text → Prop
  | nil {commas : Bool} : Bracketed commas []
  | char {commas : Bool} {c : Char} {rest : Text} : c ≠ '[' → c ≠ ']' → (c = ',' → commas = true) →
      Bracketed commas rest → Bracketed commas (c :: rest)
  | group {commas : Bool} {inner rest : Text} : Bracketed true inner → Bracketed commas rest →
      Bracketed commas ('[' :: (inner ++ ']' :: rest))

theorem splitFrom_bracketed {commas : Bool} {text : Text} (h : Bracketed commas text) {depth : ℕ}
    (hdepth : commas = true → 0 < depth) (current rest : Text) :
    splitFrom depth current (text ++ rest) = splitFrom depth (current ++ text) rest := by
  induction h generalizing depth current rest with
  | nil => simp
  | @char commas c text hopen hclose hcomma _ ih =>
    have hsplit : ¬(c = ',' ∧ depth = 0) :=
      fun ⟨hc, hzero⟩ => absurd (hdepth (hcomma hc)) (by omega)
    rw [List.cons_append, splitFrom, if_neg hopen, if_neg hclose, if_neg hsplit, ih hdepth,
      List.append_assoc]
    rfl
  | @group commas inner text _ _ ihInner ih =>
    have hassoc : '[' :: (inner ++ ']' :: text) ++ rest =
        '[' :: (inner ++ (']' :: (text ++ rest))) := by simp
    rw [hassoc, splitFrom, if_pos rfl, ihInner (fun _ => Nat.succ_pos depth), splitFrom,
      if_neg (by decide), if_pos rfl, Nat.succ_sub_one, ih hdepth]
    simp

/-- The elements of a list are what is written between its commas, without blanks. -/
theorem splitTopLevel_intercalate {pieces : List Text} (hne : pieces ≠ [])
    (h : ∀ piece ∈ pieces, Bracketed false piece) :
    splitTopLevel ([','].intercalate pieces) = (pieces.map trim).filter (· ≠ []) := by
  have hsplit : ∀ pieces : List Text, pieces ≠ [] → (∀ piece ∈ pieces, Bracketed false piece) →
      splitFrom 0 [] ([','].intercalate pieces) = pieces := by
    intro pieces hne h
    induction pieces with
    | nil => exact absurd rfl hne
    | cons piece pieces ih =>
      have hpiece : ∀ current rest, splitFrom 0 current (piece ++ rest) =
          splitFrom 0 (current ++ piece) rest :=
        splitFrom_bracketed (h piece List.mem_cons_self) (by simp)
      cases pieces with
      | nil =>
        have hend := hpiece [] []
        rw [List.append_nil, List.nil_append] at hend
        rw [List.intercalate_singleton, hend, splitFrom]
      | cons next pieces =>
        rw [List.intercalate_cons_cons, List.append_assoc, hpiece, List.nil_append,
          List.singleton_append,
          splitFrom, if_neg (by decide), if_neg (by decide), if_pos ⟨rfl, rfl⟩,
          ih (by simp) fun p hp => h p (List.mem_cons_of_mem _ hp)]
  rw [splitTopLevel, hsplit pieces hne h]

theorem form_list {pieces : List Text} (hne : pieces ≠ [])
    (h : ∀ piece ∈ pieces, Bracketed false piece) :
    form ('[' :: ([','].intercalate pieces ++ [']'])) =
      .list ((pieces.map trim).filter (· ≠ [])) := by
  have htrim : trim ('[' :: ([','].intercalate pieces ++ [']'])) =
      '[' :: ([','].intercalate pieces ++ [']']) :=
    Blanks.strip_eq_self (by simp; decide)
      (by rw [← List.cons_append, List.getLast?_concat]; simp; decide)
  have hbrackets : stripBrackets ('[' :: ([','].intercalate pieces ++ [']'])) =
      some ([','].intercalate pieces) := by
    rw [stripBrackets, if_pos List.getLast?_concat, List.dropLast_concat]
  rw [← splitTopLevel_intercalate hne h, form, htrim]
  split
  · next rest hbang => exact absurd (List.cons.inj hbang).1 (by decide)
  · simp only [hbrackets]

section Parts

variable {ι : Type} (g : Grammar ι)

/-- The second text is written in the first, or is what it stands for. -/
inductive Part : Text → Text → Prop
  | not {text rest : Text} : form text = .not rest → Part text rest
  | list {text element : Text} {elements : List Text} : form text = .list elements →
    element ∈ elements →
      Part text element
  | var {text name target : Text} : form text = .var name → g.table name = some target →
    Part text target

def HeaderValue.HasPart : HeaderValue ι → Text → Prop
  | .var name, part => ∃ target, g.table name = some target ∧ Relation.ReflTransGen (Part
    g) target part
  | .list text, part => Relation.ReflTransGen (Part g) text part
  | _, _ => False

def listField (text : Text) : HeaderField ι := ⟨false, .list text, []⟩

variable {α : Type} (mem : ι → Set α)

def HeaderField.Means (field : HeaderField ι) : Prop :=
  ∀ s, field.resolve g = .ok s → ∀ e, field.Written g maxVarDepth e → ∀ a, a ∈ s.toSet mem ↔
    a ∈ e.denote mem

/-- If the text is a list that resolves, it keeps its meaning where its elements are put together.
-/
def ListKeeps (text : Text) : Prop :=
  ∀ elements es, form text = .list elements → Written g maxVarDepth text (.list es) →
    (Expr.list es).Expressible → Expr.KeepsMeaning mem es

variable {g mem}

theorem means_iff {field : HeaderField ι} :
    field.Means g mem ↔ ∀ e, field.Written g maxVarDepth e → e.Expressible → e.Means mem := by
  constructor
  · intro h e he hexpressible
    exact h e.flat (resolve_eq_ok_iff.2 ⟨e, he, hexpressible, rfl⟩) e he
  · intro h s hs e he
    obtain ⟨e', he', hexpressible, rfl⟩ := resolve_eq_ok_iff.1 hs
    rw [he.unique he']
    exact h e' he' hexpressible

theorem means_listField {text : Text} :
    (listField text : HeaderField ι).Means g mem ↔
      ∀ e, Written g maxVarDepth text e → e.Expressible → e.Means mem := by
  rw [means_iff]
  constructor
  · intro h e he
    exact h e ⟨e, he, rfl⟩
  · rintro h _ ⟨_, he, rfl⟩
    exact h _ he

theorem Written.means {hops : ℕ} {text : Text} {e : Expr ι} (h : Written g hops text e)
    (hhops : hops ≤ maxVarDepth)
    (hexpressible : e.Expressible)
    (hlists : ∀ part, Relation.ReflTransGen (Part g) text part → ListKeeps g mem part) :
    e.Means mem := by
  induction h with
  | not hform _ ih =>
    obtain _ | _ | ⟨hinner, hmixed⟩ := hexpressible
    refine (ih hhops hinner fun part hpart => hlists part (.head (.not hform) hpart)).not ?_
    exact .not hinner hmixed
  | @list hops text elements es hform hlength hes ih =>
    have hlist := hlists text .refl elements es hform
      ((Written.list hform hlength hes).mono hhops) hexpressible
    obtain _ | _ | _ | hall := hexpressible
    refine (Expr.means_list_iff (fun e he => ?_) hall).2 hlist
    obtain ⟨element, helement, hmem⟩ := exists_zip_of_mem_right hlength he
    exact ih _ hmem hhops (hall e he) fun part hpart =>
      hlists part (.head (.list hform helement) hpart)
  | any _ => exact Expr.means_any mem
  | var hform htable _ ih =>
    exact ih (by omega) hexpressible fun part hpart => hlists part (.head (.var hform htable) hpart)
  | literal _ _ => exact Expr.means_leaf mem _

/-- A list whose elements are all right is right only if it keeps its meaning. -/
theorem listKeeps_of_means {text : Text} (hmeans : (listField text : HeaderField ι).Means g mem)
    (hparts : ∀ part, Part g text part → (listField part : HeaderField ι).Means g mem) :
    ListKeeps g mem text := by
  intro elements es hform hwritten hexpressible
  have hlist := means_listField.1 hmeans _ hwritten hexpressible
  obtain _ | _ | _ | hall := hexpressible
  refine (Expr.means_list_iff (fun e he => ?_) hall).1 hlist
  rw [written_iff, hform] at hwritten
  obtain ⟨es', hes', hlength, hwritten⟩ := hwritten
  obtain rfl := Expr.list.inj hes'
  obtain ⟨element, helement, hmem⟩ := exists_zip_of_mem_right hlength he
  exact means_listField.1 (hparts element (.list hform helement)) e (hwritten _ hmem) (hall e he)

theorem HeaderValue.HasPart.step {value : HeaderValue ι} {text part : Text}
    (h : value.HasPart g text)
    (hpart : Part g text part) : value.HasPart g part := by
  cases value with
  | any | literal i => exact absurd h id
  | var name =>
    obtain ⟨target, htable, hpath⟩ := h
    exact ⟨target, htable, hpath.tail hpart⟩
  | list whole => exact Relation.ReflTransGen.tail h hpart

/-- A field and everything in it mean what they denote exactly if every list in it keeps its
meaning. -/
theorem field_means_iff (field : HeaderField ι) :
    (field.Means g mem ∧ ∀ part, field.value.HasPart g part →
    (listField part : HeaderField ι).Means g mem) ↔
      ∀ part, field.value.HasPart g part → ListKeeps g mem part := by
  constructor
  · rintro ⟨_, hmeans⟩ part hpart
    exact listKeeps_of_means (hmeans part hpart) fun next hnext => hmeans next (hpart.step hnext)
  · intro hlists
    have hbelow : ∀ {text part}, field.value.HasPart g text →
        Relation.ReflTransGen (Part g) text part →
        ListKeeps g mem part := by
      intro text part htext hpath
      apply hlists part
      induction hpath with
      | refl => exact htext
      | tail _ hstep ih => exact ih.step hstep
    refine ⟨means_iff.2 ?_, fun part hpart => means_listField.2 fun e he hexpressible =>
      he.means le_rfl hexpressible fun next hnext => hbelow hpart hnext⟩
    rintro e ⟨x, hx, he⟩ hexpressible
    have hvalue : x.Expressible → x.Means mem := by
      intro hx'
      obtain ⟨negated, value, shown⟩ := field
      cases value with
      | any =>
        obtain rfl : x = .any := hx
        exact Expr.means_any mem
      | literal i =>
        obtain ⟨j, rfl, rfl⟩ := hx
        exact Expr.means_leaf mem j
      | var name =>
        obtain ⟨n, target, hn, htable, hx⟩ := hx
        exact hx.means (by omega) hx' fun part hpart => hlists part ⟨target, htable, hpart⟩
      | list text => exact Written.means hx le_rfl hx' fun part hpart => hlists part hpart
    cases hnegated : field.negated with
    | true =>
      rw [hnegated, if_pos rfl] at he
      subst he
      obtain _ | _ | ⟨hinner, hmixed⟩ := hexpressible
      exact (hvalue hinner).not (.not hinner hmixed)
    | false =>
      rw [hnegated, if_neg (by decide)] at he
      subst he
      exact hvalue hexpressible

end Parts

def addressesOf (network : IpNetwork) : Set IpAddr := {address | network.contains address = true}

def portsOf (range : UInt16 × UInt16) : Set UInt16 := {port | range.1 ≤ port ∧ port ≤ range.2}

theorem AddressSet.contains_ofFlat (s : Flat IpNetwork) (address : IpAddr) :
    (AddressSet.ofFlat s).contains address = true ↔ address ∈ s.toSet addressesOf :=
  Flat.mem_toSet (fun _ => Iff.rfl) s

theorem PortSet.contains_ofFlat (s : Flat (UInt16 × UInt16)) (port : UInt16) :
    (PortSet.ofFlat s).contains port = true ↔ port ∈ s.toSet portsOf :=
  Flat.mem_toSet (fun range => by simp [portsOf]) s

namespace VarTable

variable (vars : VarTable)

/-- If the field resolves, its set has the addresses in it that it denotes. -/
def AddressesMean (spec : AddressSpec) : Prop :=
  ∀ set, vars.resolveAddresses spec = .ok set →
    ∀ e, spec.field.Written vars.addressGrammar maxVarDepth e →
    ∀ address, set.contains address = true ↔ address ∈ e.denote addressesOf

def PortsMean (spec : PortSpec) : Prop :=
  ∀ set, vars.resolvePorts spec = .ok set → ∀ e, spec.field.Written vars.portGrammar maxVarDepth e →
    ∀ port, set.contains port = true ↔ port ∈ e.denote portsOf

variable {vars}

theorem addressesMean_iff {spec : AddressSpec} :
    vars.AddressesMean spec ↔ spec.field.Means vars.addressGrammar addressesOf := by
  constructor
  · intro h s hs e he address
    rw [← AddressSet.contains_ofFlat]
    exact h _ (map_eq_ok.2 ⟨s, hs, rfl⟩) e he address
  · intro h set hset e he address
    obtain ⟨s, hs, rfl⟩ := map_eq_ok.1 hset
    rw [AddressSet.contains_ofFlat]
    exact h s hs e he address

theorem portsMean_iff {spec : PortSpec} :
    vars.PortsMean spec ↔ spec.field.Means vars.portGrammar portsOf := by
  constructor
  · intro h s hs e he port
    rw [← PortSet.contains_ofFlat]
    exact h _ (map_eq_ok.2 ⟨s, hs, rfl⟩) e he port
  · intro h set hset e he port
    obtain ⟨s, hs, rfl⟩ := map_eq_ok.1 hset
    rw [PortSet.contains_ofFlat]
    exact h s hs e he port

theorem addressesMean_list {part : Text} :
    vars.AddressesMean { value := .list (String.ofList part) } ↔
      (listField part).Means vars.addressGrammar addressesOf := by
  have hpart : (String.ofList part).toList = part := String.toList_ofList
  rw [addressesMean_iff, means_iff, means_iff]
  simp only [HeaderField.Written, AddressSpec.field, AddressValue.toValue, hpart, listField]
  exact Iff.rfl

theorem portsMean_list {part : Text} :
    vars.PortsMean { value := .list (String.ofList part) } ↔
      (listField part).Means vars.portGrammar portsOf := by
  have hpart : (String.ofList part).toList = part := String.toList_ofList
  rw [portsMean_iff, means_iff, means_iff]
  simp only [HeaderField.Written, PortSpec.field, PortValue.toValue, hpart, listField]
  exact Iff.rfl

end VarTable

/-- Lists in their brackets are read as their elements; and a field and every expression in it mean
what they denote exactly if, in every list in it, the elements put together are what the list
denotes. -/
theorem resolved_sets_mean_iff (vars : VarTable) :
    (∀ pieces : List Text, pieces ≠ [] → (∀ piece ∈ pieces, Bracketed false piece) →
      form ('[' :: ([','].intercalate pieces ++ [']'])) =
        .list ((pieces.map trim).filter (· ≠ []))) ∧
    (∀ spec : AddressSpec,
      (vars.AddressesMean spec ∧ ∀ part, spec.field.value.HasPart vars.addressGrammar part →
        vars.AddressesMean { value := .list (String.ofList part) }) ↔
      ∀ part, spec.field.value.HasPart vars.addressGrammar part →
        ListKeeps vars.addressGrammar addressesOf part) ∧
    ∀ spec : PortSpec,
      (vars.PortsMean spec ∧ ∀ part, spec.field.value.HasPart vars.portGrammar part →
        vars.PortsMean { value := .list (String.ofList part) }) ↔
      ∀ part, spec.field.value.HasPart vars.portGrammar part →
        ListKeeps vars.portGrammar portsOf part := by
  refine ⟨fun pieces => form_list, fun spec => ?_, fun spec => ?_⟩
  · simp only [VarTable.addressesMean_list]
    rw [VarTable.addressesMean_iff]
    exact field_means_iff spec.field
  · simp only [VarTable.portsMean_list]
    rw [VarTable.portsMean_iff]
    exact field_means_iff spec.field

def noVars : VarTable := ⟨∅, ∅⟩

def tenNetwork : IpNetwork := ⟨.v4 0x0a000000, 8, by decide, by decide⟩

def tenOneNetwork : IpNetwork := ⟨.v4 0x0a010000, 16, by decide, by decide⟩

def tenExceptOne : Text := "[10.0.0.0/8,!10.1.0.0/16]".toList

/-- A list of a network without a part of it has every other address in it. -/
theorem exclusion_widens_list :
    parseAddress tenExceptOne = .ok { value := .list (String.ofList tenExceptOne) } ∧
      ¬noVars.AddressesMean { value := .list (String.ofList tenExceptOne) } := by
  refine ⟨by decide +kernel, fun hmeans => ?_⟩
  have hpart : (String.ofList tenExceptOne).toList = tenExceptOne := String.toList_ofList
  have hliteral {network : IpNetwork} {text : Text} (hform : form text = .literal text)
      (hnetwork : VarTable.network text = .ok network) :
      Written noVars.addressGrammar maxVarDepth text (.leaf network) := .literal hform hnetwork
  have hten : Written noVars.addressGrammar maxVarDepth "10.0.0.0/8".toList (.leaf tenNetwork) :=
    hliteral (by decide +kernel) (by decide +kernel)
  have hone : Written noVars.addressGrammar maxVarDepth "!10.1.0.0/16".toList
      (.not (.leaf tenOneNetwork)) :=
    .not (show form "!10.1.0.0/16".toList = .not "10.1.0.0/16".toList by decide +kernel)
      (hliteral (by decide +kernel) (by decide +kernel))
  have hform : form tenExceptOne = .list ["10.0.0.0/8".toList, "!10.1.0.0/16".toList] := by
    decide +kernel
  have hlist : Written noVars.addressGrammar maxVarDepth tenExceptOne
      (.list [.leaf tenNetwork, .not (.leaf tenOneNetwork)]) := by
    refine .list hform rfl ?_
    simpa using ⟨hten, hone⟩
  have hresolve : noVars.resolveAddresses { value := .list (String.ofList tenExceptOne) } =
      .ok ⟨true, [tenNetwork], [tenOneNetwork]⟩ := by decide +kernel
  have hmem := (hmeans _ hresolve _ ⟨_, by
    rw [AddressSpec.field, AddressValue.toValue, hpart]; exact hlist, rfl⟩
    (.v4 0x0b000001)).1 (by decide)
  obtain ⟨hplain | hall, _⟩ := (Expr.mem_denote_list addressesOf).1 hmem
  · obtain ⟨e, he, hnot, hin⟩ := hplain
    simp only [List.mem_cons, List.not_mem_nil, or_false] at he
    rcases he with rfl | rfl
    · rw [Expr.denote_leaf, addressesOf, Set.mem_ofPred_eq] at hin
      exact absurd hin (by decide)
    · exact hnot (Expr.isNot_not _)
  · exact Expr.not_isNot_leaf _ (hall _ List.mem_cons_self)

end CyberSentinel.Detect
