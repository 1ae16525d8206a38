import CyberSentinel.Networks
import CyberSentinel.RuleParser
import CyberSentinel.SetExpressions
import CyberSentinel.Vars
import Mathlib.Data.List.AList

/-!
# Variables

The address and port expressions of rule headers and of the configuration, which may name variables
that stand for further expressions. An expression is resolved by its form: a negation, a list,
`any`, a variable or a literal. The text gets shorter until a variable is followed, and a variable
is followed at most sixteen times, so that resolution comes to an end (`expression_finishes`).
-/

namespace CyberSentinel

open Texts Numerals
open Evtx (trim parseU16)

namespace Detect

open Rules SetExpr

def stripBrackets (text : Text) : Option Text :=
  match text with
  | '[' :: rest => if rest.getLast? = some ']' then some rest.dropLast else none
  | _ => none

/-- Read on in an element of which `current` has been read, inside of so many brackets. -/
def splitFrom (depth : ℕ) (current : Text) : Text → List Text
  | [] => [current]
  | c :: rest =>
    if c = '[' then splitFrom (depth + 1) (current ++ [c]) rest
    else if c = ']' then splitFrom (depth - 1) (current ++ [c]) rest
    else if c = ',' ∧ depth = 0 then current :: splitFrom 0 [] rest
    else splitFrom depth (current ++ [c]) rest

/-- The elements between the commas that are not inside of brackets. -/
def splitTopLevel (text : Text) : List Text := ((splitFrom 0 [] text).map trim).filter (· ≠ [])

inductive Form
  | not (rest : Text)
  | list (elements : List Text)
  | any
  | var (name : Text)
  | literal (text : Text)
  deriving DecidableEq

/-- How an expression is written, as the configuration and the lists of headers have them. -/
def form (text : Text) : Form :=
  match trim text with
  | '!' :: rest => .not rest
  | text =>
    match stripBrackets text with
    | some inner => .list (splitTopLevel inner)
    | none =>
      if lowercase text = "any".toList then .any
      else
        match text with
        | '$' :: name => .var name
        | text => .literal text

/-- What the expressions of a kind are made of: the variables of a table, none with a text longer
than `bound`, and literals. -/
structure Grammar (ι : Type) where
  table : Text → Option Text
  bound : ℕ
  length_le : ∀ {name text}, table name = some text → text.length ≤ bound
  literal : Text → Except VarError ι

def maxVarDepth : ℕ := 16

section Resolve

variable {ι : Type} (g : Grammar ι)

/-- Go on with the text of a variable. Without an error, the fuel has run out. -/
def followVar (next : Text → ℕ → Except (Option VarError) (Flat ι)) (name : Text) (depth : ℕ) :
    Except (Option VarError) (Flat ι) :=
  if maxVarDepth ≤ depth then .error (some (.tooDeep (String.ofList name)))
  else
    match g.table name with
    | none => .error (some (.undefined (String.ofList name)))
    | some text => next text (depth + 1)

def negateOr (description : Text) (s : Flat ι) : Except (Option VarError) (Flat ι) :=
  s.negate.elim (.error (some (.unsupportedNegation (String.ofList description)))) .ok

def expression : (fuel : ℕ) → Text → (depth : ℕ) → Except (Option VarError) (Flat ι)
  | 0, _, _ => .error none
  | fuel + 1, text, depth =>
    match form text with
    | .not rest => expression fuel rest depth >>= negateOr (trim rest)
    | .list elements =>
      elements.foldlM (fun combined element =>
        (expression fuel element depth).map combined.merge) {}
    | .any => .ok .everything
    | .var name => followVar g (expression fuel) name depth
    | .literal text => ((g.literal text).mapError some).map .single

end Resolve

theorem length_trim_le (text : Text) : (trim text).length ≤ text.length :=
  (Blanks.strip_infix text).length_le

theorem length_of_mem_splitFrom {depth : ℕ} {current text piece : Text}
    (h : piece ∈ splitFrom depth current text) : piece.length ≤ current.length + text.length := by
  induction text generalizing depth current with
  | nil =>
    rw [splitFrom, List.mem_singleton] at h
    rw [h, List.length_nil, add_zero]
  | cons c rest ih =>
    rw [splitFrom] at h
    rw [List.length_cons]
    have hread {d : ℕ} (h : piece ∈ splitFrom d (current ++ [c]) rest) :
        piece.length ≤ current.length + (rest.length + 1) := by
      have hle := ih h
      rw [List.length_append, List.length_singleton] at hle
      omega
    split_ifs at h with hopen hclose hcomma
    · exact hread h
    · exact hread h
    · rcases List.mem_cons.1 h with rfl | h
      · omega
      · have hle := ih h
        rw [List.length_nil] at hle
        omega
    · exact hread h

theorem length_of_mem_splitTopLevel {text element : Text} (h : element ∈ splitTopLevel text) :
    element.length ≤ text.length := by
  obtain ⟨piece, hpiece, rfl⟩ := List.mem_map.1 (List.mem_of_mem_filter h)
  have hle := length_of_mem_splitFrom hpiece
  rw [List.length_nil, zero_add] at hle
  exact (length_trim_le piece).trans hle

theorem length_stripBrackets {text inner : Text} (h : stripBrackets text = some inner) :
    inner.length + 2 = text.length := by
  rw [stripBrackets.eq_def] at h
  split at h
  · rename_i rest
    split_ifs at h with hlast
    obtain ⟨front, rfl⟩ := List.getLast?_eq_some_iff.1 hlast
    rw [List.dropLast_concat, Option.some.injEq] at h
    rw [← h]
    simp
  · cases h

theorem length_of_form_not {text rest : Text} (h : form text = .not rest) :
    rest.length < text.length := by
  have hle := length_trim_le text
  rw [form] at h
  split at h
  · rename_i rest' htrim
    rw [htrim, List.length_cons] at hle
    rw [← Form.not.inj h]
    omega
  · split at h
    · cases h
    · split_ifs at h
      split at h <;> cases h

theorem length_of_form_list {text : Text} {elements : List Text} (h : form text = .list elements) :
    ∀ element ∈ elements, element.length < text.length := by
  intro element hmem
  have hle := length_trim_le text
  rw [form] at h
  split at h
  · cases h
  · split at h
    · rename_i inner hinner
      rw [← Form.list.inj h] at hmem
      have hinner := length_stripBrackets hinner
      have helement := length_of_mem_splitTopLevel hmem
      omega
    · split_ifs at h
      split at h <;> cases h

section Resolve

variable {ι : Type} (g : Grammar ι)

def fuelFor (length depth : ℕ) : ℕ := length + (maxVarDepth - depth) * (g.bound + 1) + 1

theorem fuelFor_var {depth : ℕ} (h : depth < maxVarDepth) {name text : Text}
    (htable : g.table name = some text)
    (length : ℕ) : fuelFor g text.length (depth + 1) < fuelFor g length depth := by
  have hle := g.length_le htable
  have hdepth : maxVarDepth - depth = maxVarDepth - (depth + 1) + 1 := by omega
  rw [fuelFor, fuelFor, hdepth, Nat.succ_mul]
  omega

variable {g}

theorem followVar_finishes {next : Text → ℕ → Except (Option VarError) (Flat ι)}
    {name : Text} {depth : ℕ}
    (h : depth < maxVarDepth → ∀ text, g.table name = some text →
    next text (depth + 1) ≠ .error none) :
    followVar g next name depth ≠ .error none := by
  rw [followVar]
  split_ifs with hdepth
  · simp
  · split
    · simp
    · rename_i text htable
      exact h (not_le.1 hdepth) text htable

theorem foldlM_finishes {f : Text → Except (Option VarError) (Flat ι)} {elements : List Text}
    (h : ∀ element ∈ elements, f element ≠ .error none) (combined : Flat ι) :
    elements.foldlM (fun combined element => (f element).map combined.merge) combined ≠
      .error none := by
  induction elements generalizing combined with
  | nil => exact fun hnone => nomatch hnone
  | cons element elements ih =>
    rw [List.foldlM_cons]
    cases hf : f element with
    | error e =>
      intro hnone
      obtain rfl : e = none := Except.error.inj hnone
      exact h element List.mem_cons_self hf
    | ok part => exact ih (fun e he => h e (List.mem_cons_of_mem _ he)) _

theorem expression_finishes {fuel : ℕ} {text : Text} {depth : ℕ}
    (h : fuelFor g text.length depth ≤ fuel) :
    expression g fuel text depth ≠ .error none := by
  induction fuel generalizing text depth with
  | zero => simp [fuelFor] at h
  | succ fuel ih =>
    rw [expression]
    split
    · rename_i rest hform
      have hrest := length_of_form_not hform
      have hfinish : expression g fuel rest depth ≠ .error none :=
        ih (by simp only [fuelFor] at h ⊢; omega)
      cases hexpression : expression g fuel rest depth with
      | error e =>
        intro hnone
        obtain rfl : e = none := Except.error.inj hnone
        exact hfinish hexpression
      | ok s =>
        show negateOr (trim rest) s ≠ _
        rw [negateOr]
        cases s.negate <;> simp
    · rename_i elements hform
      refine foldlM_finishes (fun element helement => ih ?_) _
      have helement := length_of_form_list hform element helement
      simp only [fuelFor] at h ⊢
      omega
    · simp
    · rename_i name hform
      refine followVar_finishes fun hdepth target htable => ih ?_
      have hlt := fuelFor_var g hdepth htable text.length
      omega
    · rename_i text' hform
      cases g.literal text' <;> simp [Except.mapError, Except.map]

end Resolve

inductive HeaderValue (ι : Type)
  | any
  | literal (i : Except VarError ι)
  | var (name : Text)
  | list (text : Text)

/-- A field with its value, and how the value is shown in an error. -/
structure HeaderField (ι : Type) where
  negated : Bool
  value : HeaderValue ι
  shown : Text

section Fields

variable {ι : Type} (g : Grammar ι)

def resolveValue (fuel : ℕ) : HeaderValue ι → (depth : ℕ) → Except (Option VarError) (Flat ι)
  | .any, _ => .ok .everything
  | .literal i, _ => (i.mapError some).map .single
  | .var name, depth => followVar g (expression g fuel) name depth
  | .list text, depth => expression g fuel text depth

def resolveField (fuel : ℕ) (field : HeaderField ι) : Except (Option VarError) (Flat ι) :=
  resolveValue g fuel field.value 0 >>= fun s =>
    if field.negated then negateOr field.shown s else .ok s

def HeaderValue.length : HeaderValue ι → ℕ
  | .list text => text.length
  | _ => 0

variable {g}

theorem resolveField_finishes {fuel : ℕ} {field : HeaderField ι}
    (h : fuelFor g field.value.length 0 ≤ fuel) :
    resolveField g fuel field ≠ .error none := by
  have hvalue : resolveValue g fuel field.value 0 ≠ .error none := by
    cases hkind : field.value with
    | any => simp [resolveValue]
    | literal i => cases i <;> simp [resolveValue, Except.mapError, Except.map]
    | var name =>
      refine followVar_finishes fun hdepth text htable => expression_finishes ?_
      have hlt := fuelFor_var g hdepth htable field.value.length
      omega
    | list text =>
      rw [hkind] at h
      exact expression_finishes h
  rw [resolveField]
  cases hresult : resolveValue g fuel field.value 0 with
  | error e =>
    intro hnone
    obtain rfl : e = none := Except.error.inj hnone
    exact hvalue hresult
  | ok s =>
    show (if field.negated then negateOr field.shown s else .ok s) ≠ _
    split_ifs
    · rw [negateOr]
      cases s.negate <;> simp
    · simp

end Fields

def settle {ε α : Type} : (result : Except (Option ε) α) → result ≠ .error none → Except ε α
  | .ok a, _ => .ok a
  | .error (some e), _ => .error e
  | .error none, h => absurd rfl h

theorem mapError_settle {ε α : Type} (result : Except (Option ε) α) (h : result ≠ .error none) :
    (settle result h).mapError some = result := by
  match result, h with
  | .ok a, _ => rfl
  | .error (some e), _ => rfl
  | .error none, h => exact absurd rfl h

def HeaderField.resolve {ι : Type} (g : Grammar ι) (field : HeaderField ι) :
    Except VarError (Flat ι) :=
  settle (resolveField g (fuelFor g field.value.length 0) field) (resolveField_finishes le_rfl)

structure VarTable where
  addresses : AList (fun _ : String => String)
  ports : AList (fun _ : String => String)

namespace VarTable

theorem length_le_sum {table : AList (fun _ : String => String)} {name text : Text}
    (h : (table.lookup (String.ofList name)).map String.toList = some text) :
    text.length ≤ (table.entries.map fun entry => entry.2.toList.length).sum := by
  obtain ⟨value, hvalue, rfl⟩ := Option.map_eq_some_iff.1 h
  exact List.le_sum_of_mem (List.mem_map_of_mem (AList.mem_lookup_iff.1 hvalue))

def grammar {ι : Type} (table : AList (fun _ : String => String))
    (literal : Text → Except VarError ι) :
    Grammar ι where
  table name := (table.lookup (String.ofList name)).map String.toList
  bound := (table.entries.map fun entry => entry.2.toList.length).sum
  length_le := length_le_sum
  literal

def network (text : Text) : Except VarError IpNetwork :=
  match IpNetwork.parse text with
  | some network => .ok network
  | none => .error (.malformed (String.ofList text))

def parsePortOr (text : Text) (emptyDefault : UInt16) : Except VarError UInt16 :=
  if trim text = [] then .ok emptyDefault
  else
    match parseU16 (trim text) with
    | some port => .ok port
    | none => .error (.malformed (String.ofList (trim text)))

def portLiteral (text : Text) : Except VarError (UInt16 × UInt16) :=
  match splitOnce ':' text with
  | some (low, high) =>
    parsePortOr low 0 >>= fun low => (parsePortOr high 65535).map fun high => (low, high)
  | none => (parsePortOr text 0).map fun port => (port, port)

variable (vars : VarTable)

def addressGrammar : Grammar IpNetwork := grammar vars.addresses network

def portGrammar : Grammar (UInt16 × UInt16) := grammar vars.ports portLiteral

end VarTable

end Detect

namespace Rules

open Detect

def AddressValue.toValue : AddressValue → HeaderValue IpNetwork
  | .any => .any
  | .literal text => .literal (VarTable.network text.toList)
  | .var name => .var name.toList
  | .list text => .list text.toList

def AddressValue.shown : AddressValue → String
  | .any => "Any"
  | .literal text => "Literal(" ++ text.quote ++ ")"
  | .var name => "Var(" ++ name.quote ++ ")"
  | .list text => "List(" ++ text.quote ++ ")"

def AddressSpec.field (spec : AddressSpec) : HeaderField IpNetwork :=
  ⟨spec.negated, spec.value.toValue, spec.value.shown.toList⟩

def PortValue.toValue : PortValue → HeaderValue (UInt16 × UInt16)
  | .any => .any
  | .single port => .literal (.ok (port, port))
  | .range low high => .literal (.ok (low.getD 0, high.getD 65535))
  | .var name => .var name.toList
  | .list text => .list text.toList

def PortValue.shown : PortValue → String
  | .any => "Any"
  | .single port => "Single(" ++ toString port ++ ")"
  | .range low high => "Range(" ++ bound low ++ ", " ++ bound high ++ ")"
  | .var name => "Var(" ++ name.quote ++ ")"
  | .list text => "List(" ++ text.quote ++ ")"
where
  bound (port : Option UInt16) : String := port.elim "None" fun port =>
  "Some(" ++ toString port ++ ")"

def PortSpec.field (spec : PortSpec) : HeaderField (UInt16 × UInt16) :=
  ⟨spec.negated, spec.value.toValue, spec.value.shown.toList⟩

end Rules

namespace Detect

open Rules SetExpr

def AddressSet.ofFlat (s : Flat IpNetwork) : AddressSet := ⟨s.any, s.included, s.excluded⟩

def PortSet.ofFlat (s : Flat (UInt16 × UInt16)) : PortSet := ⟨s.any, s.included, s.excluded⟩

namespace VarTable

variable (vars : VarTable)

def resolveAddresses (spec : AddressSpec) : Except VarError AddressSet :=
  (spec.field.resolve vars.addressGrammar).map AddressSet.ofFlat

def resolvePorts (spec : PortSpec) : Except VarError PortSet :=
  (spec.field.resolve vars.portGrammar).map PortSet.ofFlat

end VarTable

def CompiledHeader.resolve (vars : VarTable) : HeaderResolver := fun header => do
  let source ← vars.resolveAddresses header.source
  let sourcePorts ← vars.resolvePorts header.sourcePort
  let destination ← vars.resolveAddresses header.destination
  let destinationPorts ← vars.resolvePorts header.destinationPort
  return { protocol := header.protocol, source, sourcePorts, destination, destinationPorts,
           bidirectional := header.direction == .bidirectional }

end Detect

end CyberSentinel
