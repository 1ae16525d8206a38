import CyberSentinel.Drafts
import CyberSentinel.VarTable
import Mathlib.Logic.Relation

/-!
# What resolves

Which expression a text is written for, its variables replaced by what they stand for, and within
how many variables of each other. A text resolves exactly if it is written for an expression within
the limit that has a flat form, and to that form (`resolve_eq_ok_iff`). So every variable behind it
is defined and none leads back to itself.
-/

namespace CyberSentinel.Detect

open Rules SetExpr Texts

variable {ι : Type}

theorem foldlM_congr {f f' : Text → Except (Option VarError) (Flat ι)} {elements : List Text}
    (h : ∀ element ∈ elements, f element = f' element) (combined : Flat ι) :
    elements.foldlM (fun combined element => (f element).map combined.merge) combined =
      elements.foldlM (fun combined element => (f' element).map combined.merge) combined := by
  induction elements generalizing combined with
  | nil => rfl
  | cons element elements ih =>
    rw [List.foldlM_cons, List.foldlM_cons, h element List.mem_cons_self]
    exact bind_congr fun _ => ih (fun e he => h e (List.mem_cons_of_mem _ he)) _

theorem followVar_congr {g : Grammar ι} {next next' : Text → ℕ → Except (Option VarError) (Flat ι)}
    {name : Text} {depth : ℕ}
    (h : depth < maxVarDepth → ∀ text, g.table name = some text →
    next text (depth + 1) = next' text (depth + 1)) :
    followVar g next name depth = followVar g next' name depth := by
  rw [followVar, followVar]
  split_ifs with hdepth
  · rfl
  · cases htable : g.table name with
    | none => rfl
    | some text => exact h (not_le.1 hdepth) text htable

theorem expression_fuel {g : Grammar ι} {fuel fuel' : ℕ} {text : Text} {depth : ℕ}
    (h : fuelFor g text.length depth ≤ fuel) (h' : fuelFor g text.length depth ≤ fuel') :
    expression g fuel text depth = expression g fuel' text depth := by
  induction fuel generalizing fuel' text depth with
  | zero => simp [fuelFor] at h
  | succ fuel ih =>
    obtain ⟨fuel', rfl⟩ : ∃ n, fuel' = n + 1 :=
      Nat.exists_eq_succ_of_ne_zero (by simp [fuelFor] at h'; omega)
    rw [expression, expression]
    cases hform : form text with
    | not rest =>
      have hrest := length_of_form_not hform
      have hsame : expression g fuel rest depth = expression g fuel' rest depth :=
        ih (by simp only [fuelFor] at h ⊢; omega) (by simp only [fuelFor] at h' ⊢; omega)
      simp only [hsame]
    | list elements =>
      refine foldlM_congr (fun element helement => ?_) _
      have hlength := length_of_form_list hform element helement
      exact ih (by simp only [fuelFor] at h ⊢; omega) (by simp only [fuelFor] at h' ⊢; omega)
    | any => rfl
    | var name =>
      refine followVar_congr fun hdepth target htable => ?_
      have hlt := fuelFor_var g hdepth htable text.length
      exact ih (by omega) (by omega)
    | literal text' => rfl

theorem resolveField_fuel {g : Grammar ι} {fuel : ℕ} {field : HeaderField ι}
    (h : fuelFor g field.value.length 0 ≤ fuel) :
    resolveField g fuel field = (field.resolve g).mapError some := by
  have hvalue : resolveValue g fuel field.value 0 =
      resolveValue g (fuelFor g field.value.length 0) field.value 0 := by
    cases hkind : field.value with
    | any => rfl
    | literal i => rfl
    | var name =>
      rw [hkind] at h
      refine followVar_congr fun hdepth text htable => ?_
      have hlt := fuelFor_var g hdepth htable (HeaderValue.var (ι := ι) name).length
      exact expression_fuel (by omega) (by omega)
    | list text =>
      rw [hkind] at h
      exact expression_fuel h le_rfl
  rw [HeaderField.resolve, mapError_settle, resolveField, resolveField, hvalue]

section Zip

variable {α β : Type*} {l : List α} {l' : List β}

theorem exists_zip_of_mem_left (h : l.length = l'.length) {a : α} (ha : a ∈ l) :
    ∃ b ∈ l', (a, b) ∈ l.zip l' := by
  obtain ⟨i, hi, rfl⟩ := List.getElem_of_mem ha
  have hi' : i < l'.length := h ▸ hi
  refine ⟨l'[i], List.getElem_mem hi', ?_⟩
  rw [← List.getElem_zip (h := by simp [hi, hi'])]
  exact List.getElem_mem _

theorem exists_zip_of_mem_right (h : l.length = l'.length) {b : β} (hb : b ∈ l') :
    ∃ a ∈ l, (a, b) ∈ l.zip l' := by
  obtain ⟨i, hi, rfl⟩ := List.getElem_of_mem hb
  have hi' : i < l.length := h ▸ hi
  refine ⟨l[i], List.getElem_mem hi', ?_⟩
  rw [← List.getElem_zip (h := by simp [hi, hi'])]
  exact List.getElem_mem _

end Zip

/-- The text is written for the expression, with no more than so many variables inside of each
other. -/
inductive Written (g : Grammar ι) : (hops : ℕ) → Text → Expr ι → Prop
  | not {hops : ℕ} {text rest : Text} {e : Expr ι} : form text = .not rest → Written g hops rest e →
      Written g hops text (.not e)
  | list {hops : ℕ} {text : Text} {elements : List Text} {es : List (Expr ι)} : form text =
    .list elements →
      elements.length = es.length → (∀ p ∈ elements.zip es, Written g hops p.1 p.2) →
      Written g hops text (.list es)
  | any {hops : ℕ} {text : Text} : form text = .any → Written g hops text .any
  | var {hops : ℕ} {text name target : Text} {e : Expr ι} : form text = .var name →
      g.table name = some target → Written g hops target e → Written g (hops + 1) text e
  | literal {hops : ℕ} {text written : Text} {i : ι} : form text = .literal written →
      g.literal written = .ok i → Written g hops text (.leaf i)

theorem written_iff {g : Grammar ι} {hops : ℕ} {text : Text} {e : Expr ι} :
    Written g hops text e ↔
      match form text with
      | .not rest => ∃ x, e = .not x ∧ Written g hops rest x
      | .list elements => ∃ es, e = .list es ∧ elements.length = es.length ∧
          ∀ p ∈ elements.zip es, Written g hops p.1 p.2
      | .any => e = .any
      | .var name => ∃ n target, hops = n + 1 ∧ g.table name = some target ∧ Written g n target e
      | .literal written => ∃ i, e = .leaf i ∧ g.literal written = .ok i := by
  constructor
  · intro h
    cases h with
    | not hform h => simpa only [hform] using ⟨_, rfl, h⟩
    | list hform hlength h => simpa only [hform] using ⟨_, rfl, hlength, h⟩
    | any hform => simp only [hform]
    | var hform htable h => simpa only [hform] using ⟨_, _, rfl, htable, h⟩
    | literal hform hliteral => simpa only [hform] using ⟨_, rfl, hliteral⟩
  · intro h
    cases hform : form text with
    | not rest =>
      simp only [hform] at h
      obtain ⟨x, rfl, h⟩ := h
      exact .not hform h
    | list elements =>
      simp only [hform] at h
      obtain ⟨es, rfl, hlength, h⟩ := h
      exact .list hform hlength h
    | any =>
      simp only [hform] at h
      exact h ▸ .any hform
    | var name =>
      simp only [hform] at h
      obtain ⟨n, target, rfl, htable, h⟩ := h
      exact .var hform htable h
    | literal written =>
      simp only [hform] at h
      obtain ⟨i, rfl, h⟩ := h
      exact .literal hform h

theorem Written.unique {g : Grammar ι} {hops hops' : ℕ} {text : Text} {e e' : Expr ι}
    (h : Written g hops text e) (h' : Written g hops' text e') : e = e' := by
  induction h generalizing hops' e' with
  | not hform _ ih =>
    rw [written_iff, hform] at h'
    obtain ⟨x, rfl, h'⟩ := h'
    rw [ih h']
  | @list hops text elements es hform hlength _ ih =>
    rw [written_iff, hform] at h'
    obtain ⟨es', rfl, hlength', h'⟩ := h'
    congr 1
    refine List.ext_getElem (hlength.symm.trans hlength') fun i hi hi' => ?_
    have hi₀ : i < elements.length := hlength ▸ hi
    have hmem : (elements[i], es[i]) ∈ elements.zip es := by
      rw [← List.getElem_zip (h := by simp [hi₀, hi])]
      exact List.getElem_mem _
    have hmem' : (elements[i], es'[i]) ∈ elements.zip es' := by
      rw [← List.getElem_zip (h := by simp [hi₀, hi'])]
      exact List.getElem_mem _
    exact ih _ hmem (h' _ hmem')
  | any hform =>
    rw [written_iff, hform] at h'
    exact h'.symm
  | var hform htable _ ih =>
    rw [written_iff, hform] at h'
    obtain ⟨n, target, rfl, htable', h'⟩ := h'
    rw [htable, Option.some.injEq] at htable'
    subst htable'
    exact ih h'
  | literal hform hliteral =>
    rw [written_iff, hform] at h'
    obtain ⟨i, rfl, hliteral'⟩ := h'
    rw [hliteral, Except.ok.injEq] at hliteral'
    rw [hliteral']

theorem negateOr_eq_ok {description : Text} {e : Expr ι} (h : e.Expressible) {s : Flat ι} :
    negateOr description e.flat = .ok s ↔ (Expr.not e).Expressible ∧ s = (Expr.not e).flat := by
  rw [← Expr.negate_flat h, negateOr]
  cases e.flat.negate <;> simp

theorem foldlM_eq_ok {f : Text → Except (Option VarError) (Flat ι)} {P : Text → Expr ι → Prop}
    {elements : List Text}
    (h : ∀ element ∈ elements, ∀ s, f element = .ok s →
    ∃ e, P element e ∧ e.Expressible ∧ s = e.flat)
    {combined s : Flat ι}
    (hfold : elements.foldlM (fun combined element =>
    (f element).map combined.merge) combined = .ok s) :
    ∃ es, elements.length = es.length ∧ (∀ p ∈ elements.zip es, P p.1 p.2) ∧
      (∀ e ∈ es, e.Expressible) ∧
      s = combined.merge (Expr.list es).flat := by
  induction elements generalizing combined with
  | nil =>
    refine ⟨[], rfl, by simp, by simp, ?_⟩
    rw [Expr.flat_list_nil, Flat.merge_empty]
    exact (Except.ok.inj hfold).symm
  | cons element elements ih =>
    rw [List.foldlM_cons, bind_eq_ok] at hfold
    obtain ⟨next, hnext, hrest⟩ := hfold
    obtain ⟨part, hpart, rfl⟩ := map_eq_ok.1 hnext
    obtain ⟨e, he, hexpressible, rfl⟩ := h element List.mem_cons_self part hpart
    obtain ⟨es, hlength, hes, hall, rfl⟩ := ih (fun x hx => h x (List.mem_cons_of_mem _ hx)) hrest
    refine ⟨e :: es, by simp [hlength], ?_, ?_, ?_⟩
    · simpa [List.zip_cons_cons] using ⟨he, fun a b hab => hes (a, b) hab⟩
    · simpa using ⟨hexpressible, hall⟩
    · rw [Expr.flat_list_cons, Flat.merge_assoc]

theorem foldlM_of_flat {f : Text → Except (Option VarError) (Flat ι)} {elements : List Text}
    {es : List (Expr ι)} (hlength : elements.length = es.length)
    (h : ∀ p ∈ elements.zip es, f p.1 = .ok p.2.flat) (combined : Flat ι) :
    elements.foldlM (fun combined element => (f element).map combined.merge) combined =
      .ok (combined.merge (Expr.list es).flat) := by
  induction elements generalizing es combined with
  | nil =>
    obtain rfl := List.length_eq_zero_iff.1 hlength.symm
    rw [Expr.flat_list_nil, Flat.merge_empty]
    rfl
  | cons element elements ih =>
    obtain ⟨e, es, rfl⟩ := List.exists_cons_of_length_eq_add_one hlength.symm
    rw [List.zip_cons_cons] at h
    rw [List.foldlM_cons, h (element, e) List.mem_cons_self, map_ok, ok_bind,
      ih (Nat.succ.inj hlength) fun p hp => h p (List.mem_cons_of_mem _ hp), Expr.flat_list_cons,
      Flat.merge_assoc]

theorem followVar_eq_ok {g : Grammar ι} {next : Text → ℕ → Except (Option VarError) (Flat ι)}
    {name : Text}
    {depth : ℕ} {s : Flat ι} :
    followVar g next name depth = .ok s ↔
      depth < maxVarDepth ∧ ∃ text, g.table name = some text ∧ next text (depth + 1) = .ok s := by
  rw [followVar]
  split_ifs with hdepth
  · simp [hdepth]
  · cases g.table name with
    | none => simp
    | some text => simp [not_le.1 hdepth]

/-- What resolves is written for an expression that has a flat form. -/
theorem written_of_expression {g : Grammar ι} {fuel : ℕ} {text : Text} {depth : ℕ} {s : Flat ι}
    (h : expression g fuel text depth = .ok s) :
    ∃ e, Written g (maxVarDepth - depth) text e ∧ e.Expressible ∧ s = e.flat := by
  induction fuel generalizing text depth s with
  | zero => exact nomatch h
  | succ fuel ih =>
    rw [expression] at h
    cases hform : form text with
    | not rest =>
      simp only [hform, bind_eq_ok] at h
      obtain ⟨inner, hinner, hnegate⟩ := h
      obtain ⟨e, he, hexpressible, rfl⟩ := ih hinner
      obtain ⟨hnot, rfl⟩ := (negateOr_eq_ok hexpressible).1 hnegate
      exact ⟨.not e, .not hform he, hnot, rfl⟩
    | list elements =>
      simp only [hform] at h
      obtain ⟨es, hlength, hes, hall, rfl⟩ := foldlM_eq_ok (fun element _ s hs => ih hs) h
      exact ⟨.list es, .list hform hlength hes, .list hall, by rw [Flat.empty_merge]⟩
    | any =>
      simp only [hform] at h
      exact ⟨.any, .any hform, .any, (Except.ok.inj h).symm⟩
    | var name =>
      simp only [hform] at h
      obtain ⟨hdepth, target, htable, hnext⟩ := followVar_eq_ok.1 h
      obtain ⟨e, he, hexpressible, rfl⟩ := ih hnext
      have hhops : maxVarDepth - depth = maxVarDepth - (depth + 1) + 1 := by omega
      exact ⟨e, hhops ▸ .var hform htable he, hexpressible, rfl⟩
    | literal written =>
      simp only [hform] at h
      obtain ⟨i, hi, rfl⟩ := map_eq_ok.1 h
      refine ⟨.leaf i, .literal hform ?_, .leaf i, rfl⟩
      cases hliteral : g.literal written with
      | error e =>
        rw [hliteral] at hi
        cases hi
      | ok j =>
        rw [hliteral] at hi
        rw [Except.ok.inj hi]

theorem Written.expression {g : Grammar ι} {hops : ℕ} {text : Text} {e : Expr ι}
    (h : Written g hops text e)
    (hexpressible : e.Expressible) {fuel depth : ℕ} (hdepth : hops + depth ≤ maxVarDepth)
    (hfuel : fuelFor g text.length depth ≤ fuel) :
    Detect.expression g fuel text depth = .ok e.flat := by
  have hsucc {fuel length depth : ℕ} (h : fuelFor g length depth ≤ fuel) : ∃ n, fuel = n + 1 :=
    Nat.exists_eq_succ_of_ne_zero (by simp [fuelFor] at h; omega)
  induction h generalizing fuel depth with
  | @not hops text rest e hform _ ih =>
    obtain ⟨fuel, rfl⟩ := hsucc hfuel
    have hlength := length_of_form_not hform
    obtain _ | _ | ⟨hinner, hmixed⟩ := hexpressible
    have hrest : Detect.expression g fuel rest depth = .ok e.flat :=
      ih hinner hdepth (by simp only [fuelFor] at hfuel ⊢; omega)
    simp only [Detect.expression, hform, hrest, ok_bind]
    exact (negateOr_eq_ok hinner).2 ⟨.not hinner hmixed, rfl⟩
  | @list hops text elements es hform hlength _ ih =>
    obtain ⟨fuel, rfl⟩ := hsucc hfuel
    obtain _ | _ | _ | hall := hexpressible
    simp only [Detect.expression, hform]
    rw [foldlM_of_flat hlength, Flat.empty_merge]
    intro p hp
    have helement := length_of_form_list hform p.1 (List.of_mem_zip hp).1
    exact ih p hp (hall p.2 (List.of_mem_zip hp).2) hdepth
      (by simp only [fuelFor] at hfuel ⊢; omega)
  | any hform =>
    obtain ⟨fuel, rfl⟩ := hsucc hfuel
    simp only [Detect.expression, hform, Expr.flat_any]
  | @var hops text name target e hform htable _ ih =>
    obtain ⟨fuel, rfl⟩ := hsucc hfuel
    have hlt : depth < maxVarDepth := by omega
    have hless := fuelFor_var g hlt htable text.length
    simp only [Detect.expression, hform]
    exact followVar_eq_ok.2 ⟨hlt, target, htable, ih hexpressible (by omega) (by omega)⟩
  | literal hform hliteral =>
    obtain ⟨fuel, rfl⟩ := hsucc hfuel
    simp only [Detect.expression, hform, hliteral, Expr.flat_leaf]
    rfl

def HeaderValue.Written (g : Grammar ι) (hops : ℕ) : HeaderValue ι → Expr ι → Prop
  | .any, e => e = .any
  | .literal i, e => ∃ j, i = .ok j ∧ e = .leaf j
  | .var name, e =>
    ∃ n target, hops = n + 1 ∧ g.table name = some target ∧ Detect.Written g n target e
  | .list text, e => Detect.Written g hops text e

def HeaderField.Written (g : Grammar ι) (hops : ℕ) (field : HeaderField ι) (e : Expr ι) : Prop :=
  ∃ x, field.value.Written g hops x ∧ e = if field.negated then .not x else x

theorem resolveValue_eq_ok {g : Grammar ι} {value : HeaderValue ι} {s : Flat ι} :
    resolveValue g (fuelFor g value.length 0) value 0 = .ok s ↔
      ∃ e, value.Written g maxVarDepth e ∧ e.Expressible ∧ s = e.flat := by
  cases value with
  | any =>
    constructor
    · intro h
      exact ⟨.any, rfl, .any, (Except.ok.inj h).symm⟩
    · rintro ⟨_, rfl, _, rfl⟩
      rfl
  | literal i =>
    constructor
    · intro h
      obtain ⟨j, hj, rfl⟩ := map_eq_ok.1 h
      cases i with
      | error e => exact nomatch hj
      | ok i =>
        obtain rfl := Except.ok.inj hj
        exact ⟨.leaf i, ⟨i, rfl, rfl⟩, .leaf i, rfl⟩
    · rintro ⟨_, ⟨j, rfl, rfl⟩, _, rfl⟩
      rfl
  | var name =>
    have hfuel : ∀ {target}, g.table name = some target →
        fuelFor g target.length 1 ≤ fuelFor g (HeaderValue.var (ι := ι) name).length 0 :=
      fun htable => (fuelFor_var g (show 0 < maxVarDepth by decide) htable _).le
    rw [resolveValue, followVar_eq_ok]
    constructor
    · rintro ⟨_, target, htable, h⟩
      obtain ⟨e, he, hexpressible, rfl⟩ := written_of_expression h
      exact ⟨e, ⟨15, target, rfl, htable, he⟩, hexpressible, rfl⟩
    · rintro ⟨e, ⟨n, target, hn, htable, he⟩, hexpressible, rfl⟩
      obtain rfl : n = 15 := Nat.succ.inj hn.symm
      exact ⟨by decide, target, htable, he.expression hexpressible le_rfl (hfuel htable)⟩
  | list text =>
    constructor
    · intro h
      exact written_of_expression h
    · rintro ⟨e, he, hexpressible, rfl⟩
      exact Written.expression he hexpressible le_rfl le_rfl

/-- A field resolves exactly if it is written for an expression within the limit that has a flat
form, and to that form. -/
theorem resolve_eq_ok_iff {g : Grammar ι} {field : HeaderField ι} {s : Flat ι} :
    field.resolve g = .ok s ↔ ∃ e, field.Written g maxVarDepth e ∧ e.Expressible ∧ s = e.flat := by
  have hsettle : field.resolve g = .ok s ↔
      resolveField g (fuelFor g field.value.length 0) field = .ok s := by
    rw [resolveField_fuel le_rfl]
    cases field.resolve g <;> simp [Except.mapError]
  rw [hsettle, resolveField, bind_eq_ok]
  obtain ⟨negated, value, shown⟩ := field
  constructor
  · rintro ⟨inner, hinner, h⟩
    obtain ⟨x, hx, hexpressible, rfl⟩ := resolveValue_eq_ok.1 hinner
    cases negated with
    | true =>
      obtain ⟨hnot, rfl⟩ := (negateOr_eq_ok hexpressible).1 h
      exact ⟨.not x, ⟨x, hx, rfl⟩, hnot, rfl⟩
    | false => exact ⟨x, ⟨x, hx, rfl⟩, hexpressible, (Except.ok.inj h).symm⟩
  · rintro ⟨e, ⟨x, hx, rfl⟩, hexpressible, rfl⟩
    cases negated with
    | true =>
      obtain _ | _ | ⟨hinner, hmixed⟩ := hexpressible
      exact ⟨x.flat, resolveValue_eq_ok.2 ⟨x, hx, hinner, rfl⟩,
        (negateOr_eq_ok hinner).2 ⟨.not hinner hmixed, rfl⟩⟩
    | false => exact ⟨x.flat, resolveValue_eq_ok.2 ⟨x, hx, hexpressible, rfl⟩, rfl⟩

inductive Mentions : Text → Text → Prop
  | var {text name : Text} : form text = .var name → Mentions text name
  | not {text rest name : Text} : form text = .not rest → Mentions rest name → Mentions text name
  | list {text element name : Text} {elements : List Text} : form text = .list elements →
      element ∈ elements → Mentions element name → Mentions text name

def Refers (g : Grammar ι) (name name' : Text) : Prop :=
  ∃ text, g.table name = some text ∧ Mentions text name'

def HeaderValue.Mentions : HeaderValue ι → Text → Prop
  | .var name, name' => name = name'
  | .list text, name' => Detect.Mentions text name'
  | _, _ => False

def HeaderValue.Reaches (g : Grammar ι) (value : HeaderValue ι) (name : Text) : Prop :=
  ∃ first, value.Mentions first ∧ Relation.ReflTransGen (Refers g) first name

def Stands (g : Grammar ι) (hops : ℕ) (name : Text) : Prop :=
  ∃ target e, g.table name = some target ∧ Written g hops target e

theorem Written.stands {g : Grammar ι} {text name : Text} (hmentions : Mentions text name)
    {hops : ℕ} {e : Expr ι}
    (h : Written g hops text e) : ∃ n < hops, Stands g n name := by
  induction hmentions generalizing e with
  | var hform =>
    rw [written_iff, hform] at h
    obtain ⟨n, target, rfl, htable, h⟩ := h
    exact ⟨n, Nat.lt_succ_self n, target, e, htable, h⟩
  | not hform _ ih =>
    rw [written_iff, hform] at h
    obtain ⟨x, rfl, h⟩ := h
    exact ih h
  | @list text element name elements hform hmem _ ih =>
    rw [written_iff, hform] at h
    obtain ⟨es, rfl, hlength, h⟩ := h
    obtain ⟨e, _, hpair⟩ := exists_zip_of_mem_left hlength hmem
    exact ih (h _ hpair)

theorem Stands.refers {g : Grammar ι} {hops : ℕ} {name name' : Text} (h : Stands g hops name)
    (hrefers : Refers g name name') : ∃ n < hops, Stands g n name' := by
  obtain ⟨target, e, htable, hwritten⟩ := h
  obtain ⟨text, htext, hmentions⟩ := hrefers
  rw [htable, Option.some.injEq] at htext
  subst htext
  exact hwritten.stands hmentions

theorem Stands.reaches {g : Grammar ι} {hops : ℕ} {name name' : Text} (h : Stands g hops name)
    (hreaches : Relation.ReflTransGen (Refers g) name name') : ∃ n, Stands g n name' := by
  induction hreaches with
  | refl => exact ⟨hops, h⟩
  | tail _ hrefers ih =>
    obtain ⟨n, hn⟩ := ih
    obtain ⟨m, _, hm⟩ := hn.refers hrefers
    exact ⟨m, hm⟩

/-- On the way round a cycle there would be ever fewer variables left. -/
theorem Stands.not_cyclic {g : Grammar ι} {hops : ℕ} {name : Text} (h : Stands g hops name) :
    ¬Relation.TransGen (Refers g) name name := by
  induction hops using Nat.strong_induction_on generalizing name with
  | _ hops ih =>
    intro hcycle
    obtain ⟨next, hrefers, hback⟩ := Relation.TransGen.head'_iff.1 hcycle
    obtain ⟨n, hn, hnext⟩ := h.refers hrefers
    exact ih n hn hnext (Relation.TransGen.tail' hback hrefers)

theorem HeaderField.Written.stands {g : Grammar ι} {hops : ℕ} {field : HeaderField ι} {e : Expr ι}
    (h : field.Written g hops e) {name : Text} (hreaches : field.value.Reaches g name) :
    ∃ n, Stands g n name := by
  obtain ⟨x, hx, _⟩ := h
  obtain ⟨first, hmentions, hpath⟩ := hreaches
  have hfirst : ∃ n, Stands g n first := by
    cases hvalue : field.value with
    | any | literal i =>
      rw [hvalue] at hmentions
      exact absurd hmentions id
    | var name =>
      rw [hvalue] at hmentions hx
      obtain rfl : name = first := hmentions
      obtain ⟨n, target, _, htable, hx⟩ := hx
      exact ⟨n, target, x, htable, hx⟩
    | list text =>
      rw [hvalue] at hmentions hx
      obtain ⟨n, _, hn⟩ := Detect.Written.stands hmentions hx
      exact ⟨n, hn⟩
  obtain ⟨n, hn⟩ := hfirst
  exact hn.reaches hpath

theorem HeaderField.Written.unique {g : Grammar ι} {hops : ℕ} {field : HeaderField ι}
    {e e' : Expr ι}
    (h : field.Written g hops e) (h' : field.Written g hops e') : e = e' := by
  obtain ⟨x, hx, rfl⟩ := h
  obtain ⟨x', hx', rfl⟩ := h'
  have hsame : x = x' := by
    cases hvalue : field.value with
    | any =>
      rw [hvalue] at hx hx'
      exact Eq.trans hx (Eq.symm hx')
    | literal i =>
      rw [hvalue] at hx hx'
      obtain ⟨j, rfl, rfl⟩ := hx
      obtain ⟨j', hj', rfl⟩ := hx'
      rw [Except.ok.inj hj']
    | var name =>
      rw [hvalue] at hx hx'
      obtain ⟨n, target, _, htable, hx⟩ := hx
      obtain ⟨n', target', _, htable', hx'⟩ := hx'
      rw [htable, Option.some.injEq] at htable'
      subst htable'
      exact Detect.Written.unique hx hx'
    | list text =>
      rw [hvalue] at hx hx'
      exact Detect.Written.unique hx hx'
  rw [hsame]

/-- A field resolves after so many steps, to `resolved`; if it is accepted, the variables behind it
are defined and none leads back to itself; and it is accepted if it is written within the limit and
everything that is negated in it can be. -/
structure Settles {σ : Type} (g : Grammar ι) (field : HeaderField ι) (hold : Flat ι → σ)
    (resolved : Except VarError σ) : Prop where
  returns : ∀ fuel, fuelFor g field.value.length 0 ≤ fuel →
    (resolveField g fuel field).map hold = resolved.mapError some
  defined : ∀ s, resolved = .ok s → ∀ name, field.value.Reaches g name →
    ∃ text, g.table name = some text
  acyclic : ∀ s, resolved = .ok s → ∀ name, field.value.Reaches g name →
    ¬Relation.TransGen (Refers g) name name
  accepts : ∀ hops ≤ maxVarDepth, ∀ e, field.Written g hops e → e.Expressible →
    resolved = .ok (hold e.flat)

theorem Written.mono {g : Grammar ι} {hops : ℕ} {text : Text} {e : Expr ι}
    (h : Written g hops text e)
    {hops' : ℕ} (hle : hops ≤ hops') : Written g hops' text e := by
  induction h generalizing hops' with
  | not hform _ ih => exact .not hform (ih hle)
  | list hform hlength _ ih => exact .list hform hlength fun p hp => ih p hp hle
  | any hform => exact .any hform
  | var hform htable _ ih =>
    obtain ⟨n, rfl⟩ := Nat.exists_eq_succ_of_ne_zero (by omega : hops' ≠ 0)
    exact .var hform htable (ih (by omega))
  | literal hform hliteral => exact .literal hform hliteral

theorem HeaderField.Written.mono {g : Grammar ι} {hops hops' : ℕ} {field : HeaderField ι}
    {e : Expr ι}
    (h : field.Written g hops e) (hle : hops ≤ hops') : field.Written g hops' e := by
  obtain ⟨x, hx, he⟩ := h
  refine ⟨x, ?_, he⟩
  cases hvalue : field.value with
  | any | literal i =>
    rw [hvalue] at hx
    exact hx
  | var name =>
    rw [hvalue] at hx
    obtain ⟨n, target, rfl, htable, hx⟩ := hx
    obtain ⟨m, rfl⟩ := Nat.exists_eq_succ_of_ne_zero (by omega : hops' ≠ 0)
    exact ⟨m, target, rfl, htable, hx.mono (by omega)⟩
  | list text =>
    rw [hvalue] at hx
    exact Detect.Written.mono hx hle

theorem settles {σ : Type} (g : Grammar ι) (field : HeaderField ι) (hold : Flat ι → σ) :
    Settles g field hold ((field.resolve g).map hold) := by
  have hwritten : ∀ s, (field.resolve g).map hold = .ok s → ∃ e, field.Written g maxVarDepth e := by
    intro s hs
    obtain ⟨flat, hflat, _⟩ := map_eq_ok.1 hs
    obtain ⟨e, he, _⟩ := resolve_eq_ok_iff.1 hflat
    exact ⟨e, he⟩
  constructor
  case returns =>
    intro fuel hfuel
    rw [resolveField_fuel hfuel]
    cases field.resolve g <;> rfl
  case defined =>
    intro s hs name hreaches
    obtain ⟨e, he⟩ := hwritten s hs
    obtain ⟨n, target, _, htable, _⟩ := he.stands hreaches
    exact ⟨target, htable⟩
  case acyclic =>
    intro s hs name hreaches
    obtain ⟨e, he⟩ := hwritten s hs
    obtain ⟨n, hn⟩ := he.stands hreaches
    exact hn.not_cyclic
  case accepts =>
    intro hops hle e he hexpressible
    rw [resolve_eq_ok_iff.2 ⟨e, he.mono hle, hexpressible, rfl⟩, map_ok]

/-- Resolution ends for every table and every field of a header, and accepts the tables that have an
end. -/
theorem resolution_settles (vars : VarTable) :
    (∀ spec : AddressSpec,
      Settles vars.addressGrammar spec.field AddressSet.ofFlat (vars.resolveAddresses spec)) ∧
    ∀ spec : PortSpec, Settles vars.portGrammar spec.field PortSet.ofFlat
      (vars.resolvePorts spec) :=
  ⟨fun spec => settles vars.addressGrammar spec.field AddressSet.ofFlat,
    fun spec => settles vars.portGrammar spec.field PortSet.ofFlat⟩

end CyberSentinel.Detect
