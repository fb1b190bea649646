/-
The laws of instantiating.

An instance is ground where bindings give a ground value to all variables of the term, however deep they stand in lists
and in the triples of formulas. And an instance can be instantiated later as if it were the term itself, where later
bindings give the same values and no value has variables of its own.

- `Term.isGround_instantiate_iff`, `Triple.isGround_instantiate_iff`: when an instance is ground;
- `Bindings.Absorbs`: of one variable, the value under later bindings is the instance of its value before;
- `Term.instantiate_instantiate_iff`, `Triple.instantiate_instantiate_iff`: instantiating twice is instantiating once, by
  the later bindings, exactly if these absorb the earlier ones at all variables;
- `instantiate_laws`: both laws, and that instantiating again changes nothing.
-/
import N3Rules.Proofs.Confirmation
import N3Rules.Proofs.Instances

namespace N3Rules

/-! ## Ground instances -/

/-- a variable has a ground value -/
def Bindings.Grounds (b : Bindings) (name : String) : Prop :=
  ∃ value, b.find? name = some value ∧ value.isGround = true

theorem Bindings.grounds_iff {b : Bindings} {name : String} :
    b.Grounds name ↔ (Term.instantiate b (.var name)).isGround = true := by
  unfold Bindings.Grounds
  cases hf : b.find? name with
  | none => simp [Term.instantiate, hf, Term.isGround]
  | some value => simp [Term.instantiate, hf]

mutual

theorem Term.isGround_instantiate_iff (b : Bindings) (t : Term) :
    (t.instantiate b).isGround = true ↔ ∀ name ∈ t.variables, b.Grounds name := by
  cases t with
  | var name => simp [Term.variables, Bindings.grounds_iff]
  | list items => simp [Term.instantiate, Term.isGround, Term.variables, Term.allGround_instantiateAll_iff b items]
  | formula body => simp [Term.instantiate, Term.isGround, Term.variables, Formula.isGround_instantiate_iff b body]
  | _ => simp [Term.instantiate, Term.isGround, Term.variables]

theorem Term.allGround_instantiateAll_iff (b : Bindings) (ts : List Term) :
    Term.allGround (Term.instantiateAll b ts) = true ↔ ∀ name ∈ Term.allVariables ts, b.Grounds name := by
  cases ts with
  | nil => simp [Term.instantiateAll, Term.allGround, Term.allVariables]
  | cons t ts =>
    simp [Term.instantiateAll, Term.allGround, Term.allVariables, Term.isGround_instantiate_iff b t,
      Term.allGround_instantiateAll_iff b ts, or_imp, forall_and]

theorem Triple.isGround_instantiate_iff (b : Bindings) (t : Triple) :
    (t.instantiate b).isGround = true ↔ ∀ name ∈ t.variables, b.Grounds name := by
  obtain ⟨s, p, o⟩ := t
  simp [Triple.instantiate, Triple.isGround, Triple.variables, Term.isGround_instantiate_iff b s,
    Term.isGround_instantiate_iff b p, Term.isGround_instantiate_iff b o, or_imp, forall_and, and_assoc]

theorem Triple.allGround_instantiateAll_iff (b : Bindings) (ts : List Triple) :
    Triple.allGround (Triple.instantiateAll b ts) = true ↔ ∀ name ∈ Triple.allVariables ts, b.Grounds name := by
  cases ts with
  | nil => simp [Triple.instantiateAll, Triple.allGround, Triple.allVariables]
  | cons t ts =>
    simp [Triple.instantiateAll, Triple.allGround, Triple.allVariables, Triple.isGround_instantiate_iff b t,
      Triple.allGround_instantiateAll_iff b ts, or_imp, forall_and]

theorem Formula.isGround_instantiate_iff (b : Bindings) (f : Formula) :
    (f.instantiate b).isGround = true ↔ ∀ name ∈ f.variables, b.Grounds name := by
  obtain ⟨triples, quantifiers⟩ := f
  simp [Formula.instantiate, Formula.isGround, Formula.variables, Triple.allGround_instantiateAll_iff b triples]

end

/-! ## Instances of instances -/

/-- what later bindings make of a variable, they make of its instance under the earlier ones -/
def Bindings.Absorbs (later b : Bindings) (name : String) : Prop :=
  (Term.instantiate b (.var name)).instantiate later = Term.instantiate later (.var name)

/-- bindings absorb ground values that they have themselves. A variable without a value is left to them as it is -/
theorem Bindings.Extends.absorbs {later b : Bindings} (h : later.Extends b) (hb : b.IsGround) (name : String) :
    later.Absorbs b name := by
  unfold Bindings.Absorbs
  cases hf : b.find? name with
  | none => simp [Term.instantiate, hf]
  | some value =>
    have hvalue : Term.instantiate b (.var name) = value := by simp [Term.instantiate, hf]
    have hlater : Term.instantiate later (.var name) = value := by simp [Term.instantiate, h name value hf]
    rw [hvalue, hlater]
    exact Term.instantiate_of_isGround later value (hb name value hf)

mutual

theorem Term.instantiate_instantiate_iff (later b : Bindings) (t : Term) :
    (t.instantiate b).instantiate later = t.instantiate later ↔ ∀ name ∈ t.variables, later.Absorbs b name := by
  cases t with
  | var name => simp [Term.variables, Bindings.Absorbs]
  | list items => simp [Term.instantiate, Term.variables, Term.instantiateAll_instantiateAll_iff later b items]
  | formula body => simp [Term.instantiate, Term.variables, Formula.instantiate_instantiate_iff later b body]
  | _ => simp [Term.instantiate, Term.variables]

theorem Term.instantiateAll_instantiateAll_iff (later b : Bindings) (ts : List Term) :
    Term.instantiateAll later (Term.instantiateAll b ts) = Term.instantiateAll later ts ↔
      ∀ name ∈ Term.allVariables ts, later.Absorbs b name := by
  cases ts with
  | nil => simp [Term.instantiateAll, Term.allVariables]
  | cons t ts =>
    simp [Term.instantiateAll, Term.allVariables, Term.instantiate_instantiate_iff later b t,
      Term.instantiateAll_instantiateAll_iff later b ts, or_imp, forall_and]

theorem Triple.instantiate_instantiate_iff (later b : Bindings) (t : Triple) :
    (t.instantiate b).instantiate later = t.instantiate later ↔ ∀ name ∈ t.variables, later.Absorbs b name := by
  obtain ⟨s, p, o⟩ := t
  simp [Triple.instantiate, Triple.variables, Term.instantiate_instantiate_iff later b s,
    Term.instantiate_instantiate_iff later b p, Term.instantiate_instantiate_iff later b o, or_imp, forall_and]

theorem Triple.instantiateAll_instantiateAll_iff (later b : Bindings) (ts : List Triple) :
    Triple.instantiateAll later (Triple.instantiateAll b ts) = Triple.instantiateAll later ts ↔
      ∀ name ∈ Triple.allVariables ts, later.Absorbs b name := by
  cases ts with
  | nil => simp [Triple.instantiateAll, Triple.allVariables]
  | cons t ts =>
    simp [Triple.instantiateAll, Triple.allVariables, Triple.instantiate_instantiate_iff later b t,
      Triple.instantiateAll_instantiateAll_iff later b ts, or_imp, forall_and]

theorem Formula.instantiate_instantiate_iff (later b : Bindings) (f : Formula) :
    (f.instantiate b).instantiate later = f.instantiate later ↔ ∀ name ∈ f.variables, later.Absorbs b name := by
  obtain ⟨triples, quantifiers⟩ := f
  simp [Formula.instantiate, Formula.variables, Triple.instantiateAll_instantiateAll_iff later b triples]

end

/-! ## The laws -/

/-- **The laws of instantiating.** An instance of a term or a triple is ground exactly if every variable in it, those in
lists and in the triples of formulas included, has a ground value. If all values are ground, what comes of an instance
under bindings that extend the first is what comes of the term itself, and so instantiating again changes nothing. -/
theorem instantiate_laws (b : Bindings) :
    (∀ t : Term, (t.instantiate b).isGround = true ↔ ∀ name ∈ t.variables, b.Grounds name) ∧
    (∀ t : Triple, (t.instantiate b).isGround = true ↔ ∀ name ∈ t.variables, b.Grounds name) ∧
    (b.IsGround → ∀ later : Bindings, later.Extends b →
      (∀ t : Term, (t.instantiate b).instantiate later = t.instantiate later) ∧
      ∀ t : Triple, (t.instantiate b).instantiate later = t.instantiate later) ∧
    (b.IsGround → (∀ t : Term, (t.instantiate b).instantiate b = t.instantiate b) ∧
      ∀ t : Triple, (t.instantiate b).instantiate b = t.instantiate b) := by
  have hlater : b.IsGround → ∀ later : Bindings, later.Extends b →
      (∀ t : Term, (t.instantiate b).instantiate later = t.instantiate later) ∧
      ∀ t : Triple, (t.instantiate b).instantiate later = t.instantiate later := by
    intro hb later hextends
    constructor
    · intro t
      rw [Term.instantiate_instantiate_iff]
      intro name _
      exact hextends.absorbs hb name
    · intro t
      rw [Triple.instantiate_instantiate_iff]
      intro name _
      exact hextends.absorbs hb name
  refine ⟨Term.isGround_instantiate_iff b, Triple.isGround_instantiate_iff b, hlater, ?_⟩
  intro hb
  exact hlater hb b (.refl b)

/-- what ann states is not ground while `?y` has no value. With one it is, and it does not matter that the others were given
before, one of them a formula that declares a variable of the same name -/
theorem statement_instantiated :
    let declared : Term := .formula ⟨[⟨.iri "tea", .iri "is", .iri "hot"⟩], [⟨.forAll, [.var "x"]⟩]⟩
    let t : Triple := ⟨.var "who", .iri "states", .formula ⟨[⟨.list [.var "x", .list [.var "y"]], .iri "p", .var "x"⟩], []⟩⟩
    let b : Bindings := (({} : Bindings).bind "x" declared).bind "who" (.iri "ann")
    let later : Bindings := b.bind "y" (.plain "1")
    t.variables = ["who", "x", "y", "x"] ∧ b.IsGround ∧ later.Extends b ∧
      (t.instantiate b).isGround = false ∧ (t.instantiate b).instantiate b = t.instantiate b ∧
      ((t.instantiate b).instantiate later).isGround = true ∧ (t.instantiate b).instantiate later = t.instantiate later := by
  intro declared t b later
  have hvariables : t.variables = ["who", "x", "y", "x"] := rfl
  have hdeclared : declared.isGround = true := rfl
  have hb : b.IsGround := by
    have hgrows : Bindings.Grows (fun v => v.isGround = true) {} b := (Bindings.Grows.refl.bind rfl hdeclared).bind rfl rfl
    exact Bindings.isGround_empty.grows hgrows fun _ hv => hv
  have hextends : later.Extends b := Bindings.extends_bind rfl (.plain "1")
  obtain ⟨-, hground, hlater, hagain⟩ := instantiate_laws b
  obtain ⟨-, hground', -⟩ := instantiate_laws later
  have hinstance := (hlater hb later hextends).2 t
  refine ⟨hvariables, hb, hextends, ?_, (hagain hb).2 t, ?_, hinstance⟩
  · rw [Bool.eq_false_iff, Ne, hground, hvariables]
    intro h
    obtain ⟨value, hvalue, -⟩ := h "y" (by simp)
    cases hvalue
  · rw [hinstance, hground', hvariables]
    have hwho : later.Grounds "who" := ⟨.iri "ann", rfl, rfl⟩
    have hx : later.Grounds "x" := ⟨declared, rfl, hdeclared⟩
    have hy : later.Grounds "y" := ⟨.plain "1", rfl, rfl⟩
    simp [hwho, hx, hy]

end N3Rules
