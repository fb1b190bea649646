/-
When a pattern that matched becomes the fact again.

Matching takes a formula as it is, and instantiating goes into it. So a pattern instantiated with what its match gave is
the fact, up to the formulas in it; and it is the fact itself exactly if the bindings leave these formulas alone.

- `Term.instantiate_eq_iff`: an instance is the term itself when every variable of the term stays what it is;
- `Term.instantiate_of_value?`: the instance of a pattern is its value when the formulas in the pattern stay as they are;
- `instance_of_match`: the same for a pattern and a fact that match, and for the patterns under a solution;
- `formula_instance_differs`: a variable that stands both in a formula and outside makes the difference.
-/
import N3Rules.Proofs.Join

namespace N3Rules

/-! ## Instances that change nothing -/

mutual

/-- all variables that occur in a term, those in the triples of formulas included -/
def Term.variables : Term → List String
  | .var name => [name]
  | .list items => Term.allVariables items
  | .formula body => body.variables
  | .literal .. | .blank _ | .iri _ => []

def Term.allVariables : List Term → List String
  | [] => []
  | t :: ts => t.variables ++ Term.allVariables ts

def Triple.variables : Triple → List String
  | ⟨s, p, o⟩ => s.variables ++ p.variables ++ o.variables

def Triple.allVariables : List Triple → List String
  | [] => []
  | t :: ts => t.variables ++ Triple.allVariables ts

/-- the variables that occur in the triples of a formula -/
def Formula.variables : Formula → List String
  | ⟨triples, _⟩ => Triple.allVariables triples

end

/-- a variable has no value, or is its own value -/
def Bindings.Leaves (b : Bindings) (name : String) : Prop :=
  ∀ value, b.find? name = some value → value = .var name

theorem Bindings.leaves_iff {b : Bindings} {name : String} :
    b.Leaves name ↔ Term.instantiate b (.var name) = .var name := by
  unfold Bindings.Leaves
  cases hf : b.find? name <;> simp [Term.instantiate, hf]

mutual

theorem Term.instantiate_eq_iff (b : Bindings) (t : Term) :
    t.instantiate b = t ↔ ∀ name ∈ t.variables, b.Leaves name := by
  cases t with
  | var name => simp [Term.variables, Bindings.leaves_iff]
  | list items => simp [Term.instantiate, Term.variables, Term.instantiateAll_eq_iff b items]
  | formula body => simp [Term.instantiate, Term.variables, Formula.instantiate_eq_iff b body]
  | _ => simp [Term.instantiate, Term.variables]

theorem Term.instantiateAll_eq_iff (b : Bindings) (ts : List Term) :
    Term.instantiateAll b ts = ts ↔ ∀ name ∈ Term.allVariables ts, b.Leaves name := by
  cases ts with
  | nil => simp [Term.instantiateAll, Term.allVariables]
  | cons t ts =>
    simp [Term.instantiateAll, Term.allVariables, Term.instantiate_eq_iff b t, Term.instantiateAll_eq_iff b ts,
      or_imp, forall_and]

theorem Triple.instantiate_eq_iff (b : Bindings) (t : Triple) :
    t.instantiate b = t ↔ ∀ name ∈ t.variables, b.Leaves name := by
  obtain ⟨s, p, o⟩ := t
  simp [Triple.instantiate, Triple.variables, Term.instantiate_eq_iff b s, Term.instantiate_eq_iff b p,
    Term.instantiate_eq_iff b o, or_imp, forall_and]

theorem Triple.instantiateAll_eq_iff (b : Bindings) (ts : List Triple) :
    Triple.instantiateAll b ts = ts ↔ ∀ name ∈ Triple.allVariables ts, b.Leaves name := by
  cases ts with
  | nil => simp [Triple.instantiateAll, Triple.allVariables]
  | cons t ts =>
    simp [Triple.instantiateAll, Triple.allVariables, Triple.instantiate_eq_iff b t, Triple.instantiateAll_eq_iff b ts,
      or_imp, forall_and]

theorem Formula.instantiate_eq_iff (b : Bindings) (f : Formula) :
    f.instantiate b = f ↔ ∀ name ∈ f.variables, b.Leaves name := by
  obtain ⟨triples, quantifiers⟩ := f
  simp [Formula.instantiate, Formula.variables, Triple.instantiateAll_eq_iff b triples]

end

/-! ## Instances of what has a value -/

mutual

/-- the variables in the formulas of a term -/
def Term.innerVariables : Term → List String
  | .list items => Term.allInnerVariables items
  | .formula body => body.variables
  | .var _ | .literal .. | .blank _ | .iri _ => []

/-- the variables in the formulas of terms -/
def Term.allInnerVariables : List Term → List String
  | [] => []
  | t :: ts => t.innerVariables ++ Term.allInnerVariables ts

end

/-- the variables in the formulas of a pattern -/
def Triple.innerVariables (p : Triple) : List String :=
  Term.allInnerVariables p.terms

mutual

/-- the instance of a pattern is its value exactly when its formulas stay as they are -/
theorem Term.instantiate_of_value? {b : Bindings} (p t : Term) (h : Term.value? b p = some t) :
    p.instantiate b = t ↔ ∀ name ∈ p.innerVariables, b.Leaves name := by
  cases p with
  | var name =>
    simp only [Term.value?] at h
    simp [Term.instantiate, h, Term.innerVariables]
  | list items =>
    obtain ⟨values, hvalues, rfl⟩ := Option.map_eq_some_iff.1 h
    simp [Term.instantiate, Term.innerVariables, Term.instantiateAll_of_allValues? items values hvalues]
  | formula body =>
    cases h
    simp [Term.instantiate, Term.innerVariables, Formula.instantiate_eq_iff b body]
  | _ =>
    cases h
    simp [Term.instantiate, Term.innerVariables]

theorem Term.instantiateAll_of_allValues? {b : Bindings} (ps ts : List Term) (h : Term.allValues? b ps = some ts) :
    Term.instantiateAll b ps = ts ↔ ∀ name ∈ Term.allInnerVariables ps, b.Leaves name := by
  cases ps with
  | nil =>
    cases h
    simp [Term.instantiateAll, Term.allInnerVariables]
  | cons p ps =>
    simp only [Term.allValues?] at h
    split at h
    · rename_i u us hu hus
      cases h
      simp [Term.instantiateAll, Term.allInnerVariables, Term.instantiate_of_value? p u hu,
        Term.instantiateAll_of_allValues? ps us hus, or_imp, forall_and]
    · cases h

end

/-- under bindings that make a pattern match a fact, the instance of the pattern is the fact exactly when the formulas in
the pattern stay as they are -/
theorem Triple.Matches.instantiate_iff {b : Bindings} {p t : Triple} (h : Triple.Matches b p t) :
    p.instantiate b = t ↔ ∀ name ∈ p.innerVariables, b.Leaves name := by
  obtain ⟨s, q, o⟩ := p
  obtain ⟨s', q', o'⟩ := t
  simp [Triple.instantiate, Triple.innerVariables, Triple.terms, Term.allInnerVariables,
    Term.instantiate_of_value? s s' h.subject, Term.instantiate_of_value? q q' h.predicate,
    Term.instantiate_of_value? o o' h.object, or_imp, forall_and]

theorem Triple.Passes.matches {b : Bindings} {p t : Triple} (h : Triple.Passes b p t) : Triple.Matches b p t :=
  (Triple.matches_iff (.refl b) p t).2
    ⟨b, Triple.match?_eq_some_iff.2 ⟨b, b, h.subject, h.predicate, h.object⟩, .refl b⟩

/-- **Matching and instantiating.** Where a pattern matches a fact, its instance under the bindings is the fact exactly if
no variable of its formulas has another value than itself; and so it is with every pattern of an antecedent that names no
searched builtin, and some stored fact, under every solution. -/
theorem instance_of_match :
    (∀ p t b, Triple.match? {} p t = some b →
      (p.instantiate b = t ↔ ∀ name ∈ p.innerVariables, b.Leaves name)) ∧
    ∀ data registry ps, ∃ found, solve data registry ps {} = .ok found ∧ ∀ s ∈ found, ∀ p ∈ ps,
      registry.searched? p.predicate = none → ∃ t ∈ data, Triple.Matches s p t ∧
        (p.instantiate s = t ↔ ∀ name ∈ p.innerVariables, s.Leaves name) := by
  constructor
  · intro p t b h
    have hmatches : Triple.Matches b p t := by
      refine (Triple.matches_iff ?_ p t).2 ⟨b, h, .refl b⟩
      exact (Triple.match?_grows h).extends
    exact hmatches.instantiate_iff
  · intro data registry ps
    refine ⟨solutions data registry ps {}, solve_eq data registry ps Bindings.distinct_empty, ?_⟩
    intro s hs p hp hn
    obtain ⟨t, ht, hpasses⟩ := solutions_matched hs hp hn
    exact ⟨t, ht, hpasses.matches, hpasses.matches.instantiate_iff⟩

/-- a variable inside a formula that stands nowhere else gets no value, so the pattern becomes the fact -/
theorem told_instance :
    let statement : Term := .formula ⟨[⟨.var "y", .iri "likes", .iri "bob"⟩], []⟩
    let p : Triple := ⟨.var "who", .iri "says", .list [.var "what", statement]⟩
    let t : Triple := ⟨.iri "ann", .iri "says", .list [.iri "tea", statement]⟩
    let b : Bindings := ⟨[("what", .iri "tea"), ("who", .iri "ann")]⟩
    Triple.match? {} p t = some b ∧ p.innerVariables = ["y"] ∧ b.Leaves "y" ∧ p.instantiate b = t ∧
      solve [t] {} [p] {} = .ok [b] ∧ ({} : Registry).searched? p.predicate = none ∧
      ∃ u ∈ [t], Triple.Matches b p u ∧ p.instantiate b = u := by
  intro statement p t b
  have hmatch : Triple.match? {} p t = some b := by decide +kernel
  have hinner : p.innerVariables = ["y"] := rfl
  have hleaves : ∀ name ∈ p.innerVariables, b.Leaves name := by
    intro name hname
    rw [hinner, List.mem_singleton] at hname
    rw [hname, Bindings.leaves_iff]
    rfl
  have hsolve : solve [t] {} [p] {} = .ok [b] := by decide +kernel
  have hnone : ({} : Registry).searched? p.predicate = none := by decide +kernel
  obtain ⟨hfacts, hsolutions⟩ := instance_of_match
  obtain ⟨found, hfound, hpatterns⟩ := hsolutions [t] {} [p]
  rw [hsolve] at hfound
  cases hfound
  obtain ⟨u, hu, hmatches, hiff⟩ := hpatterns b List.mem_cons_self p List.mem_cons_self hnone
  exact ⟨hmatch, hinner, hleaves "y" (by simp [hinner]), (hfacts p t b hmatch).2 hleaves, hsolve, hnone, u, hu, hmatches,
    hiff.2 hleaves⟩

/-- the formula of the pattern is the formula of the fact before its variable gets a value, and another one after -/
theorem formula_instance_differs :
    let statement : Term := .formula ⟨[⟨.var "x", .iri "q", .iri "r"⟩], []⟩
    let p : Triple := ⟨.var "x", .iri "p", statement⟩
    let t : Triple := ⟨.iri "a", .iri "p", statement⟩
    let b : Bindings := ⟨[("x", .iri "a")]⟩
    Triple.match? {} p t = some b ∧ p.instantiate b ≠ t ∧
      solve [t] {} [p] {} = .ok [b] ∧ p.instantiate b ∉ [t] := by
  decide +kernel

end N3Rules
