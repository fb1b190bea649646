/-
Matching a pattern with a fact, and instantiating a pattern.

- `Term.match?`: the bindings extended so that a pattern becomes a given term;
- `Term.instantiate`: a term with the bound variables replaced by their values.

Matching looks for variables inside lists and takes formulas as they are; instantiating goes into both. A variable
without a value stays in place.
-/
import N3Rules.Bindings

namespace N3Rules

mutual

/-- the bindings, extended by matching a pattern with a term, or none when they do not match -/
def Term.match? (b : Bindings) : Term → Term → Option Bindings
  | .var name, t =>
    match b.find? name with
    | some value => if value = t then some b else none
    | none => some (b.bind name t)
  | .list ps, .list ts => Term.matchAll? b ps ts
  | p, t => if p = t then some b else none

/-- the bindings, extended by matching patterns with as many terms one by one -/
def Term.matchAll? (b : Bindings) : List Term → List Term → Option Bindings
  | [], [] => some b
  | p :: ps, t :: ts =>
    match Term.match? b p t with
    | some b => Term.matchAll? b ps ts
    | none => none
  | _, _ => none

end

/-- the bindings, extended by matching a pattern with a fact -/
def Triple.match? (b : Bindings) (p t : Triple) : Option Bindings := do
  let b ← Term.match? b p.subject t.subject
  let b ← Term.match? b p.predicate t.predicate
  Term.match? b p.object t.object

mutual

/-- the term with its bound variables replaced -/
def Term.instantiate (b : Bindings) : Term → Term
  | .var name => (b.find? name).getD (.var name)
  | .list items => .list (Term.instantiateAll b items)
  | .formula body => .formula (Formula.instantiate b body)
  | .literal value datatype language => .literal value datatype language
  | .blank id => .blank id
  | .iri value => .iri value

def Term.instantiateAll (b : Bindings) : List Term → List Term
  | [] => []
  | t :: ts => Term.instantiate b t :: Term.instantiateAll b ts

def Triple.instantiate (b : Bindings) : Triple → Triple
  | ⟨s, p, o⟩ => ⟨Term.instantiate b s, Term.instantiate b p, Term.instantiate b o⟩

def Triple.instantiateAll (b : Bindings) : List Triple → List Triple
  | [] => []
  | t :: ts => Triple.instantiate b t :: Triple.instantiateAll b ts

/-- the formula with the bound variables of its triples replaced -/
def Formula.instantiate (b : Bindings) : Formula → Formula
  | ⟨triples, quantifiers⟩ => ⟨Triple.instantiateAll b triples, quantifiers⟩

end

end N3Rules
