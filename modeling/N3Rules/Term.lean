/-
Terms and what is made of them: triples, formulas and quantifier declarations, which nest in each other, and rules.

- `Term`, `Triple`, `Formula`, `Quantifier`: a formula is a term, so the four types are defined together;
- `Term.isGround`: no variable occurs in the term, inside its lists and the triples of its formulas included;
- `Term.same_iff`: equality is structural, quantifier declarations included, and can be decided.
-/

namespace N3Rules

/-- how a quantifier declaration quantifies its variables -/
inductive QuantifierKind where
  | forAll
  | forSome
  deriving DecidableEq, Repr

mutual

inductive Term where
  | var (name : String)
  | literal (value : String) (datatype : Option String) (language : Option String)
  | blank (id : String)
  | iri (value : String)
  | list (items : List Term)
  | formula (body : Formula)

/-- a statement: a pattern when variables occur in it, a fact when none does -/
structure Triple where
  subject : Term
  predicate : Term
  object : Term

/-- a group of triples, with the quantifier declarations that hold in it -/
structure Formula where
  triples : List Triple
  quantifiers : List Quantifier

/-- a declaration that variables are universal or existential -/
structure Quantifier where
  kind : QuantifierKind
  vars : List Term

end

/-- an implication between two formulas -/
structure Rule where
  antecedent : Formula
  consequent : Formula

/-- a literal with neither datatype nor language -/
def Term.plain (value : String) : Term :=
  .literal value none none

def Term.isVariable : Term → Bool
  | .var _ => true
  | _ => false

/-! ## Groundness -/

mutual

/-- no variable occurs in the term -/
def Term.isGround : Term → Bool
  | .var _ => false
  | .literal .. | .blank _ | .iri _ => true
  | .list items => Term.allGround items
  | .formula body => body.isGround

def Term.allGround : List Term → Bool
  | [] => true
  | t :: ts => t.isGround && Term.allGround ts

def Triple.isGround : Triple → Bool
  | ⟨s, p, o⟩ => s.isGround && p.isGround && o.isGround

def Triple.allGround : List Triple → Bool
  | [] => true
  | t :: ts => t.isGround && Triple.allGround ts

/-- no variable occurs in the triples of the formula -/
def Formula.isGround : Formula → Bool
  | ⟨triples, _⟩ => Triple.allGround triples

end

/-! ## Equality -/

mutual

/-- whether two terms are the same -/
def Term.same : Term → Term → Bool
  | .var a, .var b | .blank a, .blank b | .iri a, .iri b => a == b
  | .literal a b c, .literal d e f => a == d && b == e && c == f
  | .list ts, .list us => Term.allSame ts us
  | .formula f, .formula g => f.same g
  | _, _ => false

def Term.allSame : List Term → List Term → Bool
  | [], [] => true
  | t :: ts, u :: us => t.same u && Term.allSame ts us
  | _, _ => false

def Triple.same : Triple → Triple → Bool
  | ⟨s, p, o⟩, ⟨s', p', o'⟩ => s.same s' && p.same p' && o.same o'

def Triple.allSame : List Triple → List Triple → Bool
  | [], [] => true
  | t :: ts, u :: us => t.same u && Triple.allSame ts us
  | _, _ => false

def Formula.same : Formula → Formula → Bool
  | ⟨ts, qs⟩, ⟨us, rs⟩ => Triple.allSame ts us && Quantifier.allSame qs rs

def Quantifier.same : Quantifier → Quantifier → Bool
  | ⟨k, vs⟩, ⟨l, ws⟩ => k == l && Term.allSame vs ws

def Quantifier.allSame : List Quantifier → List Quantifier → Bool
  | [], [] => true
  | q :: qs, r :: rs => q.same r && Quantifier.allSame qs rs
  | _, _ => false

end

mutual

theorem Term.same_iff (t u : Term) : t.same u = true ↔ t = u := by
  cases t with
  | list ts => cases u <;> simp [Term.same, Term.allSame_iff ts]
  | formula f => cases u <;> simp [Term.same, Formula.same_iff f]
  | _ => cases u <;> simp [Term.same, and_assoc]

theorem Term.allSame_iff (ts us : List Term) : Term.allSame ts us = true ↔ ts = us := by
  cases ts with
  | nil => cases us <;> simp [Term.allSame]
  | cons t ts => cases us <;> simp [Term.allSame, Term.same_iff t, Term.allSame_iff ts]

theorem Triple.same_iff (t u : Triple) : t.same u = true ↔ t = u := by
  obtain ⟨s, p, o⟩ := t
  obtain ⟨s', p', o'⟩ := u
  simp [Triple.same, Term.same_iff s, Term.same_iff p, Term.same_iff o, and_assoc]

theorem Triple.allSame_iff (ts us : List Triple) : Triple.allSame ts us = true ↔ ts = us := by
  cases ts with
  | nil => cases us <;> simp [Triple.allSame]
  | cons t ts => cases us <;> simp [Triple.allSame, Triple.same_iff t, Triple.allSame_iff ts]

theorem Formula.same_iff (f g : Formula) : f.same g = true ↔ f = g := by
  obtain ⟨ts, qs⟩ := f
  obtain ⟨us, rs⟩ := g
  simp [Formula.same, Triple.allSame_iff ts, Quantifier.allSame_iff qs]

theorem Quantifier.same_iff (q r : Quantifier) : q.same r = true ↔ q = r := by
  obtain ⟨k, vs⟩ := q
  obtain ⟨l, ws⟩ := r
  simp [Quantifier.same, Term.allSame_iff vs]

theorem Quantifier.allSame_iff (qs rs : List Quantifier) : Quantifier.allSame qs rs = true ↔ qs = rs := by
  cases qs with
  | nil => cases rs <;> simp [Quantifier.allSame]
  | cons q qs => cases rs <;> simp [Quantifier.allSame, Quantifier.same_iff q, Quantifier.allSame_iff qs]

end

instance : DecidableEq Term := fun t u => decidable_of_iff _ (Term.same_iff t u)
instance : DecidableEq Triple := fun t u => decidable_of_iff _ (Triple.same_iff t u)
instance : DecidableEq Formula := fun f g => decidable_of_iff _ (Formula.same_iff f g)
instance : DecidableEq Quantifier := fun q r => decidable_of_iff _ (Quantifier.same_iff q r)
deriving instance DecidableEq for Rule

end N3Rules
