/-
Bindings: a value for each of finitely many variables.

The entries stand in no particular order, and a variable is bound at most once: binding it again changes nothing.
Two bindings are combined when they agree wherever both have a value; otherwise the first disagreement is a conflict.

- `Bindings.find?`, `Bindings.bind`, `Bindings.combine`: look up, bind, combine;
- `Bindings.find?_bind`: what is found after binding.
-/
import N3Rules.Term.Written

namespace N3Rules

/-- the values of variables, one entry a variable -/
structure Bindings where
  entries : List (String × Term) := []
  deriving DecidableEq

def Bindings.find? (b : Bindings) (name : String) : Option Term :=
  b.entries.lookup name

/-- the bindings in which a variable has a value, the old one if it had one -/
def Bindings.bind (b : Bindings) (name : String) (value : Term) : Bindings :=
  match b.find? name with
  | some _ => b
  | none => ⟨(name, value) :: b.entries⟩

/-- binding a variable again changes nothing, and binding one changes no other -/
theorem Bindings.find?_bind (b : Bindings) (name other : String) (value : Term) :
    (b.bind name value).find? other =
      if other = name then some ((b.find? name).getD value) else b.find? other := by
  unfold Bindings.bind
  split
  · rename_i old h
    split
    · subst other
      simp [h]
    · rfl
  · rename_i h
    by_cases ho : other = name
    · subst other
      simp [h]
      simp [Bindings.find?]
    · rw [Bindings.find?, List.lookup_cons, beq_eq_false_iff_ne.2 ho, if_neg ho, Bindings.find?]

/-- the bindings that a list of pairs gives, the first pair for a variable counting -/
def Bindings.ofList (pairs : List (String × Term)) : Bindings :=
  pairs.foldl (fun b p => b.bind p.1 p.2) {}

/-- a variable with two values -/
structure Conflict where
  name : String
  first : Term
  second : Term
  deriving DecidableEq

def Conflict.message (c : Conflict) : String :=
  s!"variable ?{c.name} bound to both {c.first.text} and {c.second.text}"

/-- the bindings with one more value, which must agree with the value that is there -/
def Bindings.add (b : Bindings) (name : String) (value : Term) : Except Conflict Bindings :=
  match b.find? name with
  | some old => if old = value then .ok b else .error ⟨name, old, value⟩
  | none => .ok (b.bind name value)

/-- the bindings with the values of others, where the two agree -/
def Bindings.combine (b other : Bindings) : Except Conflict Bindings :=
  other.entries.foldlM (fun b e => b.add e.1 e.2) b

end N3Rules
