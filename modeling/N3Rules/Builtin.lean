/-
Builtins: predicates that are decided by calling them, instead of by looking for facts.

A builtin is known by the IRI in a pattern's predicate position. Calling it always gives a yes or a no: a wrong
number of arguments, or arguments that it cannot evaluate, give no.
-/
import N3Rules.Term

namespace N3Rules

/-- how many arguments a builtin takes -/
inductive Arity where
  /-- the subject -/
  | unary
  /-- the subject and the object -/
  | binary
  /-- the subject, the predicate and the object -/
  | ternary
  deriving DecidableEq, Repr

def Arity.toNat : Arity → Nat
  | .unary => 1
  | .binary => 2
  | .ternary => 3

inductive Answer where
  | truth (holds : Bool)
  | term (t : Term)
  deriving DecidableEq

/-- whether an answer counts as yes: a term does, unless it is a literal whose value is empty, `false` or `0` -/
def Answer.holds : Answer → Bool
  | .truth b => b
  | .term (.literal value _ _) => value != "" && value != "false" && value != "0"
  | .term _ => true

structure Builtin where
  uri : String
  arity : Arity
  description : Option String := none
  /-- the answer to arguments, or none when they cannot be evaluated -/
  answer? : List Term → Option Answer

/-- whether a builtin takes so many arguments -/
def Builtin.takes (b : Builtin) (args : List Term) : Bool :=
  args.length == b.arity.toNat

/-- whether a builtin holds of arguments -/
def Builtin.holds (b : Builtin) (args : List Term) : Bool :=
  b.takes args && ((b.answer? args).map Answer.holds).getD false

end N3Rules
