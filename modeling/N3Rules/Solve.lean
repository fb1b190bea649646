/-
Solving an antecedent: all bindings under which its patterns hold in a list of facts.

Patterns are solved from the first on. A pattern is matched with every fact in turn, and the bindings go into the
rest. A pattern whose predicate names a builtin of one or two arguments waits until the rest is solved; an argument
that is still unbound then takes every value that stands in its place in some fact, and the builtin decides.

- `solve`: the solutions, in order;
- `solveCalls`: the calls that solving makes, in order;
- `confirmed`, `confirmCalls`: a complete solution, with all its builtins asked once more.
-/
import N3Rules.Match
import N3Rules.Builtin.Registry

namespace N3Rules

/-- a builtin called with arguments -/
structure Call where
  builtin : Builtin
  args : List Term

/-- the values that an argument may take: its instance, or every value given, once each, when that is a variable -/
def choices (b : Bindings) (t : Term) (values : List Term) : List Term :=
  if (t.instantiate b).isVariable then values.eraseDups else [t.instantiate b]

/-- the bindings in which a term, if it is an unbound variable, has a value -/
def Bindings.assume (b : Bindings) (t value : Term) : Bindings :=
  match t with
  | .var name => b.bind name value
  | _ => b

/-- the argument lists that a builtin pattern may have under bindings, each with the bindings that give it -/
def attempts (data : List Triple) (g : Builtin) (p : Triple) (b : Bindings) : List (List Term × Bindings) :=
  (choices b p.subject (data.map (·.subject))).flatMap fun s =>
    let b := b.assume p.subject s
    if g.arity = .binary then
      (choices b p.object (data.map (·.object))).map fun o => ([s, o], b.assume p.object o)
    else [([s], b)]

/-- the bindings, extended in every way in which a builtin pattern holds -/
def expand (data : List Triple) (g : Builtin) (p : Triple) (b : Bindings) : List Bindings :=
  ((attempts data g p b).filter fun a => g.holds a.1).map (·.2)

/-- the extensions of the bindings under which all patterns hold -/
def solve (data : List Triple) (registry : Registry) : List Triple → Bindings → Except Conflict (List Bindings)
  | [], b => .ok [b]
  | p :: ps, b =>
    match registry.searched? p.predicate with
    | some g => (solve data registry ps b).map fun found => found.flatMap (expand data g p)
    | none => do
      let found ← (data.filterMap (Triple.match? b p)).mapM fun b => do
        let rest ← solve data registry ps b
        rest.mapM (·.combine b)
      return found.flatten

/-- the calls that solving makes -/
def solveCalls (data : List Triple) (registry : Registry) : List Triple → Bindings → List Call
  | [], _ => []
  | p :: ps, b =>
    match registry.searched? p.predicate with
    | some g =>
      let found := (solve data registry ps b).toOption.getD []
      solveCalls data registry ps b ++ (found.flatMap (attempts data g p)).map fun a => ⟨g, a.1⟩
    | none => (data.filterMap (Triple.match? b p)).flatMap (solveCalls data registry ps)

/-! ## Confirming a solution -/

/-- the arguments of a builtin in a pattern -/
def Builtin.argumentsOf (g : Builtin) (p : Triple) : List Term :=
  match g.arity with
  | .unary => [p.subject]
  | .binary => [p.subject, p.object]
  | .ternary => [p.subject, p.predicate, p.object]

/-- the call that a pattern is under bindings, if its predicate names a builtin -/
def Call.ofPattern? (registry : Registry) (b : Bindings) (p : Triple) : Option Call :=
  (registry.named? p.predicate).map fun g => ⟨g, g.argumentsOf (p.instantiate b)⟩

def Call.holds (c : Call) : Bool :=
  c.builtin.holds c.args

/-- whether every builtin pattern holds under bindings -/
def confirmed (registry : Registry) (ps : List Triple) (b : Bindings) : Bool :=
  (ps.filterMap (Call.ofPattern? registry b)).all Call.holds

/-- the calls up to the first that gives no, that one included -/
def callsMade : List Call → List Call
  | [] => []
  | c :: cs => if c.holds then c :: callsMade cs else [c]

/-- the calls that confirming a solution makes -/
def confirmCalls (registry : Registry) (ps : List Triple) (b : Bindings) : List Call :=
  callsMade (ps.filterMap (Call.ofPattern? registry b))

end N3Rules
