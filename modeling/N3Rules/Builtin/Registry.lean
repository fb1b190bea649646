/-
The builtins that a predicate may name.

The registry keeps the builtins that were registered, in order, and beside them the list that is searched: the core
builtins and then the registered ones. The first builtin of that list with an IRI is the one the IRI names, so a
builtin registered later under the same IRI is never found.

- `Registry.registerAll`: the registry after builtins are registered, in order;
- `Registry.named?`: the builtin that a predicate names.
-/
import N3Rules.Builtin.Core

namespace N3Rules

/-- the builtins that a predicate may name -/
structure Registry where
  registered : List Builtin := []
  /-- the builtins that are searched, in order -/
  all : List Builtin := coreBuiltins

/-- the registry with the list to search made anew -/
def Registry.rebuild (r : Registry) : Registry :=
  { r with all := coreBuiltins ++ r.registered }

/-- the registry after a builtin is registered -/
def Registry.register (r : Registry) (b : Builtin) : Registry :=
  Registry.rebuild { r with registered := r.registered ++ [b] }

/-- the registry after builtins are registered, in order -/
def Registry.registerAll (r : Registry) (bs : List Builtin) : Registry :=
  bs.foldl Registry.register r

def Registry.lookup? (r : Registry) (uri : String) : Option Builtin :=
  r.all.find? (·.uri == uri)

/-- the builtin that a predicate names -/
def Registry.named? (r : Registry) : Term → Option Builtin
  | .iri uri => r.lookup? uri
  | _ => none

/-- the builtin that a predicate names, if the search for facts gives way to it. A builtin of three arguments does
not take part in the search; it is asked when a solution is complete -/
def Registry.searched? (r : Registry) (predicate : Term) : Option Builtin :=
  (r.named? predicate).filter (·.arity != .ternary)

/-- the IRIs of the builtins that are searched, in order -/
def Registry.uris (r : Registry) : List String :=
  r.all.map (·.uri)

end N3Rules
