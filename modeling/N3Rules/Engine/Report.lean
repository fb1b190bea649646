/-
What a run reports: all facts, the rules, and the builtins that there are.
-/
import N3Rules.Json.Write
import N3Rules.Term.Written

namespace N3Rules

/-- the result of a run, in its written form -/
structure Report where
  /-- the facts, the stated ones first -/
  triples : List String
  /-- how many of the facts rules concluded -/
  inferred : Nat
  /-- how often all rules were applied -/
  sweeps : Nat
  rules : List String
  builtins : List String
  deriving DecidableEq, Repr

def Report.message (r : Report) : String :=
  s!"Reasoning complete: {r.triples.length} triples ({r.inferred} inferred) after {r.sweeps} sweeps"

/-- the report as lines, one a fact, each ended by a line feed -/
def Report.lines (r : Report) : String :=
  String.join (r.triples.map (· ++ "\n"))

def Report.json (r : Report) : String :=
  let strings := fun items : List String => Json.writtenArray 1 (items.map Json.writtenString)
  Json.writtenObject 0
    [("message", Json.writtenString r.message), ("triples", strings r.triples), ("rules", strings r.rules),
      ("builtins", strings r.builtins)]

end N3Rules
