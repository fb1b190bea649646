/-
What happens in an engine, as a log that only grows.

- `Notice`: what subscribers are told, and `Occasion`: the kind of it;
- `Reply`: what a command gives back;
- `Entry`: calls of builtins, notices given and received, and the doings of plugins, in the order in which they
  happen.
-/
import N3Rules.Config
import N3Rules.Document
import N3Rules.Engine.Failure
import N3Rules.Engine.Report
import N3Rules.FactBase
import N3Rules.Solve

namespace N3Rules

/-- when subscribers are told something -/
inductive Occasion where
  | beforeReason
  | afterReason
  | afterRuleApplied
  | afterLoad
  deriving DecidableEq, Repr

def Occasion.name : Occasion → String
  | .beforeReason => "beforeReason"
  | .afterReason => "afterReason"
  | .afterRuleApplied => "afterRuleApplied"
  | .afterLoad => "afterLoadOntology"

/-- what subscribers are told -/
inductive Notice where
  /-- a run of a document's rules starts -/
  | beforeReason (document : Document)
  /-- a run came to its end with these facts -/
  | afterReason (facts : FactBase)
  /-- a rule concluded a new fact under bindings -/
  | afterRuleApplied (rule : Rule) (triple : Triple) (bindings : Bindings)
  | afterLoad (document : Document)

def Notice.occasion : Notice → Occasion
  | .beforeReason _ => .beforeReason
  | .afterReason _ => .afterReason
  | .afterRuleApplied .. => .afterRuleApplied
  | .afterLoad _ => .afterLoad

/-- what a command gives back -/
inductive Reply where
  | done
  | report (r : Report)
  | failure (f : Failure)
  | document (d : Option Document)
  | uris (names : List String)
  | config (c : Config)

/-- one thing that happened -/
inductive Entry where
  | called (call : Call)
  | announced (notice : Notice)
  | heard (subscriber : String) (notice : Notice)
  /-- a plugin started to run, in an engine of this status -/
  | entered (plugin : String) (status : Status)
  /-- a command of a plugin was carried out -/
  | stepped (plugin : String) (reply : Reply)

/-- all that happened, in order -/
abbrev Log := Array Entry

end N3Rules
