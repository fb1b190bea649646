/-
Why an engine refuses or stops, and the words for it.
-/
import N3Rules.Bindings
import N3Rules.SyntaxError
import N3Rules.Text.Utf8

namespace N3Rules

/-- what an engine is ready for, or busy with -/
inductive Status where
  | idle
  | loading
  | ready
  | reasoning
  | done
  | failed
  deriving DecidableEq, Repr

def Status.name : Status → String
  | .idle => "Idle"
  | .loading => "Loading"
  | .ready => "Ready"
  | .reasoning => "Reasoning"
  | .done => "Done"
  | .failed => "Failed"

/-- why a run stops, with the number of the rule that it stops in -/
inductive RunFailure where
  /-- solving the antecedent gave a variable two values -/
  | conflict (rule : Nat) (c : Conflict)
  /-- the consequent gave a triple whose predicate no fact can have -/
  | predicate (rule : Nat) (term : Term)
  deriving DecidableEq

def RunFailure.message : RunFailure → String
  | .conflict rule c => s!"rule #{rule}: matching the antecedent failed: {c.message}"
  | .predicate rule term =>
    s!"rule #{rule}: instantiating the consequent failed: " ++
      s!"predicate position instantiated to {term.text}, expected an IRI or blank node"

/-- why an engine does not do what it is told -/
inductive Failure where
  | notText (fault : Text.Utf8Fault)
  | notDocument (e : SyntaxError)
  /-- the format has no reader -/
  | unsupportedFormat (name : String)
  | notReady (status : Status)
  | stopped (f : RunFailure)
  deriving DecidableEq

def Failure.message : Failure → String
  | .notText fault => s!"input is not UTF-8 text: {fault.message}"
  | .notDocument e => s!"parse error: {e.message}"
  | .unsupportedFormat name => s!"unsupported format `{name}`"
  | .notReady status => s!"engine is {status.name}; load an ontology before reasoning"
  | .stopped f => s!"reasoning failed: {f.message}"

end N3Rules
