/-
Running rules on facts until nothing new comes of it.

The facts that a document states are stored first. A sweep applies every rule in turn to the facts stored by then;
what a rule concludes is stored at once, but does not count for the application that it comes from. A sweep that
stores nothing new is the last.

- `Run.apply`: one application of a rule; the registry it goes by is the one from before it;
- `Run.sweep`: every rule in turn;
- `saturate?`: sweeps up to the last, if a limit on their number allows it;
- `Run.ofDocument?`: the whole run, notices at its start and end included.

Rules may build ever larger terms, so a run need not come to an end. The result is `none` when the limit is too low.
-/
import N3Rules.Engine.Bus

namespace N3Rules

/-- the facts stored so far, and the context -/
structure Run where
  store : FactBase
  context : Context

structure Stopped where
  run : Run
  failure : RunFailure

/-- whether a fact may have a term as its predicate -/
def Term.canBePredicate : Term → Bool
  | .iri _ | .blank _ => true
  | _ => false

def Run.recordCalls (run : Run) (calls : List Call) : Run :=
  { run with context := run.context.record (calls.map .called) }

/-- the run after a rule gave a triple under bindings. A triple with variables is passed over; a new fact is stored
and announced -/
def Run.conclude (bus : Bus) (index : Nat) (rule : Rule) (b : Bindings) (run : Run) (t : Triple) :
    Except Stopped Run :=
  if !t.isGround then .ok run
  else if !t.predicate.canBePredicate then .error ⟨run, .predicate index t.predicate⟩
  else
    match run.store.insert? t .inferred with
    | none => .ok run
    | some store => .ok ⟨store, bus.announce (.afterRuleApplied rule t b) run.context⟩

/-- the run after a rule is applied under one solution of its antecedent -/
def Run.fire (bus : Bus) (index : Nat) (rule : Rule) (registry : Registry) (run : Run) (b : Bindings) :
    Except Stopped Run :=
  let run := run.recordCalls (confirmCalls registry rule.antecedent.triples b)
  if confirmed registry rule.antecedent.triples b then
    (rule.consequent.triples.map (Triple.instantiate b)).foldlM (Run.conclude bus index rule b) run
  else .ok run

/-- the run after a rule is applied -/
def Run.apply (bus : Bus) (index : Nat) (rule : Rule) (run : Run) : Except Stopped Run :=
  let registry := run.context.registry
  let data := run.store.triples
  let run := run.recordCalls (solveCalls data registry rule.antecedent.triples {})
  match solve data registry rule.antecedent.triples {} with
  | .error c => .error ⟨run, .conflict index c⟩
  | .ok found => found.foldlM (Run.fire bus index rule registry) run

/-- the run after every rule is applied in turn -/
def Run.sweep (bus : Bus) (rules : List Rule) (run : Run) : Except Stopped Run :=
  rules.zipIdx.foldlM (fun run r => run.apply bus r.2 r.1) run

/-- the run after its last sweep, with the number of sweeps, if there are at most `limit` of them -/
def saturate? (bus : Bus) (rules : List Rule) : Nat → Run → Option (Except Stopped (Run × Nat))
  | 0, _ => none
  | limit + 1, run =>
    match run.sweep bus rules with
    | .error s => some (.error s)
    | .ok next =>
      if next.store.size = run.store.size then some (.ok (next, 1))
      else (saturate? bus rules limit next).map fun r => r.map fun (last, sweeps) => (last, sweeps + 1)

/-- the run of a document before its first sweep -/
def Run.start (bus : Bus) (d : Document) (c : Context) : Run :=
  ⟨FactBase.ofAsserted d.triples, bus.announce (.beforeReason d) c⟩

/-- the run after its end is announced -/
def Run.finish (bus : Bus) (run : Run) : Run :=
  { run with context := bus.announce (.afterReason run.store) run.context }

/-- the whole run of a document, with the number of sweeps, if there are at most `limit` of them -/
def Run.ofDocument? (bus : Bus) (limit : Nat) (d : Document) (c : Context) : Option (Except Stopped (Run × Nat)) :=
  (saturate? bus d.rules limit (Run.start bus d c)).map fun r =>
    r.map fun (run, sweeps) => (run.finish bus, sweeps)

/-- the triples whose key is not among those seen and has not come before, in order -/
def unrepeated (seen : Std.TreeSet String) : List Triple → List Triple
  | [] => []
  | t :: ts => if seen.contains t.key then unrepeated seen ts else t :: unrepeated (seen.insert t.key) ts

/-- what a finished run reports -/
def Report.ofRun (d : Document) (run : Run) (sweeps : Nat) : Report where
  triples := (unrepeated {} run.store.triples).map Triple.text
  inferred := run.store.inferred.length
  sweeps := sweeps
  rules := d.rules.map Rule.text
  builtins := run.context.registry.uris

end N3Rules
