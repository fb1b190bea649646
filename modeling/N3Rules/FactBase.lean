/-
The facts of one run: numbered in the order in which they came, with where they came from, and no two with one key.

- `FactBase.insert?`: one more fact, unless there is one with its key;
- `triples_of_insert?`: a fact that is taken comes last, and nothing else changes.
-/
import N3Rules.Term.Written
import Std.Data.TreeSet

namespace N3Rules

/-- where a fact comes from -/
inductive Origin where
  /-- the document states it -/
  | asserted
  /-- a rule concludes it -/
  | inferred
  deriving DecidableEq, Repr

structure Fact where
  triple : Triple
  id : Nat
  origin : Origin
  deriving DecidableEq

/-- facts in order, and their keys -/
structure FactBase where
  facts : Array Fact := #[]
  keys : Std.TreeSet String := {}

/-- whether there is a fact with the key of a triple -/
def FactBase.contains (s : FactBase) (t : Triple) : Bool :=
  s.keys.contains t.key

/-- the store with one more fact, or none when there is a fact with its key -/
def FactBase.insert? (s : FactBase) (t : Triple) (origin : Origin) : Option FactBase :=
  if s.contains t then none
  else some ⟨s.facts.push ⟨t, s.facts.size, origin⟩, s.keys.insert t.key⟩

/-- the store with one more fact, unless there is a fact with its key -/
def FactBase.insert (s : FactBase) (t : Triple) (origin : Origin) : FactBase :=
  (s.insert? t origin).getD s

/-- the store of the facts that a document states -/
def FactBase.ofAsserted (ts : List Triple) : FactBase :=
  ts.foldl (·.insert · .asserted) {}

def FactBase.size (s : FactBase) : Nat :=
  s.facts.size

def FactBase.triples (s : FactBase) : List Triple :=
  s.facts.toList.map (·.triple)

/-- the facts that rules concluded, in order -/
def FactBase.inferred (s : FactBase) : List Triple :=
  (s.facts.toList.filter (·.origin = .inferred)).map (·.triple)

/-- a fact that is taken comes last -/
theorem FactBase.triples_of_insert? {s s' : FactBase} {t : Triple} {origin : Origin}
    (h : s.insert? t origin = some s') : s'.triples = s.triples ++ [t] := by
  unfold FactBase.insert? at h
  split at h
  · cases h
  · cases h
    simp [FactBase.triples]

theorem FactBase.size_of_insert? {s s' : FactBase} {t : Triple} {origin : Origin}
    (h : s.insert? t origin = some s') : s'.size = s.size + 1 := by
  unfold FactBase.insert? at h
  split at h
  · cases h
  · cases h
    simp [FactBase.size]

end N3Rules
