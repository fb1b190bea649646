/-
Subscribers, and the bus that tells them.

A notice reaches every subscriber to its occasion once, in the order in which they subscribed. A subscriber may
register builtins. Whether it succeeds, fails or breaks down is noted by nobody.
-/
import N3Rules.Engine.Log

namespace N3Rules

/-- how a subscriber ends -/
inductive Verdict where
  | ok
  | failed
  | crashed
  deriving DecidableEq, Repr

/-- what a subscriber does: the builtins it registers, in order, and how it ends -/
structure Reaction where
  registers : List Builtin := []
  verdict : Verdict := .ok

/-- a subscriber to an occasion. What it does depends on the log before the notice, the notice and the registry -/
structure Subscriber where
  occasion : Occasion
  name : String
  react : Log → Notice → Registry → Reaction

/-- the subscribers, in the order in which they subscribed -/
structure Bus where
  subscribers : List Subscriber := []

/-- what subscribers can change, and what they know: the registry and the log -/
structure Context where
  registry : Registry := {}
  log : Log := #[]

def Context.record (c : Context) (entries : List Entry) : Context :=
  { c with log := c.log ++ entries }

def Bus.subscribe (bus : Bus) (s : Subscriber) : Bus :=
  ⟨bus.subscribers ++ [s]⟩

def Bus.audience (bus : Bus) (o : Occasion) : List Subscriber :=
  bus.subscribers.filter (·.occasion = o)

/-- the context after a subscriber received a notice -/
def Context.hear (notice : Notice) (c : Context) (s : Subscriber) : Context :=
  let reaction := s.react c.log notice c.registry
  { c.record [.heard s.name notice] with registry := c.registry.registerAll reaction.registers }

/-- the context after a notice is given -/
def Bus.announce (bus : Bus) (notice : Notice) (c : Context) : Context :=
  (bus.audience notice.occasion).foldl (Context.hear notice) (c.record [.announced notice])

end N3Rules
