/-
The engine: a document that is loaded, put through its rules and loaded anew.

- `Command`: what an engine can be told, and `Plugin`: commands that it carries out by itself after every load;
- `Engine.perform?`: the engine after a command, and what the command gave back.

A load that fails changes nothing. A plugin is taken out while it runs and put back afterwards, unless it has put
another in its place; so it never runs inside its own run, however deep the loads in it nest.
-/
import N3Rules.Run

namespace N3Rules

mutual

/-- what an engine can be told -/
inductive Command where
  | load (text : String)
  | loadAs (text : String) (format : String)
  | loadBytes (bytes : List UInt8)
  | reason
  | register (builtins : List Builtin)
  | subscribe (s : Subscriber)
  /-- put a plugin in the place of the present one -/
  | install (p : Plugin)
  /-- tell the loaded document -/
  | document
  /-- tell the IRIs of the builtins -/
  | uris
  /-- tell the set-up -/
  | config

/-- commands to be carried out after every load -/
inductive Plugin where
  | mk (name : String) (steps : List Command)

end

def Plugin.name : Plugin → String
  | ⟨name, _⟩ => name

def Plugin.steps : Plugin → List Command
  | ⟨_, steps⟩ => steps

mutual

/-- how deep plugins nest in a command -/
def Command.depth : Command → Nat
  | .install p => p.depth
  | _ => 0

def Command.maxDepth : List Command → Nat
  | [] => 0
  | c :: cs => max c.depth (Command.maxDepth cs)

def Plugin.depth : Plugin → Nat
  | ⟨_, steps⟩ => Command.maxDepth steps + 1

end

/-- the document of an engine, and what became of it -/
inductive State where
  | idle
  /-- a text is being read, and the document from before, if there is one, is still in place -/
  | loading (previous : Option Document)
  | ready (d : Document)
  /-- the rules of the document are being run -/
  | reasoning (d : Document)
  | done (d : Document)
  | failed (d : Document)

def State.status : State → Status
  | .idle => .idle
  | .loading _ => .loading
  | .ready _ => .ready
  | .reasoning _ => .reasoning
  | .done _ => .done
  | .failed _ => .failed

def State.document? : State → Option Document
  | .idle => none
  | .loading previous => previous
  | .ready d | .reasoning d | .done d | .failed d => some d

/-- the document whose rules can be run in a state -/
def State.runnable? : State → Option Document
  | .ready d | .done d => some d
  | .idle | .loading _ | .reasoning _ | .failed _ => none

structure Engine where
  config : Config := {}
  state : State := .idle
  context : Context := {}
  bus : Bus := {}
  /-- the plugin that the next load runs -/
  plugin : Option Plugin := none

def Engine.status (e : Engine) : Status :=
  e.state.status

/-- the engine after something happened -/
def Engine.record (e : Engine) (entry : Entry) : Engine :=
  { e with context := e.context.record [entry] }

/-- the engine with the list of builtins made anew -/
def Engine.rebuild (e : Engine) : Engine :=
  { e with context := { e.context with registry := e.context.registry.rebuild } }

/-- the document with the builtins of an engine -/
def Engine.equip (e : Engine) (d : Document) : Document :=
  { d with builtins := e.context.registry.all }

/-- the engine with a document in place, and its subscribers told -/
def Engine.accept (e : Engine) (d : Document) : Engine :=
  let e := e.rebuild
  let d := e.equip d
  { e with state := .ready d, context := e.bus.announce (.afterLoad d) e.context }

/-- the engine after the rules of its document are run, if the run has at most `limit` sweeps -/
def Engine.reason? (limit : Nat) (e : Engine) : Option (Engine × Reply) :=
  match e.state.runnable? with
  | none => some (e, .failure (.notReady e.status))
  | some d =>
    let e := e.rebuild
    let d := e.equip d
    let e := { e with state := .reasoning d }
    (Run.ofDocument? e.bus limit d e.context).map fun
      | .ok (run, sweeps) =>
        ({ e with state := .done d, context := run.context }, .report (Report.ofRun d run sweeps))
      | .error s => ({ e with state := .failed d, context := s.run.context }, .failure (.stopped s.failure))

/-- the engine when a plugin takes it over: the plugin is taken out -/
def Engine.enter (e : Engine) (p : Plugin) : Engine :=
  ({ e with plugin := none } : Engine).record (.entered p.name e.status)

/-- the engine when a plugin gives it back: the plugin is put back, unless there is another in its place -/
def Engine.leave (e : Engine) (p : Plugin) : Engine :=
  { e with plugin := some (e.plugin.getD p) }

/-- the engine after its plugin ran, if it has one, where `run` runs a plugin -/
def Engine.runPlugin? (run : Plugin → Engine → Option Engine) (e : Engine) : Option Engine :=
  match e.plugin with
  | none => some e
  | some p => run p e

/-- the engine after a text is loaded, where `run` runs a plugin -/
def Engine.load? (run : Plugin → Engine → Option Engine) (text : String) (e : Engine) :
    Option (Engine × Reply) :=
  let before := e.state
  let e := { e with state := .loading before.document? }
  match Document.ofText text with
  | .error err => some ({ e with state := before }, .failure (.notDocument err))
  | .ok d => ((e.accept d).runPlugin? run).map fun e => (e, .done)

/-- the engine after a command, where `run` runs a plugin -/
def Engine.performWith? (run : Plugin → Engine → Option Engine) (limit : Nat) (e : Engine) :
    Command → Option (Engine × Reply)
  | .load text => e.load? run text
  | .loadAs text format =>
    match Format.ofName? format with
    | none => some (e, .failure (.unsupportedFormat format))
    | some .n3 => e.load? run text
  | .loadBytes bytes =>
    match Text.decodeUtf8 bytes with
    | .error fault => some (e, .failure (.notText fault))
    | .ok text => e.load? run (String.ofList text)
  | .reason => e.reason? limit
  | .register bs =>
    some ({ e with context := { e.context with registry := e.context.registry.registerAll bs } }, .done)
  | .subscribe s => some ({ e with bus := e.bus.subscribe s }, .done)
  | .install p => some ({ e with plugin := some p }, .done)
  | .document => some (e, .document e.state.document?)
  | .uris => some (e, .uris e.context.registry.uris)
  | .config => some (e, .config e.config)

/-- the engine after a plugin ran, for plugins that nest at most so deep -/
def Plugin.run? (limit : Nat) : Nat → Plugin → Engine → Option Engine
  | 0, _, e => some e
  | depth + 1, p, e => do
    let e ← p.steps.foldlM
      (fun e step => do
        let (e, reply) ← e.performWith? (Plugin.run? limit depth) limit step
        return e.record (.stepped p.name reply))
      (e.enter p)
    return e.leave p

/-- how deep the plugin of an engine nests -/
def Engine.depth (e : Engine) : Nat :=
  (e.plugin.map Plugin.depth).getD 0

/-- the engine after a command, and what the command gives back, if no run in it has more than `limit` sweeps -/
def Engine.perform? (limit : Nat) (e : Engine) (c : Command) : Option (Engine × Reply) :=
  e.performWith? (Plugin.run? limit (max e.depth c.depth)) limit c

end N3Rules
