/-
The moments at which somebody holds an engine.

The caller holds an engine before and after each command. A plugin holds it while it runs, before and after each
command of its own, and a load among these may run another plugin, and so on. `Held` lists these moments, with what has
changed the state of the engine by then. It leaves open what whoever holds the engine does next, so it covers plugins
that choose their commands by what they find.

- `Command.reading?`: what reading its text gives, for a command that loads one;
- `performWith?_of_reading`: a load is refused and changes nothing, or puts the document in place and runs the plugin;
- `performWith?_cases`: what the other commands do;
- `Turn`, `Reply.turns`: what changes the state of an engine;
- `Engine.performAll?`: commands of the caller, in order.
-/
import N3Rules.Engine
import N3Rules.Proofs.Run.Registry

namespace N3Rules

/-! ## Loading -/

/-- a text with the document that it is, or why it is none -/
def reading (text : String) : Except Failure (String × Document) :=
  match Document.ofText text with
  | .error err => .error (.notDocument err)
  | .ok d => .ok (text, d)

/-- what reading its text gives, for a command that loads one -/
def Command.reading? : Command → Option (Except Failure (String × Document))
  | .load text => some (reading text)
  | .loadAs text format =>
    match Format.ofName? format with
    | none => some (.error (.unsupportedFormat format))
    | some .n3 => some (reading text)
  | .loadBytes bytes =>
    match Text.decodeUtf8 bytes with
    | .error fault => some (.error (.notText fault))
    | .ok text => some (reading (String.ofList text))
  | _ => none

/-- the outcome of a load: it is refused and changes nothing, or the document is put in place and the plugin runs -/
def Engine.loaded? (run : Plugin → Engine → Option Engine) (e : Engine) :
    Except Failure (String × Document) → Option (Engine × Reply)
  | .error f => some (e, .failure f)
  | .ok (_, d) => ((e.accept d).runPlugin? run).map fun e => (e, .done)

theorem load?_eq (run : Plugin → Engine → Option Engine) (text : String) (e : Engine) :
    e.load? run text = e.loaded? run (reading text) := by
  unfold Engine.load? reading
  cases Document.ofText text with
  | error err => rfl
  | ok d => rfl

theorem performWith?_of_reading {c : Command} {r : Except Failure (String × Document)} (h : c.reading? = some r)
    (run : Plugin → Engine → Option Engine) (limit : Nat) (e : Engine) :
    e.performWith? run limit c = e.loaded? run r := by
  cases c with
  | load text =>
    cases h
    exact load?_eq run text e
  | loadAs text format =>
    simp only [Command.reading?] at h
    simp only [Engine.performWith?]
    split at h <;> cases h
    · simp_all [Engine.loaded?]
    · simp_all [load?_eq]
  | loadBytes bytes =>
    simp only [Command.reading?] at h
    simp only [Engine.performWith?]
    split at h <;> cases h
    · simp_all [Engine.loaded?]
    · simp_all [load?_eq]
  | _ => cases h

/-- what a command does that puts no document in place, in a run of at most `limit` sweeps if it runs the rules -/
inductive Engine.Told (limit : Nat) (e : Engine) : Command → Engine → Reply → Prop where
  | refused {c : Command} {f : Failure} : c.reading? = some (.error f) → Told limit e c e (.failure f)
  | notReady : e.state.runnable? = none → Told limit e .reason e (.failure (.notReady e.status))
  | finished {d : Document} {run : Run} {n : Nat} : e.state.runnable? = some d →
      Run.ofDocument? e.bus limit (e.rebuild.equip d) e.rebuild.context = some (.ok (run, n)) →
      Told limit e .reason { e with state := .done (e.rebuild.equip d), context := run.context }
        (.report (Report.ofRun (e.rebuild.equip d) run n))
  | stopped {d : Document} {s : Stopped} : e.state.runnable? = some d →
      Run.ofDocument? e.bus limit (e.rebuild.equip d) e.rebuild.context = some (.error s) →
      Told limit e .reason { e with state := .failed (e.rebuild.equip d), context := s.run.context }
        (.failure (.stopped s.failure))
  | registered (bs : List Builtin) : Told limit e (.register bs)
      { e with context := { e.context with registry := e.context.registry.registerAll bs } } .done
  | subscribed (s : Subscriber) : Told limit e (.subscribe s) { e with bus := e.bus.subscribe s } .done
  | installed (p : Plugin) : Told limit e (.install p) { e with plugin := some p } .done
  | document : Told limit e .document e (.document e.state.document?)
  | uris : Told limit e .uris e (.uris e.context.registry.uris)
  | config : Told limit e .config e (.config e.config)

theorem reason?_cases {limit : Nat} {e e' : Engine} {reply : Reply} (h : e.reason? limit = some (e', reply)) :
    e.Told limit .reason e' reply := by
  unfold Engine.reason? at h
  split at h
  · rename_i hrunnable
    cases h
    exact .notReady hrunnable
  · rename_i d hrunnable
    obtain ⟨r, hrun, hr⟩ := Option.map_eq_some_iff.1 h
    cases r with
    | ok r =>
      cases hr
      exact .finished hrunnable hrun
    | error s =>
      cases hr
      exact .stopped hrunnable hrun

theorem performWith?_cases {c : Command} (hc : ∀ r, c.reading? ≠ some (.ok r))
    {run : Plugin → Engine → Option Engine} {limit : Nat} {e e' : Engine} {reply : Reply}
    (h : e.performWith? run limit c = some (e', reply)) : e.Told limit c e' reply := by
  cases hr : c.reading? with
  | some r =>
    rw [performWith?_of_reading hr] at h
    cases r with
    | error f =>
      cases h
      exact .refused hr
    | ok r => exact absurd hr (hc r)
  | none =>
    cases c with
    | load text => cases hr
    | loadAs text format =>
      simp only [Command.reading?] at hr
      split at hr <;> cases hr
    | loadBytes bytes =>
      simp only [Command.reading?] at hr
      split at hr <;> cases hr
    | reason => exact reason?_cases h
    | register bs =>
      cases h
      exact .registered bs
    | subscribe s =>
      cases h
      exact .subscribed s
    | install p =>
      cases h
      exact .installed p
    | document =>
      cases h
      exact .document
    | uris =>
      cases h
      exact .uris
    | config =>
      cases h
      exact .config

/-! ## Moments -/

/-- what changes the state of an engine -/
inductive Turn where
  /-- a text that is loaded is a document -/
  | parsed (text : String)
  /-- a run of the rules comes to its end -/
  | finished
  /-- a run of the rules stops at a failure -/
  | stopped
  deriving DecidableEq, Repr

/-- the turns that a reply tells of, for a command that puts no document in place -/
def Reply.turns : Reply → List Turn
  | .report _ => [.finished]
  | .failure (.stopped _) => [.stopped]
  | _ => []

/-- somebody holds the engine after some turns, the latest first, while some plugins run, the innermost first -/
inductive Held (config : Config) : List Turn → List Plugin → Engine → Prop where
  /-- the caller, when the engine is new -/
  | start : Held config [] [] { config }
  /-- whoever held the engine, after a command that puts no document in place -/
  | told {ts : List Turn} {ps : List Plugin} {e e' : Engine} {c : Command}
      {run : Plugin → Engine → Option Engine} {limit : Nat} {reply : Reply} : Held config ts ps e →
      (∀ r, c.reading? ≠ some (.ok r)) → e.performWith? run limit c = some (e', reply) →
      Held config (reply.turns ++ ts) ps e'
  /-- whoever held the engine, after a load that runs no plugin -/
  | loaded {ts : List Turn} {ps : List Plugin} {e : Engine} {c : Command} {text : String} {d : Document} :
      Held config ts ps e → c.reading? = some (.ok (text, d)) → e.plugin = none →
      Held config (.parsed text :: ts) ps (e.accept d)
  /-- a plugin, when a load runs it -/
  | entered {ts : List Turn} {ps : List Plugin} {e : Engine} {c : Command} {text : String} {d : Document}
      {p : Plugin} : Held config ts ps e → c.reading? = some (.ok (text, d)) → e.plugin = some p →
      Held config (.parsed text :: ts) (p :: ps) ((e.accept d).enter p)
  /-- a plugin, after it noted something in the log -/
  | noted {ts : List Turn} {ps : List Plugin} {p : Plugin} {e : Engine} (entry : Entry) :
      Held config ts (p :: ps) e → Held config ts (p :: ps) (e.record entry)
  /-- whoever loaded the document, when the plugin is through -/
  | left {ts : List Turn} {ps : List Plugin} {p : Plugin} {e : Engine} : Held config ts (p :: ps) e →
      Held config ts ps (e.leave p)

/-! ## Depth -/

theorem Plugin.depth_eq (p : Plugin) : p.depth = Command.maxDepth p.steps + 1 := by
  obtain ⟨name, steps⟩ := p
  rw [Plugin.depth, Plugin.steps]

theorem Engine.depth_le_iff {e : Engine} {depth : Nat} : e.depth ≤ depth ↔ ∀ p ∈ e.plugin, p.depth ≤ depth := by
  unfold Engine.depth
  cases e.plugin <;> simp

theorem Engine.Told.depth_le {depth limit : Nat} {e e' : Engine} {c : Command} {reply : Reply}
    (h : e.Told limit c e' reply) (he : e.depth ≤ depth) (hc : c.depth ≤ depth) : e'.depth ≤ depth := by
  cases h with
  | installed p =>
    rw [Command.depth] at hc
    simpa [Engine.depth] using hc
  | _ => exact he

/-! ## Commands in a row -/

/-- the engine after commands, in order, if no run in them has more than `limit` sweeps -/
def Engine.performAll? (limit : Nat) (e : Engine) (cs : List Command) : Option Engine :=
  cs.foldlM (fun e c => (e.perform? limit c).map (·.1)) e

end N3Rules
