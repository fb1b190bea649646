/-
Subscribers cannot disturb an inference in flight.

While a rule is applied, subscribers are told of every fact that it stores, and may register builtins or break down. The
application goes by the registry from before it; so whoever listens, it stores the same facts in the same order, or stops
at the same failure. Only later applications see what was registered. Where nobody registers anything, a run is the same as
without subscribers, but for the entries that say who heard of it.

- `Alike`: two steps end in alike runs, or stop there with the same failure;
- `Lasting`: a likeness of runs under two buses that survives whatever a step does;
- `apply_alike`: of alike runs with one registry, an application makes alike runs;
- `saturate?_alike`, `ofDocument?_alike`: so do sweeps, and the whole run of a document, if the registries stay the same;
- `inference_undisturbed`: both results, for the engine.
-/
import N3Rules.Proofs.Engine.Notices
import N3Rules.Proofs.Run.Monotone

namespace N3Rules

/-! ## Alike runs -/

/-- two steps end alike: both give results of which `P` holds, or both stop, with the same failure, at runs of which `Q`
holds -/
inductive Alike {α : Type} (Q : Run → Run → Prop) (P : α → α → Prop) : Except Stopped α → Except Stopped α → Prop where
  | ok {x y : α} : P x y → Alike Q P (.ok x) (.ok y)
  | stopped {s s' : Stopped} : Q s.run s'.run → s.failure = s'.failure → Alike Q P (.error s) (.error s')

theorem Alike.map {α β : Type} {Q : Run → Run → Prop} {P : α → α → Prop} {P' : β → β → Prop} {x y : Except Stopped α}
    (h : Alike Q P x y) {f f' : α → β} (hf : ∀ a b, P a b → P' (f a) (f' b)) : Alike Q P' (x.map f) (y.map f') := by
  cases h with
  | ok hp => exact .ok (hf _ _ hp)
  | stopped hq hfailure => exact .stopped hq hfailure

/-- where steps make alike runs of alike runs, so does a fold over them -/
theorem foldlM_alike {α : Type} {Q : Run → Run → Prop} {f f' : Run → α → Except Stopped Run} {xs : List α}
    (step : ∀ x ∈ xs, ∀ run run', Q run run' → Alike Q Q (f run x) (f' run' x)) {run run' : Run} (h : Q run run') :
    Alike Q Q (xs.foldlM f run) (xs.foldlM f' run') := by
  induction xs generalizing run run' with
  | nil => exact .ok h
  | cons x xs ih =>
    have hrest : ∀ y ∈ xs, ∀ run run', Q run run' → Alike Q Q (f run y) (f' run' y) :=
      fun y hy => step y (List.mem_cons_of_mem x hy)
    have hx := step x List.mem_cons_self run run' h
    rw [List.foldlM_cons, List.foldlM_cons]
    generalize f run x = r, f' run' x = r' at hx ⊢
    cases hx with
    | ok hnext => exact ih hrest hnext
    | stopped hq hfailure => exact .stopped hq hfailure

/-- alike runs have the same facts, and whatever a step does leaves them alike: to note calls of builtins, and to store a
fact and give a notice -/
structure Lasting (bus bus' : Bus) (Q : Run → Run → Prop) : Prop where
  store : ∀ {run run' : Run}, Q run run' → run.store = run'.store
  calls : ∀ {run run' : Run} (cs : List Call), Q run run' → Q (run.recordCalls cs) (run'.recordCalls cs)
  told : ∀ {run run' : Run} (store : FactBase) (notice : Notice), Q run run' →
    Q ⟨store, bus.announce notice run.context⟩ ⟨store, bus'.announce notice run'.context⟩

section Steps

variable {bus bus' : Bus} {Q : Run → Run → Prop} (hq : Lasting bus bus' Q)

include hq

theorem conclude_alike (index : Nat) (rule : Rule) (b : Bindings) (t : Triple) {run run' : Run} (h : Q run run') :
    Alike Q Q (run.conclude bus index rule b t) (run'.conclude bus' index rule b t) := by
  unfold Run.conclude
  rw [← hq.store h]
  split_ifs
  · exact .ok h
  · exact .stopped h rfl
  · cases run.store.insert? t .inferred with
    | none => exact .ok h
    | some store => exact .ok (hq.told store _ h)

theorem fire_alike (index : Nat) (rule : Rule) (registry : Registry) (b : Bindings) {run run' : Run} (h : Q run run') :
    Alike Q Q (run.fire bus index rule registry b) (run'.fire bus' index rule registry b) := by
  have hcalls := hq.calls (confirmCalls registry rule.antecedent.triples b) h
  unfold Run.fire
  by_cases hb : confirmed registry rule.antecedent.triples b = true
  · rw [if_pos hb, if_pos hb]
    exact foldlM_alike (fun t _ _ _ => conclude_alike hq index rule b t) hcalls
  · rw [if_neg hb, if_neg hb]
    exact .ok hcalls

/-- an application fires the solutions that it found at its start, by the registry that it found there -/
theorem apply_alike (index : Nat) (rule : Rule) {run run' : Run} (h : Q run run')
    (hregistry : run.context.registry = run'.context.registry) :
    Alike Q Q (run.apply bus index rule) (run'.apply bus' index rule) := by
  rw [apply_eq, apply_eq, ← hq.store h, ← hregistry]
  exact foldlM_alike (fun b _ _ _ => fire_alike hq index rule run.context.registry b) (hq.calls _ h)

variable (hregistry : ∀ {run run' : Run}, Q run run' → run.context.registry = run'.context.registry)

include hregistry

theorem sweep_alike (rules : List Rule) {run run' : Run} (h : Q run run') :
    Alike Q Q (run.sweep bus rules) (run'.sweep bus' rules) :=
  foldlM_alike (fun r _ _ _ hr => apply_alike hq r.2 r.1 hr (hregistry hr)) h

/-- alike runs are done after the same number of sweeps -/
theorem saturate?_alike (rules : List Rule) (limit : Nat) {run run' : Run} (h : Q run run') :
    Option.Rel (Alike Q fun x y => Q x.1 y.1 ∧ x.2 = y.2) (saturate? bus rules limit run)
      (saturate? bus' rules limit run') := by
  induction limit generalizing run run' with
  | zero => exact .none
  | succ limit ih =>
    have hsweep := sweep_alike hq hregistry rules h
    simp only [saturate?]
    generalize run.sweep bus rules = r, run'.sweep bus' rules = r' at hsweep ⊢
    cases hsweep with
    | stopped hs hfailure => exact .some (.stopped hs hfailure)
    | @ok next next' hnext =>
      dsimp only
      rw [← hq.store hnext, ← hq.store h]
      by_cases hsize : next.store.size = run.store.size
      · rw [if_pos hsize, if_pos hsize]
        exact .some (.ok ⟨hnext, rfl⟩)
      · rw [if_neg hsize, if_neg hsize]
        have hrest := ih hnext
        generalize saturate? bus rules limit next = r, saturate? bus' rules limit next' = r' at hrest ⊢
        cases hrest with
        | none => exact .none
        | some hlast => exact .some (hlast.map fun x y hxy => ⟨hxy.1, congrArg (· + 1) hxy.2⟩)

theorem ofDocument?_alike (limit : Nat) (d : Document) {c c' : Context} (h : ∀ store, Q ⟨store, c⟩ ⟨store, c'⟩) :
    Option.Rel (Alike Q fun x y => Q x.1 y.1 ∧ x.2 = y.2) (Run.ofDocument? bus limit d c)
      (Run.ofDocument? bus' limit d c') := by
  have hstart : Q (Run.start bus d c) (Run.start bus' d c') := hq.told _ _ (h (FactBase.ofAsserted d.triples))
  have hall := saturate?_alike hq hregistry d.rules limit hstart
  unfold Run.ofDocument?
  generalize saturate? bus d.rules limit (Run.start bus d c) = r,
    saturate? bus' d.rules limit (Run.start bus' d c') = r' at hall ⊢
  cases hall with
  | none => exact .none
  | some hlast =>
    refine .some (hlast.map ?_)
    rintro ⟨run, n⟩ ⟨run', n'⟩ ⟨hrun, hn⟩
    have hfinish : Q (run.finish bus) (run'.finish bus') := by
      unfold Run.finish
      rw [← hq.store hrun]
      exact hq.told run.store _ hrun
    exact ⟨hfinish, hn⟩

end Steps

/-! ## What subscribers leave behind -/

/-- whether an entry says that a subscriber received a notice -/
def Entry.isHeard : Entry → Bool
  | .heard .. => true
  | _ => false

/-- a context without the entries that say who received a notice -/
def Context.unheard (c : Context) : Context :=
  { c with log := c.log.filter fun entry => !entry.isHeard }

/-- runs with the same facts -/
def Run.SameFacts (run run' : Run) : Prop :=
  run.store = run'.store

/-- runs that differ in nothing but who received the notices -/
structure Run.SameUnheard (run run' : Run) : Prop where
  store : run.store = run'.store
  context : run.context.unheard = run'.context.unheard

/-- whoever listens, and whatever they do, runs with the same facts go on with the same facts -/
theorem lasting_sameFacts (bus bus' : Bus) : Lasting bus bus' Run.SameFacts :=
  ⟨id, fun _ h => h, fun _ _ _ => rfl⟩

theorem Context.unheard_record (c : Context) (entries : List Entry) :
    (c.record entries).unheard = c.unheard.record (entries.filter fun entry => !entry.isHeard) := by
  have hlog : (c.log ++ entries).filter (fun entry => !entry.isHeard) =
      c.log.filter (fun entry => !entry.isHeard) ++ entries.filter (fun entry => !entry.isHeard) := by
    rw [← Array.toList_inj]
    simp
  simp [Context.unheard, Context.record, hlog]

/-- a notice that nobody answers with a registration leaves nothing behind but who received it -/
theorem Bus.Silent.unheard_announce {bus : Bus} (h : bus.Silent) (notice : Notice) (c : Context) :
    (bus.announce notice c).unheard = c.unheard.record [.announced notice] := by
  have hcontext : bus.announce notice c = c.record (bus.delivery notice) := by
    have hlog : (bus.announce notice c).log = c.log ++ bus.delivery notice := by
      rw [← Array.toList_inj, bus.log_announce, Array.toList_appendList]
    have hregistry := h.announce notice c
    generalize bus.announce notice c = next at hlog hregistry
    obtain ⟨registry, log⟩ := next
    obtain rfl : registry = c.registry := hregistry
    obtain rfl : log = c.log ++ bus.delivery notice := hlog
    rfl
  have hheard : ((bus.audience notice.occasion).map fun s => Entry.heard s.name notice).filter
      (fun entry => !entry.isHeard) = [] := by
    simp [List.filter_eq_nil_iff, Entry.isHeard]
  rw [hcontext, Context.unheard_record, Bus.delivery, List.filter_cons, hheard]
  rfl

theorem Run.SameUnheard.registry {run run' : Run} (h : run.SameUnheard run') :
    run.context.registry = run'.context.registry := by
  have hregistry : run.context.unheard.registry = run'.context.unheard.registry := by rw [h.context]
  exact hregistry

theorem Run.SameUnheard.report {run run' : Run} (h : run.SameUnheard run') (d : Document) (n : Nat) :
    Report.ofRun d run n = Report.ofRun d run' n := by
  unfold Report.ofRun
  rw [h.store, h.registry]

/-- where nobody registers anything, whoever listens makes no difference but to who received the notices -/
theorem lasting_sameUnheard {bus bus' : Bus} (h : bus.Silent) (h' : bus'.Silent) :
    Lasting bus bus' Run.SameUnheard where
  store hrun := hrun.store
  calls cs hrun := by
    refine ⟨hrun.store, ?_⟩
    simp only [Run.recordCalls]
    rw [Context.unheard_record, Context.unheard_record, hrun.context]
  told store notice hrun := by
    refine ⟨rfl, ?_⟩
    rw [h.unheard_announce, h'.unheard_announce, hrun.context]

/-! ## The engine -/

/-- an engine that nobody listens to -/
def Engine.unsubscribed (e : Engine) : Engine :=
  { e with bus := {} }

/-- an engine without its subscribers, and without the entries that say what they received -/
def Engine.unheard (e : Engine) : Engine :=
  { e with bus := {}, context := e.context.unheard }

/-- an engine at the end of a run of its document's rules, and what it replies -/
def Engine.ended (e : Engine) (d : Document) : Except Stopped (Run × Nat) → Engine × Reply
  | .ok (run, n) => ({ e with state := .done d, context := run.context }, .report (Report.ofRun d run n))
  | .error s => ({ e with state := .failed d, context := s.run.context }, .failure (.stopped s.failure))

theorem reason?_of_runnable {e : Engine} {d : Document} (h : e.state.runnable? = some d) (limit : Nat) :
    e.reason? limit =
      (Run.ofDocument? e.bus limit (e.rebuild.equip d) e.rebuild.context).map (e.ended (e.rebuild.equip d)) := by
  unfold Engine.reason?
  rw [h]
  refine congrArg (Option.map · _) ?_
  funext r
  rcases r with s | ⟨run, n⟩ <;> rfl

theorem ended_alike {r r' : Except Stopped (Run × Nat)}
    (h : Alike Run.SameUnheard (fun x y => Run.SameUnheard x.1 y.1 ∧ x.2 = y.2) r r') (e : Engine) (d : Document) :
    ((e.ended d r).1.unheard, (e.ended d r).2) =
      ((e.unsubscribed.ended d r').1.unheard, (e.unsubscribed.ended d r').2) := by
  cases h with
  | @ok x y hlast =>
    obtain ⟨run, n⟩ := x
    obtain ⟨run', n'⟩ := y
    obtain ⟨hrun, rfl⟩ := hlast
    simp only [Engine.ended, Engine.unheard, Engine.unsubscribed, hrun.context, hrun.report]
  | stopped hrun hfailure =>
    simp only [Engine.ended, Engine.unheard, Engine.unsubscribed, hrun.context, hfailure]

/-- where nobody registers anything, running the rules of an engine gives the same reply and the same engine as if nobody
listened, but for who received the notices -/
theorem reason?_unheard {e : Engine} (h : e.bus.Silent) (limit : Nat) :
    (e.reason? limit).map (fun r => (r.1.unheard, r.2)) =
      (e.unsubscribed.reason? limit).map fun r => (r.1.unheard, r.2) := by
  cases hd : e.state.runnable? with
  | none =>
    have hidle : ∀ e : Engine, e.state.runnable? = none → e.reason? limit = some (e, .failure (.notReady e.status)) := by
      intro e he
      rw [Engine.reason?, he]
    rw [hidle e hd, hidle e.unsubscribed hd]
    rfl
  | some d =>
    have hruns : Option.Rel (Alike Run.SameUnheard fun x y => Run.SameUnheard x.1 y.1 ∧ x.2 = y.2)
        (Run.ofDocument? e.bus limit (e.rebuild.equip d) e.rebuild.context)
        (Run.ofDocument? e.unsubscribed.bus limit (e.unsubscribed.rebuild.equip d) e.unsubscribed.rebuild.context) :=
      ofDocument?_alike (lasting_sameUnheard h Bus.silent_empty) Run.SameUnheard.registry limit (e.rebuild.equip d)
        fun _ => ⟨rfl, rfl⟩
    rw [reason?_of_runnable hd, reason?_of_runnable (e := e.unsubscribed) hd, Option.map_map, Option.map_map]
    generalize Run.ofDocument? e.bus limit (e.rebuild.equip d) e.rebuild.context = r,
      Run.ofDocument? e.unsubscribed.bus limit (e.unsubscribed.rebuild.equip d) e.unsubscribed.rebuild.context = r'
      at hruns ⊢
    cases hruns with
    | none => rfl
    | some hend => exact congrArg some (ended_alike hend e _)

/-- **Subscribers cannot disturb an inference in flight.** From the same facts and the same registry, one application of a
rule stores the same facts in the same order under any two buses, or stops with the same failure after storing the same
facts. And where no subscriber registers anything, an engine runs its rules as if nobody listened: with as many sweeps it
gives the same reply, and it is left with the same state, document, registry, plugin and log, but for who received the
notices. -/
theorem inference_undisturbed :
    (∀ bus bus' index rule store registry log log',
      Alike Run.SameFacts Run.SameFacts (Run.apply bus index rule ⟨store, ⟨registry, log⟩⟩)
        (Run.apply bus' index rule ⟨store, ⟨registry, log'⟩⟩)) ∧
    ∀ (e : Engine) limit, e.bus.Silent → (e.reason? limit).map (fun r => (r.1.unheard, r.2)) =
      (e.unsubscribed.reason? limit).map fun r => (r.1.unheard, r.2) := by
  constructor
  · intro bus bus' index rule store registry log log'
    exact apply_alike (lasting_sameFacts bus bus') index rule rfl rfl
  · intro e limit h
    exact reason?_unheard h limit

/-- an engine whose subscribers fail and break down, and register nothing -/
def Engine.overheard (d : Document) : Engine where
  state := .ready d
  bus := ⟨[⟨.afterRuleApplied, "first", fun _ _ _ => ⟨[], .failed⟩⟩, ⟨.afterReason, "last", fun _ _ _ => ⟨[], .crashed⟩⟩]⟩

/-- a builtin that is registered while a rule is applied is there afterwards, and the rule stores the one acquaintance that it
stores without it; and an engine concludes it whether it is overheard or not -/
theorem acquaintances_undisturbed :
    let rule : Rule := Document.acquaintances.rules[0]
    let start : Run := ⟨FactBase.ofAsserted Document.acquaintances.triples, {}⟩
    let restless := Engine.restless .acquaintances
    let overheard := Engine.overheard .acquaintances
    (∃ run run' : Run, Run.apply restless.bus 0 rule start = .ok run ∧ Run.apply {} 0 rule start = .ok run' ∧
      run.store = run'.store ∧ run.store.size = 3 ∧ run.context.registry.registered.length = 1 ∧
      run'.context.registry.registered.length = 0) ∧
    overheard.bus.Silent ∧ (overheard.reason? 2).any (fun r => r.2.inferred? = some 1) = true ∧
    (overheard.reason? 2).map (fun r => (r.1.unheard, r.2)) =
      (overheard.unsubscribed.reason? 2).map fun r => (r.1.unheard, r.2) := by
  intro rule start restless overheard
  obtain ⟨happly, hreason⟩ := inference_undisturbed
  constructor
  · have halike : Alike Run.SameFacts Run.SameFacts (Run.apply restless.bus 0 rule start) (Run.apply {} 0 rule start) :=
      happly restless.bus {} 0 rule start.store start.context.registry #[] #[]
    have hends : (Run.apply restless.bus 0 rule start).toOption.any (fun run =>
        run.store.size = 3 && run.context.registry.registered.length = 1) = true := by decide +kernel
    have hends' : (Run.apply {} 0 rule start).toOption.any (fun run =>
        run.context.registry.registered.length = 0) = true := by decide +kernel
    generalize Run.apply restless.bus 0 rule start = r, Run.apply {} 0 rule start = r' at halike hends hends' ⊢
    cases halike with
    | @ok run run' hsame =>
      simp only [Except.toOption, Option.any_some, Bool.and_eq_true, decide_eq_true_eq] at hends hends'
      exact ⟨run, run', rfl, rfl, hsame, hends.1, hends.2, hends'⟩
    | stopped => cases hends
  · have hsilent : overheard.bus.Silent := by
      intro s hs log notice registry
      simp only [overheard, Engine.overheard, List.mem_cons, List.not_mem_nil, or_false] at hs
      rcases hs with rfl | rfl <;> rfl
    exact ⟨hsilent, by decide +kernel, hreason _ 2 hsilent⟩

end N3Rules
