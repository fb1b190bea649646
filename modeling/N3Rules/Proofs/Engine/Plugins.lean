/-
Which plugin a load runs, and which one is installed afterwards.

A load that puts a document in place takes the installed plugin out, runs it, and puts it back if its place is still
empty. The plugin may load documents itself, run the rules and install other plugins, and these do the same in their
turn. `Engine.Does` says what comes of it, without a bound on how deep this goes: a plugin runs once, it is not
installed meanwhile, and after its run the plugin that was installed last in the run is in place, or else the plugin
itself. The engine does just this (`carryOut?_eq_some_iff`).

- `Deed`: what is done to plugins, as a tree; `Deed.installs` and `Deed.runs` read it in order;
- `Engine.Does`: what commands do, with their deeds; `Engine.ComesTo`: what is commanded in the course of them;
- `Engine.Does.plugin_eq`: only installing a plugin changes which one is installed;
- `Engine.Does.runs_installed`: no plugin is run but the one found at first and those installed by then;
- `Engine.Does.enters`: the log tells of every run of a plugin;
- `plugins_disciplined`: the discipline of plugins.
-/
import N3Rules.Proofs.Engine.Notices

namespace N3Rules

/-! ## Deeds -/

/-- something that is done to plugins -/
inductive Deed where
  | installed (p : Plugin)
  /-- a load ran a plugin, and this was done meanwhile -/
  | ran (p : Plugin) (inside : List Deed)

mutual

/-- the plugins that are installed in the course of a deed, in order -/
def Deed.installs : Deed → List Plugin
  | .installed p => [p]
  | .ran _ inside => Deed.allInstalls inside

def Deed.allInstalls : List Deed → List Plugin
  | [] => []
  | d :: ds => d.installs ++ Deed.allInstalls ds

end

mutual

/-- the plugins that are run in the course of a deed, in the order in which they start -/
def Deed.runs : Deed → List Plugin
  | .installed _ => []
  | .ran p inside => p :: Deed.allRuns inside

def Deed.allRuns : List Deed → List Plugin
  | [] => []
  | d :: ds => d.runs ++ Deed.allRuns ds

end

/-- the engine after whoever holds it noted the outcome of a command: a plugin notes it in the log, the caller does not -/
def Engine.noted (e : Engine) : Option Plugin → Reply → Engine
  | none, _ => e
  | some p, reply => e.record (.stepped p.name reply)

/-- what commands do that the caller or a plugin gives, up to the engine after them, with what is done to plugins -/
inductive Engine.Does (limit : Nat) : Engine → Option Plugin → List Command → Engine → List Deed → Prop where
  | nil {e : Engine} {holder : Option Plugin} : Does limit e holder [] e []
  /-- a command that neither puts a document in place nor installs a plugin, a refused load among them -/
  | told {e e₁ e' : Engine} {holder : Option Plugin} {c : Command} {cs : List Command} {reply : Reply}
      {ds : List Deed} : (∀ r, c.reading? ≠ some (.ok r)) → (∀ p, c ≠ .install p) → e.Told limit c e₁ reply →
      Does limit (e₁.noted holder reply) holder cs e' ds → Does limit e holder (c :: cs) e' ds
  | installed {e e' : Engine} {holder : Option Plugin} {p : Plugin} {cs : List Command} {ds : List Deed} :
      Does limit (({ e with plugin := some p } : Engine).noted holder .done) holder cs e' ds →
      Does limit e holder (.install p :: cs) e' (.installed p :: ds)
  /-- a load that finds no plugin -/
  | loaded {e e' : Engine} {holder : Option Plugin} {c : Command} {text : String} {d : Document} {cs : List Command}
      {ds : List Deed} : c.reading? = some (.ok (text, d)) → e.plugin = none →
      Does limit ((e.accept d).noted holder .done) holder cs e' ds → Does limit e holder (c :: cs) e' ds
  /-- a load that finds a plugin, and runs it -/
  | ran {e e₁ e' : Engine} {holder : Option Plugin} {c : Command} {text : String} {d : Document} {p : Plugin}
      {cs : List Command} {inside ds : List Deed} : c.reading? = some (.ok (text, d)) → e.plugin = some p →
      Does limit ((e.accept d).enter p) (some p) p.steps e₁ inside →
      Does limit (({ e₁ with plugin := (Deed.allInstalls inside).getLast?.or (some p) } : Engine).noted holder .done)
        holder cs e' ds →
      Does limit e holder (c :: cs) e' (.ran p inside :: ds)

/-- in the course of commands, to any depth, an engine is given a command -/
inductive Engine.ComesTo (limit : Nat) : Engine → Option Plugin → List Command → Engine → Command → Prop where
  | first {e : Engine} {holder : Option Plugin} {c : Command} {cs : List Command} : ComesTo limit e holder (c :: cs) e c
  | later {e e₁ e₂ : Engine} {holder : Option Plugin} {c c₂ : Command} {cs : List Command} {ds : List Deed} :
      e.Does limit holder [c] e₁ ds → ComesTo limit e₁ holder cs e₂ c₂ → ComesTo limit e holder (c :: cs) e₂ c₂
  | nested {e e₂ : Engine} {holder : Option Plugin} {c c₂ : Command} {cs : List Command} {text : String}
      {d : Document} {p : Plugin} : c.reading? = some (.ok (text, d)) → e.plugin = some p →
      ComesTo limit ((e.accept d).enter p) (some p) p.steps e₂ c₂ → ComesTo limit e holder (c :: cs) e₂ c₂

theorem Engine.plugin_noted (e : Engine) (holder : Option Plugin) (reply : Reply) :
    (e.noted holder reply).plugin = e.plugin := by
  cases holder <;> rfl

theorem Engine.depth_noted (e : Engine) (holder : Option Plugin) (reply : Reply) :
    (e.noted holder reply).depth = e.depth := by
  rw [Engine.depth, Engine.plugin_noted, Engine.depth]

/-- a command that installs nothing and puts no document in place leaves the plugin as it is -/
theorem Engine.Told.plugin_eq {limit : Nat} {e e' : Engine} {c : Command} {reply : Reply}
    (h : e.Told limit c e' reply) (hc : ∀ p, c ≠ .install p) : e'.plugin = e.plugin := by
  cases h with
  | installed p => exact absurd rfl (hc p)
  | _ => rfl

/-! ## The installed plugin -/

theorem mem_of_mem_last {α : Type} {l : List α} {o : Option α} {a : α} (h : a ∈ l.getLast?.or o) : a ∈ l ∨ a ∈ o := by
  cases hlast : l.getLast? with
  | none =>
    rw [hlast] at h
    exact .inr h
  | some b =>
    rw [hlast] at h
    obtain rfl : b = a := Option.some.inj h
    exact .inl (List.mem_of_getLast? hlast)

section Does

variable {limit : Nat} {e e' : Engine} {holder : Option Plugin} {cs : List Command} {ds : List Deed}

/-- after commands the plugin that was installed last is in place, or the one from before -/
theorem Engine.Does.plugin_eq (h : e.Does limit holder cs e' ds) :
    e'.plugin = (Deed.allInstalls ds).getLast?.or e.plugin := by
  induction h with
  | nil => rfl
  | told _ hc ht _ ih => rw [ih, Engine.plugin_noted, ht.plugin_eq hc]
  | @installed _ _ _ p _ ds _ ih =>
    rw [ih, Engine.plugin_noted, Deed.allInstalls, Deed.installs, List.getLast?_append, List.getLast?_singleton,
      Option.or_assoc]
    rfl
  | loaded _ hplugin _ ih => rw [ih, Engine.plugin_noted]; rfl
  | @ran e _ _ _ _ _ _ p _ inside ds _ hplugin _ _ _ ih =>
    rw [ih, Engine.plugin_noted, Deed.allInstalls, Deed.installs, List.getLast?_append, Option.or_assoc, hplugin]

/-- no plugin is run but the one that is found at first and those that are installed by then -/
theorem Engine.Does.runs_installed (h : e.Does limit holder cs e' ds) :
    ∀ q ∈ Deed.allRuns ds, q ∈ e.plugin ∨ q ∈ Deed.allInstalls ds := by
  induction h with
  | nil => simp [Deed.allRuns]
  | told _ hc ht _ ih =>
    rwa [Engine.plugin_noted, ht.plugin_eq hc] at ih
  | installed _ ih =>
    rw [Engine.plugin_noted] at ih
    simp only [Deed.allRuns, Deed.runs, Deed.allInstalls, Deed.installs]
    grind
  | loaded _ _ _ ih => rwa [Engine.plugin_noted] at ih
  | @ran e _ _ _ _ _ _ p _ inside ds _ hplugin _ _ ihinside ih =>
    rw [Engine.plugin_noted] at ih
    intro q hq
    simp only [Deed.allRuns, Deed.runs, List.mem_append, List.mem_cons] at hq
    simp only [Deed.allInstalls, Deed.installs, List.mem_append]
    rcases hq with (rfl | hq) | hq
    · exact .inl hplugin
    · rcases ihinside q hq with hfound | hinstalled
      · cases hfound
      · exact .inr (.inl hinstalled)
    · rcases ih q hq with hfound | hinstalled
      · rcases mem_of_mem_last hfound with hmem | hself
        · exact .inr (.inl hmem)
        · exact .inl (hplugin.trans hself)
      · exact .inr (.inr hinstalled)

/-- what is installed nests no deeper than the commands and the plugin that is found at first -/
theorem Engine.Does.depth_le_of_installs {n : Nat} (h : e.Does limit holder cs e' ds) (he : e.depth ≤ n)
    (hcs : Command.maxDepth cs ≤ n) : ∀ q ∈ Deed.allInstalls ds, q.depth ≤ n := by
  induction h with
  | nil => simp [Deed.allInstalls]
  | told _ hc ht _ ih =>
    simp only [Command.maxDepth, max_le_iff] at hcs
    refine ih ?_ hcs.2
    rw [Engine.depth_noted]
    exact ht.depth_le he hcs.1
  | @installed _ _ _ p _ _ _ ih =>
    simp only [Command.maxDepth, Command.depth, max_le_iff] at hcs
    simp only [Deed.allInstalls, Deed.installs, List.singleton_append, List.forall_mem_cons]
    refine ⟨hcs.1, ih ?_ hcs.2⟩
    rw [Engine.depth_noted, Engine.depth_le_iff]
    rintro q hq
    obtain rfl : p = q := Option.some.inj hq
    exact hcs.1
  | loaded _ _ _ ih =>
    simp only [Command.maxDepth, max_le_iff] at hcs
    refine ih ?_ hcs.2
    rw [Engine.depth_noted]
    exact he
  | @ran e _ _ _ _ _ _ p _ inside ds _ hplugin _ _ ihinside ih =>
    simp only [Command.maxDepth, max_le_iff] at hcs
    have hp : p.depth ≤ n := Engine.depth_le_iff.1 he p hplugin
    have hinside : ∀ q ∈ Deed.allInstalls inside, q.depth ≤ n := by
      refine ihinside (Nat.zero_le n) ?_
      rw [Plugin.depth_eq] at hp
      omega
    simp only [Deed.allInstalls, Deed.installs, List.forall_mem_append]
    refine ⟨hinside, ih ?_ hcs.2⟩
    rw [Engine.depth_noted, Engine.depth_le_iff]
    intro q hq
    rcases mem_of_mem_last hq with hmem | hself
    · exact hinside q hmem
    · obtain rfl : p = q := Option.some.inj hself
      exact hp

theorem Engine.Does.depth_le {n : Nat} (h : e.Does limit holder cs e' ds) (he : e.depth ≤ n)
    (hcs : Command.maxDepth cs ≤ n) : e'.depth ≤ n := by
  rw [Engine.depth_le_iff, h.plugin_eq]
  intro q hq
  rcases mem_of_mem_last hq with hmem | hfound
  · exact h.depth_le_of_installs he hcs q hmem
  · exact Engine.depth_le_iff.1 he q hfound

theorem Engine.ComesTo.depth_le {n : Nat} {e₂ : Engine} {c₂ : Command} (h : e.ComesTo limit holder cs e₂ c₂)
    (he : e.depth ≤ n) (hcs : Command.maxDepth cs ≤ n) : e₂.depth ≤ n := by
  induction h with
  | first => exact he
  | later hdoes _ ih =>
    simp only [Command.maxDepth, max_le_iff] at hcs
    exact ih (hdoes.depth_le he (by simpa [Command.maxDepth] using hcs.1)) hcs.2
  | @nested e _ _ _ _ _ _ _ p _ hplugin _ ih =>
    have hp : p.depth ≤ n := Engine.depth_le_iff.1 he p hplugin
    rw [Plugin.depth_eq] at hp
    exact ih (Nat.zero_le n) (by omega)

end Does

/-- in the run of a plugin, to any depth, it is never the installed one -/
theorem Engine.ComesTo.plugin_ne {limit : Nat} {e e₂ : Engine} {p : Plugin} {c₂ : Command}
    (h : (e.enter p).ComesTo limit (some p) p.steps e₂ c₂) : e₂.plugin ≠ some p := by
  intro hp
  have hle : e₂.depth ≤ Command.maxDepth p.steps := h.depth_le (Nat.zero_le _) le_rfl
  have hdepth := Engine.depth_le_iff.1 hle p hp
  rw [Plugin.depth_eq] at hdepth
  omega

/-- the plugins that run in the run of a plugin were installed in it, and are others -/
theorem Engine.Does.runs_inside {limit : Nat} {e e' : Engine} {p : Plugin} {inside : List Deed}
    (h : (e.enter p).Does limit (some p) p.steps e' inside) :
    ∀ q ∈ Deed.allRuns inside, q ∈ Deed.allInstalls inside ∧ q ≠ p := by
  intro q hq
  have hinstalled : q ∈ Deed.allInstalls inside := by
    rcases h.runs_installed q hq with hfound | hinstalled
    · cases hfound
    · exact hinstalled
  refine ⟨hinstalled, ?_⟩
  rintro rfl
  have hdepth := h.depth_le_of_installs (Nat.zero_le _) le_rfl q hinstalled
  rw [Plugin.depth_eq] at hdepth
  omega

/-! ## What the engine does -/

/-- the engine after commands of its holder, for plugins that nest at most so deep, if no run in them has more than
`limit` sweeps -/
def Engine.carryOut? (limit depth : Nat) (holder : Option Plugin) (e : Engine) (cs : List Command) : Option Engine :=
  cs.foldlM (fun e c => (e.performWith? (Plugin.run? limit depth) limit c).map fun r => r.1.noted holder r.2) e

theorem Engine.carryOut?_cons (limit depth : Nat) (holder : Option Plugin) (e : Engine) (c : Command)
    (cs : List Command) : e.carryOut? limit depth holder (c :: cs) =
      ((e.performWith? (Plugin.run? limit depth) limit c).map fun r => r.1.noted holder r.2).bind
        fun e => e.carryOut? limit depth holder cs := rfl

theorem Plugin.run?_eq (limit depth : Nat) (p : Plugin) (e : Engine) : Plugin.run? limit (depth + 1) p e =
    ((e.enter p).carryOut? limit depth (some p) p.steps).map fun e => e.leave p := by
  have hstep : (fun (e : Engine) c => (e.performWith? (Plugin.run? limit depth) limit c).bind fun r =>
      some (r.1.record (.stepped p.name r.2))) = fun e c =>
        (e.performWith? (Plugin.run? limit depth) limit c).map fun r => r.1.noted (some p) r.2 := by
    funext e c
    rw [Option.map_eq_bind]
    rfl
  rw [Engine.carryOut?, ← hstep, Option.map_eq_bind]
  rfl

/-- what commands come to: an engine, with their deeds, or a run of the rules that takes too many sweeps -/
def Engine.Outcome (limit : Nat) (holder : Option Plugin) (e : Engine) (cs : List Command) : Option Engine → Prop
  | some e' => ∃ ds, e.Does limit holder cs e' ds
  | none => ∃ e₁, e.ComesTo limit holder cs e₁ .reason ∧ e₁.reason? limit = none

theorem Engine.Does.append {limit : Nat} {e e₁ e' : Engine} {holder : Option Plugin} {cs cs' : List Command}
    {ds ds' : List Deed} (h : e.Does limit holder cs e₁ ds) (h' : e₁.Does limit holder cs' e' ds') :
    e.Does limit holder (cs ++ cs') e' (ds ++ ds') := by
  induction h with
  | nil => exact h'
  | told hr hc ht _ ih => exact .told hr hc ht (ih h')
  | installed _ ih => exact .installed (ih h')
  | loaded hr hplugin _ ih => exact .loaded hr hplugin (ih h')
  | ran hr hplugin hinside _ _ ih => exact .ran hr hplugin hinside (ih h')

theorem Engine.Outcome.cons {limit : Nat} {e : Engine} {holder : Option Plugin} {c : Command} {cs : List Command}
    {o : Option Engine} {f : Engine → Option Engine} (h : e.Outcome limit holder [c] o)
    (hf : ∀ e₁ ∈ o, e₁.Outcome limit holder cs (f e₁)) : e.Outcome limit holder (c :: cs) (o.bind f) := by
  cases o with
  | none =>
    obtain ⟨e₁, hcomes, hstuck⟩ := h
    refine ⟨e₁, ?_, hstuck⟩
    cases hcomes with
    | first => exact .first
    | later _ hrest => cases hrest
    | nested hr hplugin hin => exact .nested hr hplugin hin
  | some e₁ =>
    obtain ⟨ds, hdoes⟩ := h
    have hrest := hf e₁ rfl
    rw [Option.bind_some]
    cases hnext : f e₁ with
    | none =>
      rw [hnext] at hrest
      obtain ⟨e₂, hcomes, hstuck⟩ := hrest
      exact ⟨e₂, .later hdoes hcomes, hstuck⟩
    | some e' =>
      rw [hnext] at hrest
      obtain ⟨ds', hdoes'⟩ := hrest
      exact ⟨ds ++ ds', hdoes.append hdoes'⟩

/-- what running a plugin comes to -/
def Plugin.Outcome (limit : Nat) (p : Plugin) (e : Engine) (o : Option Engine) : Prop :=
  ∃ o₁, (e.enter p).Outcome limit (some p) p.steps o₁ ∧ o = o₁.map fun e => e.leave p

/-- only a run of the rules keeps a command from its end, if it runs no plugin -/
theorem performWith?_eq_none {c : Command} (hc : ∀ r, c.reading? ≠ some (.ok r)) {run : Plugin → Engine → Option Engine}
    {limit : Nat} {e : Engine} (h : e.performWith? run limit c = none) : c = .reason ∧ e.reason? limit = none := by
  cases hr : c.reading? with
  | some r =>
    rw [performWith?_of_reading hr] at h
    cases r with
    | error f => cases h
    | ok r => exact absurd hr (hc r)
  | none =>
    cases c with
    | reason => exact ⟨rfl, h⟩
    | load text => cases hr
    | loadAs text format =>
      simp only [Command.reading?] at hr
      split at hr <;> cases hr
    | loadBytes bytes =>
      simp only [Command.reading?] at hr
      split at hr <;> cases hr
    | _ => cases h

/-- a load runs the plugin that it finds -/
theorem Engine.loaded?_of_plugin {run : Plugin → Engine → Option Engine} {e : Engine} {p : Plugin}
    (h : e.plugin = some p) (text : String) (d : Document) :
    e.loaded? run (.ok (text, d)) = (run p (e.accept d)).map fun e => (e, .done) := by
  have hplugin : (e.accept d).plugin = some p := h
  rw [Engine.loaded?, Engine.runPlugin?, hplugin]

theorem Engine.loaded?_of_none {run : Plugin → Engine → Option Engine} {e : Engine} (h : e.plugin = none) (text : String)
    (d : Document) : e.loaded? run (.ok (text, d)) = some (e.accept d, .done) := by
  have hplugin : (e.accept d).plugin = none := h
  rw [Engine.loaded?, Engine.runPlugin?, hplugin]
  rfl

/-- a plugin is put back if none was installed in its run -/
theorem Engine.Does.leave_eq {limit : Nat} {e e₁ : Engine} {p : Plugin} {inside : List Deed}
    (h : (e.enter p).Does limit (some p) p.steps e₁ inside) :
    e₁.leave p = { e₁ with plugin := (Deed.allInstalls inside).getLast?.or (some p) } := by
  have hplugin : e₁.plugin = (Deed.allInstalls inside).getLast? := h.plugin_eq.trans (Option.or_none ..)
  rw [Engine.leave, hplugin]
  cases (Deed.allInstalls inside).getLast? <;> rfl

/-- a command comes to what it should, if running a plugin does -/
theorem performWith?_outcome {limit depth : Nat} {run : Plugin → Engine → Option Engine}
    (hrun : ∀ p e, p.depth ≤ depth → Plugin.Outcome limit p e (run p e)) {e : Engine} (he : e.depth ≤ depth)
    (holder : Option Plugin) (c : Command) :
    e.Outcome limit holder [c] ((e.performWith? run limit c).map fun r => r.1.noted holder r.2) := by
  by_cases hok : ∃ r, c.reading? = some (.ok r)
  · obtain ⟨⟨text, d⟩, hr⟩ := hok
    rw [performWith?_of_reading hr]
    cases hplugin : e.plugin with
    | none =>
      rw [Engine.loaded?_of_none hplugin]
      exact ⟨[], .loaded hr hplugin .nil⟩
    | some p =>
      rw [Engine.loaded?_of_plugin hplugin]
      obtain ⟨o, ho, heq⟩ := hrun p (e.accept d) (Engine.depth_le_iff.1 he p hplugin)
      rw [heq]
      cases o with
      | none =>
        obtain ⟨e₁, hcomes, hstuck⟩ := ho
        exact ⟨e₁, .nested hr hplugin hcomes, hstuck⟩
      | some e₁ =>
        obtain ⟨inside, hdoes⟩ := ho
        refine ⟨[.ran p inside], .ran hr hplugin hdoes ?_⟩
        rw [← hdoes.leave_eq]
        exact .nil
  · have hr : ∀ r, c.reading? ≠ some (.ok r) := fun r hr => hok ⟨r, hr⟩
    cases hp : e.performWith? run limit c with
    | none =>
      obtain ⟨rfl, hstuck⟩ := performWith?_eq_none hr hp
      exact ⟨e, .first, hstuck⟩
    | some r =>
      by_cases hc : ∃ p, c = .install p
      · obtain ⟨p, rfl⟩ := hc
        cases hp
        exact ⟨[.installed p], .installed .nil⟩
      · exact ⟨[], .told hr (fun p hp => hc ⟨p, hp⟩) (performWith?_cases hr hp) .nil⟩

theorem carryOut?_outcome_of_run {limit depth : Nat}
    (hrun : ∀ p e, p.depth ≤ depth → Plugin.Outcome limit p e (Plugin.run? limit depth p e)) (holder : Option Plugin)
    {cs : List Command} (hcs : Command.maxDepth cs ≤ depth) {e : Engine} (he : e.depth ≤ depth) :
    e.Outcome limit holder cs (e.carryOut? limit depth holder cs) := by
  induction cs generalizing e with
  | nil => exact ⟨[], .nil⟩
  | cons c cs ih =>
    simp only [Command.maxDepth, max_le_iff] at hcs
    have hone := performWith?_outcome hrun he holder c
    rw [Engine.carryOut?_cons]
    refine hone.cons ?_
    intro e₁ he₁
    rw [he₁] at hone
    obtain ⟨ds, hdoes⟩ := hone
    exact ih hcs.2 (hdoes.depth_le he (by simpa [Command.maxDepth] using hcs.1))

/-- a plugin comes to what it should, if it nests at most so deep -/
theorem Plugin.run?_outcome (limit depth : Nat) :
    ∀ (p : Plugin) (e : Engine), p.depth ≤ depth → Plugin.Outcome limit p e (Plugin.run? limit depth p e) := by
  induction depth with
  | zero =>
    intro p e hp
    rw [Plugin.depth_eq] at hp
    omega
  | succ depth ih =>
    intro p e hp
    rw [Plugin.depth_eq] at hp
    -- the plugin is out, and what nests in its commands is less deep
    refine ⟨_, carryOut?_outcome_of_run ih (some p) ?_ ?_, Plugin.run?_eq limit depth p e⟩
    · omega
    · exact Nat.zero_le depth

theorem carryOut?_outcome (limit : Nat) {depth : Nat} (holder : Option Plugin) {cs : List Command}
    (hcs : Command.maxDepth cs ≤ depth) {e : Engine} (he : e.depth ≤ depth) :
    e.Outcome limit holder cs (e.carryOut? limit depth holder cs) :=
  carryOut?_outcome_of_run (Plugin.run?_outcome limit depth) holder hcs he

/-- what a command does is what the engine does with it -/
theorem Engine.Told.performWith? {limit : Nat} {e e' : Engine} {c : Command} {reply : Reply}
    (h : e.Told limit c e' reply) (run : Plugin → Engine → Option Engine) :
    e.performWith? run limit c = some (e', reply) := by
  cases h with
  | refused hr => rw [performWith?_of_reading hr]; rfl
  | notReady hrunnable => simp only [Engine.performWith?, Engine.reason?, hrunnable]
  | finished hrunnable hrun =>
    simp only [Engine.performWith?, Engine.reason?, hrunnable]
    exact Option.map_eq_some_iff.2 ⟨_, hrun, rfl⟩
  | stopped hrunnable hrun =>
    simp only [Engine.performWith?, Engine.reason?, hrunnable]
    exact Option.map_eq_some_iff.2 ⟨_, hrun, rfl⟩
  | _ => rfl

/-- a load of the caller that runs a plugin -/
theorem Engine.Does.loads {limit : Nat} {e e₁ : Engine} {c : Command} {text : String} {d : Document} {p : Plugin}
    {inside : List Deed} (hr : c.reading? = some (.ok (text, d))) (hplugin : e.plugin = some p)
    (hinside : ((e.accept d).enter p).Does limit (some p) p.steps e₁ inside) :
    e.Does limit none [c] { e₁ with plugin := (Deed.allInstalls inside).getLast?.or (some p) } [.ran p inside] :=
  .ran hr hplugin hinside .nil

/-- deeds are what the engine does -/
theorem Engine.Does.carryOut? {limit depth : Nat} {e e' : Engine} {holder : Option Plugin} {cs : List Command}
    {ds : List Deed} (h : e.Does limit holder cs e' ds) (he : e.depth ≤ depth) (hcs : Command.maxDepth cs ≤ depth) :
    e.carryOut? limit depth holder cs = some e' := by
  induction h generalizing depth with
  | nil => rfl
  | told _ _ ht _ ih =>
    simp only [Command.maxDepth, max_le_iff] at hcs
    rw [Engine.carryOut?_cons, ht.performWith?]
    refine ih ?_ hcs.2
    rw [Engine.depth_noted]
    exact ht.depth_le he hcs.1
  | @installed e _ _ p _ _ _ ih =>
    simp only [Command.maxDepth, Command.depth, max_le_iff] at hcs
    have hp : ({ e with plugin := some p } : Engine).depth ≤ depth := hcs.1
    refine ih ?_ hcs.2
    rwa [Engine.depth_noted]
  | loaded hr hplugin _ ih =>
    simp only [Command.maxDepth, max_le_iff] at hcs
    rw [Engine.carryOut?_cons, performWith?_of_reading hr, Engine.loaded?_of_none hplugin]
    refine ih ?_ hcs.2
    rw [Engine.depth_noted]
    exact he
  | @ran e _ _ _ c _ _ p _ _ _ hr hplugin hinside _ ihinside ih =>
    simp only [Command.maxDepth, max_le_iff] at hcs
    have hone : Command.maxDepth [c] ≤ depth := by simpa [Command.maxDepth] using hcs.1
    have hlast := (Engine.Does.loads hr hplugin hinside).depth_le he hone
    have hp : p.depth ≤ depth := Engine.depth_le_iff.1 he p hplugin
    rw [Plugin.depth_eq] at hp
    obtain ⟨n, rfl⟩ : ∃ n, depth = n + 1 := ⟨depth - 1, by omega⟩
    have hsteps := ihinside (Nat.zero_le n) (show Command.maxDepth p.steps ≤ n by omega)
    rw [Engine.carryOut?_cons, performWith?_of_reading hr, Engine.loaded?_of_plugin hplugin, Plugin.run?_eq, hsteps,
      Option.map_some, hinside.leave_eq]
    refine ih ?_ hcs.2
    rwa [Engine.depth_noted]

/-- a run of the rules that takes too many sweeps keeps the commands from their end in the course of which it is -/
theorem Engine.ComesTo.carryOut?_eq_none {limit depth : Nat} {e e₁ : Engine} {holder : Option Plugin}
    {cs : List Command} (h : e.ComesTo limit holder cs e₁ .reason) (hstuck : e₁.reason? limit = none)
    (he : e.depth ≤ depth) (hcs : Command.maxDepth cs ≤ depth) : e.carryOut? limit depth holder cs = none := by
  generalize hreason : Command.reason = c₁ at h
  induction h generalizing depth with
  | first =>
    subst hreason
    rw [Engine.carryOut?_cons, Engine.performWith?, hstuck]
    rfl
  | @later e e₁ _ holder c _ cs _ hdoes _ ih =>
    simp only [Command.maxDepth, max_le_iff] at hcs
    have hone : Command.maxDepth [c] ≤ depth := by simpa [Command.maxDepth] using hcs.1
    have hfirst := hdoes.carryOut? he hone
    have hsplit : e.carryOut? limit depth holder (c :: cs) =
        (e.carryOut? limit depth holder [c]).bind fun e => e.carryOut? limit depth holder cs :=
      List.foldlM_append (l := [c])
    rw [hsplit, hfirst]
    exact ih hstuck (hdoes.depth_le he hone) hcs.2 hreason
  | @nested e _ _ _ _ _ _ _ p hr hplugin _ ih =>
    have hp : p.depth ≤ depth := Engine.depth_le_iff.1 he p hplugin
    rw [Plugin.depth_eq] at hp
    obtain ⟨n, rfl⟩ : ∃ n, depth = n + 1 := ⟨depth - 1, by omega⟩
    have hsteps := ih hstuck (Nat.zero_le n) (show Command.maxDepth p.steps ≤ n by omega) hreason
    rw [Engine.carryOut?_cons, performWith?_of_reading hr, Engine.loaded?_of_plugin hplugin, Plugin.run?_eq, hsteps]
    rfl

/-- commands come to an engine exactly if their deeds lead to it -/
theorem carryOut?_eq_some_iff {limit depth : Nat} {e e' : Engine} {holder : Option Plugin} {cs : List Command}
    (he : e.depth ≤ depth) (hcs : Command.maxDepth cs ≤ depth) :
    e.carryOut? limit depth holder cs = some e' ↔ ∃ ds, e.Does limit holder cs e' ds := by
  constructor
  · intro h
    have houtcome := carryOut?_outcome limit holder hcs he
    rwa [h] at houtcome
  · rintro ⟨ds, hdoes⟩
    exact hdoes.carryOut? he hcs

/-- commands come to no end exactly if a run of the rules in their course does not -/
theorem carryOut?_eq_none_iff {limit depth : Nat} {e : Engine} {holder : Option Plugin} {cs : List Command}
    (he : e.depth ≤ depth) (hcs : Command.maxDepth cs ≤ depth) : e.carryOut? limit depth holder cs = none ↔
      ∃ e₁, e.ComesTo limit holder cs e₁ .reason ∧ e₁.reason? limit = none := by
  constructor
  · intro h
    have houtcome := carryOut?_outcome limit holder hcs he
    rwa [h] at houtcome
  · rintro ⟨e₁, hcomes, hstuck⟩
    exact hcomes.carryOut?_eq_none hstuck he hcs

/-! ## The log -/

/-- the plugin that starts to run, by its name, and the status that it finds the engine in -/
def Entry.entered? : Entry → Option (String × Status)
  | .entered name status => some (name, status)
  | _ => none

/-- a log goes on with entries that tell of the start of these plugins, in this order, each in an engine that is ready,
and of no others -/
def Log.Enters (before after : Log) (ps : List Plugin) : Prop :=
  ∃ entries, after.toList = before.toList ++ entries ∧
    entries.filterMap Entry.entered? = ps.map fun p => (p.name, .ready)

theorem Log.Enters.refl (log : Log) : log.Enters log [] :=
  ⟨[], by simp, rfl⟩

theorem Log.Enters.trans {log log' log'' : Log} {ps ps' : List Plugin} (h : log.Enters log' ps)
    (h' : log'.Enters log'' ps') : log.Enters log'' (ps ++ ps') := by
  obtain ⟨entries, hlog, hps⟩ := h
  obtain ⟨entries', hlog', hps'⟩ := h'
  refine ⟨entries ++ entries', ?_, ?_⟩
  · rw [hlog', hlog, List.append_assoc]
  · rw [List.filterMap_append, hps, hps', List.map_append]

/-- what tells of no plugin leads on from where none was told of -/
theorem Log.Enters.none {log log' log'' : Log} (h : log.Enters log' []) (h' : log'.Enters log'' []) :
    log.Enters log'' [] :=
  h.trans h'

theorem Bus.announce_enters (bus : Bus) (notice : Notice) (c : Context) :
    c.log.Enters (bus.announce notice c).log [] := by
  refine ⟨bus.delivery notice, bus.log_announce notice c, ?_⟩
  simp [Bus.delivery, Entry.entered?]

theorem Run.recordCalls_enters (run : Run) (calls : List Call) :
    run.context.log.Enters (run.recordCalls calls).context.log [] := by
  refine ⟨calls.map .called, by simp [Run.recordCalls, Context.record], ?_⟩
  simp [Entry.entered?]

section Run

variable {bus : Bus} {d : Document} {c : Context}

/-- no plugin runs in a run of the rules -/
theorem Reached.enters {stage : Stage} {run : Run} (h : Reached bus d c stage run) :
    c.log.Enters run.context.log [] := by
  induction h with
  | start => exact bus.announce_enters _ c
  | @conclude _ _ a _ b t _ run next _ hconclude ih =>
    have hcases := conclude_cases bus a.index a.rule b run t
    rw [hconclude] at hcases
    cases hcases with
    | skipped => exact ih
    | known => exact ih
    | stored => exact ih.none (bus.announce_enters _ _)
  | apply _ _ ih => exact ih.none (Run.recordCalls_enters _ _)
  | reject _ _ ih => exact ih.none (Run.recordCalls_enters _ _)
  | confirm _ _ ih => exact ih.none (Run.recordCalls_enters _ _)
  | _ => assumption

theorem Run.ofDocument?_enters {limit n : Nat} {run : Run}
    (h : Run.ofDocument? bus limit d c = some (.ok (run, n))) : c.log.Enters run.context.log [] := by
  obtain ⟨-, prev, last, hprev, hsweep, -, rfl⟩ := Reached.ofDocument?_ok h
  exact (hprev.sweeps hsweep).enters.none (bus.announce_enters _ _)

theorem Run.ofDocument?_enters_error {limit : Nat} {s : Stopped}
    (h : Run.ofDocument? bus limit d c = some (.error s)) : c.log.Enters s.run.context.log [] := by
  obtain ⟨a, b, t, hconcludes, -⟩ := Reached.ofDocument?_error h
  obtain ⟨stage, hreached⟩ := hconcludes.concluding.reached
  exact hreached.enters

end Run

theorem Engine.Told.enters {limit : Nat} {e e' : Engine} {c : Command} {reply : Reply}
    (h : e.Told limit c e' reply) : e.context.log.Enters e'.context.log [] := by
  cases h with
  | @finished _ run _ _ hrun =>
    have hkeeps : e.rebuild.context.log.Enters run.context.log [] := Run.ofDocument?_enters hrun
    exact hkeeps
  | @stopped _ s _ hrun =>
    have hkeeps : e.rebuild.context.log.Enters s.run.context.log [] := Run.ofDocument?_enters_error hrun
    exact hkeeps
  | _ => exact .refl _

theorem Engine.noted_enters (e : Engine) (holder : Option Plugin) (reply : Reply) :
    e.context.log.Enters (e.noted holder reply).context.log [] := by
  cases holder with
  | none => exact .refl _
  | some p => exact ⟨[.stepped p.name reply], by simp [Engine.noted, Engine.record, Context.record], rfl⟩

theorem Engine.accept_enters (e : Engine) (d : Document) : e.context.log.Enters (e.accept d).context.log [] :=
  e.bus.announce_enters _ e.rebuild.context

/-- the log tells that a plugin starts, in an engine that is ready -/
theorem Engine.log_enter (e : Engine) (d : Document) (p : Plugin) : ((e.accept d).enter p).context.log.toList =
    (e.accept d).context.log.toList ++ [.entered p.name .ready] := by
  simp [Engine.enter, Engine.record, Context.record, Engine.status, Engine.accept, State.status]

theorem Engine.enter_enters (e : Engine) (d : Document) (p : Plugin) :
    (e.accept d).context.log.Enters ((e.accept d).enter p).context.log [p] :=
  ⟨_, e.log_enter d p, rfl⟩

/-- the log tells of every run of a plugin, and of no other -/
theorem Engine.Does.enters {limit : Nat} {e e' : Engine} {holder : Option Plugin} {cs : List Command} {ds : List Deed}
    (h : e.Does limit holder cs e' ds) : e.context.log.Enters e'.context.log (Deed.allRuns ds) := by
  induction h with
  | nil => exact .refl _
  | told _ _ ht _ ih => exact (ht.enters.none (Engine.noted_enters _ _ _)).trans ih
  | @installed e _ holder p _ _ _ ih =>
    have hnoted := Engine.noted_enters { e with plugin := some p } holder .done
    exact hnoted.trans ih
  | loaded _ _ _ ih => exact ((Engine.accept_enters _ _).none (Engine.noted_enters _ _ _)).trans ih
  | @ran e e₁ _ holder _ _ d p _ inside _ _ _ _ _ ihinside ih =>
    have hnoted := Engine.noted_enters { e₁ with plugin := (Deed.allInstalls inside).getLast?.or (some p) } holder .done
    exact ((e.accept_enters d).trans (e.enter_enters d p)).trans ihinside |>.trans (hnoted.trans ih)

/-! ## The discipline -/

/-- how a plugin finds the engine when a load runs it: the document is in place, whoever subscribed to that was told, and
no plugin is installed -/
structure Engine.Opens (e : Engine) (d : Document) (p : Plugin) (e₁ : Engine) : Prop where
  state : e₁.state = .ready (e.rebuild.equip d)
  out : e₁.plugin = none
  told : e₁.context.log.toList =
    e.context.log.toList ++ e.bus.delivery (.afterLoad (e.rebuild.equip d)) ++ [.entered p.name .ready]

theorem Engine.opens_enter (e : Engine) (d : Document) (p : Plugin) : e.Opens d p ((e.accept d).enter p) := by
  have hlog := e.bus.log_announce (.afterLoad (e.rebuild.equip d)) e.rebuild.context
  refine ⟨rfl, rfl, ?_⟩
  rw [e.log_enter d p]
  exact congrArg (· ++ [Entry.entered p.name .ready]) hlog

/-- one command of the caller -/
theorem perform?_eq_carryOut? (limit : Nat) (e : Engine) (c : Command) :
    e.carryOut? limit (max e.depth c.depth) none [c] = (e.perform? limit c).map (·.1) := by
  rw [Engine.carryOut?_cons, Engine.perform?]
  cases e.performWith? (Plugin.run? limit (max e.depth c.depth)) limit c <;> rfl

theorem perform?_eq_some_iff {limit : Nat} {e e' : Engine} {c : Command} :
    (∃ reply, e.perform? limit c = some (e', reply)) ↔ ∃ ds, e.Does limit none [c] e' ds := by
  have hc : Command.maxDepth [c] ≤ max e.depth c.depth := by simp [Command.maxDepth]
  rw [← carryOut?_eq_some_iff (le_max_left _ _) hc, perform?_eq_carryOut?]
  simp

theorem perform?_eq_none_iff {limit : Nat} {e : Engine} {c : Command} : e.perform? limit c = none ↔
    ∃ e₁, e.ComesTo limit none [c] e₁ .reason ∧ e₁.reason? limit = none := by
  have hc : Command.maxDepth [c] ≤ max e.depth c.depth := by simp [Command.maxDepth]
  rw [← carryOut?_eq_none_iff (le_max_left _ _) hc, perform?_eq_carryOut?, Option.map_eq_none_iff]

theorem perform?_of_reading {c : Command} {r : Except Failure (String × Document)} (h : c.reading? = some r)
    (limit : Nat) (e : Engine) :
    e.perform? limit c = e.loaded? (Plugin.run? limit (max e.depth c.depth)) r :=
  performWith?_of_reading h _ limit e

/-- a load that runs a plugin comes to what the run of the plugin comes to -/
theorem perform?_iff_of_plugin {limit : Nat} {e e' : Engine} {c : Command} {text : String} {d : Document} {p : Plugin}
    (hr : c.reading? = some (.ok (text, d))) (hplugin : e.plugin = some p) :
    (∃ reply, e.perform? limit c = some (e', reply)) ↔ ∃ e₁ inside,
      ((e.accept d).enter p).Does limit (some p) p.steps e₁ inside ∧
        e' = { e₁ with plugin := (Deed.allInstalls inside).getLast?.or (some p) } := by
  rw [perform?_eq_some_iff]
  constructor
  · rintro ⟨ds, hdoes⟩
    cases hdoes with
    | told hne _ _ _ => exact absurd hr (hne _)
    | installed _ => cases hr
    | loaded _ hnone _ =>
      rw [hplugin] at hnone
      cases hnone
    | @ran _ _ _ _ _ _ _ _ _ _ _ hr' hplugin' hinside hrest =>
      cases hr.symm.trans hr'
      cases hplugin.symm.trans hplugin'
      cases hrest
      exact ⟨_, _, hinside, rfl⟩
  · rintro ⟨e₁, inside, hinside, rfl⟩
    exact ⟨_, .loads hr hplugin hinside⟩

/-- **Plugins.** A command comes to an engine exactly if its deeds lead to it, and nothing but a run of the rules keeps it
from its end, however deep loads and plugins nest. Afterwards the plugin that was installed last is in place, at any
depth, or else the one from before, and the log tells of every run of a plugin. A load that is refused runs none. A load
that reads a document runs the plugin that is installed, once, when the document is in place, the engine is ready and
whoever subscribed to that was told. In its run, to any depth, it is never the installed one, and the loads run only
plugins that were installed in it, which are others. After the run the plugin that was installed last in it is in place,
at any depth, or else the plugin itself. -/
theorem plugins_disciplined (limit : Nat) (e : Engine) (c : Command) :
    (∀ e', (∃ reply, e.perform? limit c = some (e', reply)) ↔ ∃ ds, e.Does limit none [c] e' ds) ∧
    (e.perform? limit c = none ↔ ∃ e₁, e.ComesTo limit none [c] e₁ .reason ∧ e₁.reason? limit = none) ∧
    (∀ e' ds, e.Does limit none [c] e' ds → e'.plugin = (Deed.allInstalls ds).getLast?.or e.plugin ∧
      e.context.log.Enters e'.context.log (Deed.allRuns ds)) ∧
    (∀ f, c.reading? = some (.error f) → e.perform? limit c = some (e, .failure f)) ∧
    (∀ text d, c.reading? = some (.ok (text, d)) → e.plugin = none → e.perform? limit c = some (e.accept d, .done)) ∧
    ∀ text d p, c.reading? = some (.ok (text, d)) → e.plugin = some p →
      e.Opens d p ((e.accept d).enter p) ∧
      (∀ e₁ c₁, ((e.accept d).enter p).ComesTo limit (some p) p.steps e₁ c₁ → e₁.plugin ≠ some p) ∧
      (∀ e₁ inside, ((e.accept d).enter p).Does limit (some p) p.steps e₁ inside →
        (∀ q ∈ Deed.allRuns inside, q ∈ Deed.allInstalls inside ∧ q ≠ p) ∧
        e.context.log.Enters e₁.context.log (p :: Deed.allRuns inside)) ∧
      ∀ e', (∃ reply, e.perform? limit c = some (e', reply)) ↔ ∃ e₁ inside,
        ((e.accept d).enter p).Does limit (some p) p.steps e₁ inside ∧
          e' = { e₁ with plugin := (Deed.allInstalls inside).getLast?.or (some p) } := by
  refine ⟨fun _ => perform?_eq_some_iff, perform?_eq_none_iff, fun _ _ h => ⟨h.plugin_eq, h.enters⟩, ?_, ?_, ?_⟩
  · intro f hr
    rw [perform?_of_reading hr]
    rfl
  · intro text d hr hplugin
    rw [perform?_of_reading hr, Engine.loaded?_of_none hplugin]
  · intro text d p hr hplugin
    refine ⟨e.opens_enter d p, fun _ _ h => h.plugin_ne, ?_, fun _ => perform?_iff_of_plugin hr hplugin⟩
    intro e₁ inside h
    exact ⟨h.runs_inside, ((e.accept_enters d).trans (e.enter_enters d p)).trans h.enters⟩

/-- a plugin that tries a text that is no document, installs another, lets a load run that one, and then runs the rules;
the other loads a document itself and installs a third -/
def Plugin.outer : Plugin :=
  ⟨"outer", [.load "<a> <b> .", .install ⟨"inner", [.load "<s> <p> <o> .", .install ⟨"third", []⟩]⟩,
    .load "<a> <b> <c> . {?x <b> ?y} => {?y <b> ?x} .", .reason]⟩

/-- the outer plugin and the inner one run once, and the third one is in place afterwards -/
theorem outer_disciplined : ∃ d e' reply e₁ inside,
    (Command.load "<x> <y> <z> .").reading? = some (.ok ("<x> <y> <z> .", d)) ∧
    Engine.perform? 2 { plugin := some .outer } (.load "<x> <y> <z> .") = some (e', reply) ∧
    Engine.Does 2 ((Engine.accept { plugin := some .outer } d).enter .outer) (some .outer) Plugin.outer.steps e₁ inside ∧
    Log.Enters #[] e₁.context.log (.outer :: Deed.allRuns inside) ∧
    e'.plugin = (Deed.allInstalls inside).getLast?.or (some .outer) ∧
    e'.plugin.map Plugin.name = some "third" ∧
    e'.context.log.toList.filterMap Entry.entered? = [("outer", .ready), ("inner", .ready)] := by
  have hends : (Engine.perform? 2 { plugin := some .outer } (.load "<x> <y> <z> .")).any (fun r =>
      r.1.plugin.map Plugin.name = some "third" &&
        r.1.context.log.toList.filterMap Entry.entered? = [("outer", .ready), ("inner", .ready)]) = true := by
    decide +kernel
  obtain ⟨⟨e', reply⟩, he, hfinal⟩ := (Option.any_eq_true _ _).1 hends
  simp only [Bool.and_eq_true, decide_eq_true_eq] at hfinal
  have hreads : (Document.ofText "<x> <y> <z> .").toOption.isSome = true := by decide +kernel
  obtain ⟨d, hd⟩ := Option.isSome_iff_exists.1 hreads
  have hr : (Command.load "<x> <y> <z> .").reading? = some (.ok ("<x> <y> <z> .", d)) := by
    simp only [Command.reading?, reading]
    cases hread : Document.ofText "<x> <y> <z> ." with
    | error err => simp [hread, Except.toOption] at hd
    | ok d' =>
      obtain rfl : d' = d := by simpa [hread, Except.toOption] using hd
      rfl
  obtain ⟨-, -, -, -, -, hload⟩ := plugins_disciplined 2 { plugin := some .outer } (.load "<x> <y> <z> .")
  obtain ⟨-, -, hrun, hiff⟩ := hload _ d .outer hr rfl
  obtain ⟨e₁, inside, hinside, rfl⟩ := (hiff e').1 ⟨reply, he⟩
  exact ⟨d, _, reply, e₁, inside, hr, he, hinside, (hrun e₁ inside hinside).2, rfl, hfinal⟩

end N3Rules
