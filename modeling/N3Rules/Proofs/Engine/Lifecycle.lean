/-
The life of an engine.

At every moment at which the caller or a plugin holds an engine, its status is told by the latest turn, and its
document by the latest text that was parsed. Nobody ever holds an engine that is still loading or reasoning. A load that
is refused changes nothing at all, whatever it is refused for.

- `Status.after`, `latestText?`: the status that turns lead to, and the text of the latest load;
- `Engine.Accords`: what the turns say about an engine, as far as each step hands it on;
- `Held.accords`: it holds at every moment;
- `held_lifecycle`: the life of an engine, as its holders see it, and the turns that commands take.
-/
import N3Rules.Proofs.Engine.Course

namespace N3Rules

/-! ## What the turns tell -/

/-- the status that turns lead to: the latest of them decides -/
def Status.after : List Turn → Status
  | [] => .idle
  | .parsed _ :: _ => .ready
  | .finished :: _ => .done
  | .stopped :: _ => .failed

/-- the text that was parsed last -/
def latestText? : List Turn → Option String
  | [] => none
  | .parsed text :: _ => some text
  | .finished :: ts | .stopped :: ts => latestText? ts

/-- a document is what a text says, with builtins that are searched first in a registry -/
structure Document.Loaded (text : String) (registry : Registry) (d : Document) : Prop where
  read : Document.ofText text = .ok { d with builtins := [] }
  builtins : d.builtins <+: registry.all

/-- what the turns of an engine say about it -/
structure Engine.Accords (ts : List Turn) (e : Engine) : Prop where
  status : e.status = Status.after ts
  current : e.context.registry.Current
  fresh : latestText? ts = none → e.state = .idle
  loaded : ∀ text, latestText? ts = some text → ∃ d, e.state.document? = some d ∧ d.Loaded text e.context.registry

/-- a text has no builtins -/
theorem Document.builtins_of_ofText {text : String} {d : Document} (h : Document.ofText text = .ok d) :
    d.builtins = [] := by
  simp only [Document.ofText, bind, Except.bind] at h
  repeat' split at h
  all_goals cases h
  rfl

theorem Status.after_eq_idle_iff {ts : List Turn} : Status.after ts = .idle ↔ ts = [] := by
  cases ts with
  | nil => simp [Status.after]
  | cons t ts => cases t <;> simp [Status.after]

/-- a state with a document to run is of no new engine -/
theorem Engine.Accords.latestText?_ne_none {ts : List Turn} {e : Engine} (h : e.Accords ts) {d : Document}
    (hd : e.state.document? = some d) : ∃ text, latestText? ts = some text := by
  cases ht : latestText? ts with
  | none =>
    rw [h.fresh ht] at hd
    cases hd
  | some text => exact ⟨text, rfl⟩

theorem State.document?_of_runnable {s : State} {d : Document} (h : s.runnable? = some d) : s.document? = some d := by
  cases s <;> simp_all [State.runnable?, State.document?]

theorem Document.Loaded.grows {text : String} {r r' : Registry} {d : Document} (h : d.Loaded text r)
    (hr : r.Grows r') : d.Loaded text r' :=
  ⟨h.read, h.builtins.trans hr.kept⟩

/-- the document that is put to use anew has all builtins that there are -/
theorem Document.Loaded.equip {text : String} {r : Registry} {d : Document} (h : d.Loaded text r) (e : Engine) :
    (e.rebuild.equip d).Loaded text e.rebuild.context.registry :=
  ⟨h.read, List.prefix_refl _⟩

/-! ## Each step -/

section Steps

variable {ts : List Turn} {e : Engine}

theorem Engine.accords_new (config : Config) : Engine.Accords [] { config } := by
  refine ⟨rfl, Registry.current_empty, fun _ => rfl, ?_⟩
  intro text h
  cases h

/-- an engine whose registry grew, and nothing else of which the turns tell -/
theorem Engine.Accords.grows (h : e.Accords ts) {e' : Engine} (hstate : e'.state = e.state)
    (hgrows : e.context.registry.Grows e'.context.registry) : e'.Accords ts := by
  refine ⟨?_, hgrows.current, ?_, ?_⟩
  · rw [Engine.status, hstate]
    exact h.status
  · rw [hstate]
    exact h.fresh
  · intro text ht
    obtain ⟨d, hd, hloaded⟩ := h.loaded text ht
    rw [hstate]
    exact ⟨d, hd, hloaded.grows hgrows⟩

theorem Engine.Accords.same (h : e.Accords ts) {e' : Engine} (hstate : e'.state = e.state)
    (hregistry : e'.context.registry = e.context.registry) : e'.Accords ts := by
  refine h.grows hstate ?_
  rw [hregistry]
  exact h.current.grows

theorem Engine.accords_accept (e : Engine) (ts : List Turn) {text : String} {d : Document}
    (hread : Document.ofText text = .ok d) : (e.accept d).Accords (.parsed text :: ts) := by
  have hgrows : e.rebuild.context.registry.Grows (e.accept d).context.registry :=
    Bus.announce_grows (Registry.current_rebuild _).grows _ _
  refine ⟨rfl, hgrows.current, ?_, ?_⟩
  · intro hnone
    cases hnone
  · intro text' htext
    cases htext
    refine ⟨e.rebuild.equip d, rfl, ⟨?_, hgrows.kept⟩⟩
    rw [hread, ← Document.builtins_of_ofText hread]
    rfl

/-- a run of the rules leaves the document in place, and the registry grown -/
theorem Engine.Accords.reason (h : e.Accords ts) {d : Document} (hd : e.state.runnable? = some d) {e' : Engine}
    {t : Turn} (ht : latestText? (t :: ts) = latestText? ts)
    (hdocument : e'.state.document? = some (e.rebuild.equip d)) (hstatus : e'.status = Status.after (t :: ts))
    (hgrows : e.rebuild.context.registry.Grows e'.context.registry) : e'.Accords (t :: ts) := by
  obtain ⟨text, htext⟩ := h.latestText?_ne_none (State.document?_of_runnable hd)
  obtain ⟨d', hd', hloaded⟩ := h.loaded text htext
  rw [State.document?_of_runnable hd] at hd'
  cases hd'
  refine ⟨hstatus, hgrows.current, ?_, ?_⟩
  · intro hnone
    rw [ht, htext] at hnone
    cases hnone
  · intro text' htext'
    rw [ht, htext] at htext'
    cases htext'
    exact ⟨_, hdocument, (hloaded.equip e).grows hgrows⟩

theorem Engine.Accords.told (h : e.Accords ts) {limit : Nat} {c : Command} {e' : Engine} {reply : Reply}
    (ht : e.Told limit c e' reply) : e'.Accords (reply.turns ++ ts) := by
  cases ht with
  | @refused c f hr =>
    have hturns : (Reply.failure f).turns = [] := by
      cases c <;> simp only [Command.reading?, reading] at hr <;> (repeat' split at hr) <;> cases hr <;> rfl
    rw [hturns]
    exact h
  | notReady => exact h
  | finished hd hrun => exact h.reason hd rfl rfl rfl (Run.ofDocument?_grows (Registry.current_rebuild _) hrun)
  | stopped hd hrun => exact h.reason hd rfl rfl rfl (Run.ofDocument?_grows_error (Registry.current_rebuild _) hrun)
  | registered bs => exact h.grows rfl (h.current.grows.registerAll bs)
  | subscribed s => exact h.same rfl rfl
  | installed p => exact h.same rfl rfl
  | document => exact h
  | uris => exact h
  | config => exact h

end Steps

theorem ofText_of_reading {c : Command} {text : String} {d : Document} (h : c.reading? = some (.ok (text, d))) :
    Document.ofText text = .ok d := by
  have hreading : ∀ {s : String}, reading s = .ok (text, d) → Document.ofText text = .ok d := by
    intro s hs
    unfold reading at hs
    split at hs
    · cases hs
    · rename_i hread
      cases hs
      exact hread
  cases c with
  | load s => exact hreading (Option.some.inj h)
  | loadAs s format =>
    simp only [Command.reading?] at h
    split at h
    · cases h
    · exact hreading (Option.some.inj h)
  | loadBytes bytes =>
    simp only [Command.reading?] at h
    split at h
    · cases h
    · exact hreading (Option.some.inj h)
  | _ => cases h

/-- what the turns say about an engine holds at every moment -/
theorem Held.accords {config : Config} {ts : List Turn} {ps : List Plugin} {e : Engine} (h : Held config ts ps e) :
    e.Accords ts := by
  induction h with
  | start => exact Engine.accords_new config
  | told _ hr hp ih => exact ih.told (performWith?_cases hr hp)
  | loaded _ hr _ _ => exact Engine.accords_accept _ _ (ofText_of_reading hr)
  | entered _ hr _ _ => exact (Engine.accords_accept _ _ (ofText_of_reading hr)).same rfl rfl
  | noted entry _ ih => exact ih.same rfl rfl
  | left _ ih => exact ih.same rfl rfl

/-! ## The life of an engine -/

/-- the life of an engine up to a moment at which somebody holds it -/
structure Lifecycle (ts : List Turn) (e : Engine) : Prop where
  /-- it is not busy -/
  settled : e.status ≠ .loading ∧ e.status ≠ .reasoning
  /-- the latest turn decides on its status -/
  status : e.status = Status.after ts
  /-- it is idle, and has no document, as long as no text was parsed -/
  idle : e.status = .idle ↔ ∀ text, .parsed text ∉ ts
  empty : e.state.document? = none ↔ ∀ text, .parsed text ∉ ts
  /-- its document says what the latest text says -/
  document : ∀ text, latestText? ts = some text → ∃ d, e.state.document? = some d ∧ d.Loaded text e.context.registry
  /-- it is not ready to run rules exactly when it is idle or failed -/
  notReady : ∀ limit, (∃ e' s, e.reason? limit = some (e', .failure (.notReady s))) ↔
    e.status = .idle ∨ e.status = .failed

theorem latestText?_eq_none_iff {ts : List Turn} : latestText? ts = none ↔ ∀ text, .parsed text ∉ ts := by
  induction ts with
  | nil => simp [latestText?]
  | cons t ts ih =>
    cases t with
    | parsed text =>
      refine ⟨fun h => ?_, fun h => absurd List.mem_cons_self (h text)⟩
      cases h
    | finished => simp [latestText?, ih]
    | stopped => simp [latestText?, ih]

theorem Engine.Accords.idle_iff {ts : List Turn} {e : Engine} (h : e.Accords ts) :
    e.status = .idle ↔ ∀ text, .parsed text ∉ ts := by
  rw [← latestText?_eq_none_iff]
  constructor
  · intro hidle
    rw [h.status, Status.after_eq_idle_iff] at hidle
    rw [hidle]
    rfl
  · intro hnone
    rw [Engine.status, h.fresh hnone]
    rfl

theorem Engine.Accords.empty_iff {ts : List Turn} {e : Engine} (h : e.Accords ts) :
    e.state.document? = none ↔ ∀ text, .parsed text ∉ ts := by
  rw [← latestText?_eq_none_iff]
  constructor
  · intro hempty
    cases ht : latestText? ts with
    | none => rfl
    | some text =>
      obtain ⟨d, hd, -⟩ := h.loaded text ht
      rw [hempty] at hd
      cases hd
  · intro hnone
    rw [h.fresh hnone]
    rfl

theorem Engine.Accords.settled {ts : List Turn} {e : Engine} (h : e.Accords ts) :
    e.status ≠ .loading ∧ e.status ≠ .reasoning := by
  rw [h.status]
  cases ts with
  | nil => simp [Status.after]
  | cons t ts => cases t <;> simp [Status.after]

/-- an engine that is not busy refuses to run rules exactly when it is idle or failed -/
theorem reason?_notReady_iff {e : Engine} (h : e.status ≠ .loading ∧ e.status ≠ .reasoning) (limit : Nat) :
    (∃ e' s, e.reason? limit = some (e', .failure (.notReady s))) ↔ e.status = .idle ∨ e.status = .failed := by
  have hrunnable : e.state.runnable? = none ↔ e.status = .idle ∨ e.status = .failed := by
    unfold Engine.status at h ⊢
    cases hs : e.state <;> simp_all [State.runnable?, State.status]
  rw [← hrunnable]
  constructor
  · rintro ⟨e', s, hreason⟩
    cases reason?_cases hreason with
    | refused hr => cases hr
    | notReady hnone => exact hnone
  · intro hnone
    refine ⟨e, e.status, ?_⟩
    simp only [Engine.reason?, hnone]

theorem Engine.Accords.lifecycle {ts : List Turn} {e : Engine} (h : e.Accords ts) : Lifecycle ts e :=
  ⟨h.settled, h.status, h.idle_iff, h.empty_iff, h.loaded, reason?_notReady_iff h.settled⟩

/-- **Lifecycle.** Whoever holds an engine finds it as its turns tell. A load that is refused changes nothing, and is
refused for what reading its text gives. A command that reads a document takes the turn of that, and then those of the
plugin that the load runs, to any depth; any other command takes the turn that its reply tells of, or none. Commands come
to an engine exactly if they take a course to it, and whoever holds the engine on the way holds it after the turns of the
course up to then. -/
theorem held_lifecycle {config : Config} {ts : List Turn} {ps : List Plugin} {e : Engine} (h : Held config ts ps e) :
    Lifecycle ts e ∧
    (∀ c r, c.reading? = some r → ∀ run limit e' f,
      e.performWith? run limit c = some (e', .failure f) ↔ r = .error f ∧ e' = e) ∧
    (∀ limit depth c e' reply, e.depth ≤ depth → c.depth ≤ depth →
      e.performWith? (Plugin.run? limit depth) limit c = some (e', reply) →
      ((∀ r, c.reading? ≠ some (.ok r)) → Held config (reply.turns ++ ts) ps e') ∧
      ∀ text d, c.reading? = some (.ok (text, d)) → reply = .done ∧
        ∃ inside, e.Takes limit none [c] e' (inside ++ [.parsed text]) ∧
          Held config (inside ++ .parsed text :: ts) ps e') ∧
    ∀ limit cs,
      (∀ e', e.performAll? limit cs = some e' ↔ ∃! ts', e.Takes limit none cs e' ts') ∧
      (∀ e' ts', e.Takes limit none cs e' ts' → Held config (ts' ++ ts) ps e') ∧
      ∀ e₁ ps' ts', e.Reaches limit none cs e₁ ps' ts' → Held config (ts' ++ ts) (ps' ++ ps) e₁ := by
  have hcaller : ∀ p ∈ (none : Option Plugin), p ∈ ps.head? := by simp
  refine ⟨h.accords.lifecycle, ?_, ?_, fun limit cs => ⟨fun e' => performAll?_eq_some_iff, ?_, ?_⟩⟩
  · intro c r hr run limit e' f
    rw [performWith?_of_reading hr]
    cases r with
    | error f' => simp [Engine.loaded?, eq_comm, and_comm]
    | ok r => simp [Engine.loaded?]
  · intro limit depth c e' reply he hc hp
    refine ⟨fun hr => h.told hr hp, fun text d hr => ?_⟩
    obtain ⟨ts', htakes⟩ := performWith?_takes he hc hp
    obtain ⟨inside, rfl⟩ := htakes.parsed_first hr
    rw [performWith?_of_reading hr] at hp
    obtain ⟨last, -, hpair⟩ := Option.map_eq_some_iff.1 hp
    have hheld := h.takes hcaller htakes
    rw [List.append_assoc] at hheld
    exact ⟨(congrArg Prod.snd hpair).symm, inside, htakes, hheld⟩
  · intro e' ts' htakes
    exact h.takes hcaller htakes
  · intro e₁ ps' ts' hreaches
    exact h.reaches hcaller hreaches

/-- loads of all outcomes, nested in each other: the plugin that the last load runs tries a text that is no document,
puts another plugin in its place, and loads a text that makes this one run the rules -/
def nestedLoads : List Command :=
  [.reason, .load "<a> <b> .",
    .install ⟨"outer", [.load "<a> <b> .", .install ⟨"inner", [.reason, .loadBytes [0xFF]]⟩,
      .load "<a> <b> <c> . {?x <b> ?y} => {?y <b> ?x} .", .loadAs "<a> <b> <c> ." "turtle"]⟩,
    .load "<x> <y> <z> ."]

/-- after the nested loads the engine is done with the document that the plugin loaded -/
theorem nested_loads_done : ∃ ts e, Engine.performAll? 2 {} nestedLoads = some e ∧ Held {} ts [] e ∧ Lifecycle ts e ∧
    Status.after ts = .done ∧
    e.state.document?.map Document.triples = some [⟨.iri "a", .iri "b", .iri "c"⟩] := by
  have hends : (Engine.performAll? 2 {} nestedLoads).any (fun e => e.status = .done &&
      e.state.document?.map Document.triples = some [⟨.iri "a", .iri "b", .iri "c"⟩]) = true := by
    decide +kernel
  obtain ⟨e, he, hfinal⟩ := (Option.any_eq_true _ _).1 hends
  simp only [Bool.and_eq_true, decide_eq_true_eq] at hfinal
  obtain ⟨-, -, -, hall⟩ := held_lifecycle (Held.start : Held {} [] [] {})
  obtain ⟨hcourse, htakes, -⟩ := hall 2 nestedLoads
  obtain ⟨ts, hts, -⟩ := (hcourse e).1 he
  have hheld := htakes e ts hts
  have hlife := (held_lifecycle hheld).1
  exact ⟨_, e, he, hheld, hlife, hlife.status.symm.trans hfinal.1, hfinal.2⟩

end N3Rules
