/-
What an IRI names stays the same for the life of an engine.

A registry only ever gets builtins behind those that it has, whoever registers them, and the first builtin with an IRI is
the one that the IRI names. So a builtin that is registered under an IRI which names another one is never found, and an
IRI that names a builtin goes on to name it. In particular nobody can take the place of a core builtin.

- `IsFirst`: the first builtin of a list with an IRI;
- `Registry.Holds`: what a registry holds, and what it answers, after things are done to a new one;
- `Registry.Keeps`: what a registry answered, another one still answers;
- `performWith?_leadsTo`, `Held.registry_leadsTo`: nothing but registrations happens to the registry of an engine;
- `registrations_kept`: the result.
-/
import N3Rules.Proofs.Engine.Course

namespace N3Rules

/-! ## Looking up -/

/-- a builtin is the first of a list with an IRI -/
def IsFirst (uri : String) (b : Builtin) (bs : List Builtin) : Prop :=
  ∃ earlier later, bs = earlier ++ b :: later ∧ b.uri = uri ∧ ∀ x ∈ earlier, x.uri ≠ uri

theorem Registry.lookup?_eq_some_iff {r : Registry} {uri : String} {b : Builtin} :
    r.lookup? uri = some b ↔ IsFirst uri b r.all := by
  rw [Registry.lookup?, List.find?_eq_some_iff_append]
  constructor
  · rintro ⟨huri, earlier, later, hall, hearlier⟩
    refine ⟨earlier, later, hall, by simpa using huri, ?_⟩
    intro x hx
    simpa using hearlier x hx
  · rintro ⟨earlier, later, hall, huri, hearlier⟩
    refine ⟨by simpa using huri, earlier, later, hall, ?_⟩
    intro x hx
    simpa using hearlier x hx

theorem Registry.lookup?_eq_none_iff {r : Registry} {uri : String} :
    r.lookup? uri = none ↔ ∀ b ∈ r.all, b.uri ≠ uri := by
  simp [Registry.lookup?]

theorem Registry.named?_eq_some_iff {r : Registry} {t : Term} {b : Builtin} :
    r.named? t = some b ↔ ∃ uri, t = .iri uri ∧ r.lookup? uri = some b := by
  cases t <;> simp [Registry.named?]

/-- the first builtin of a list with an IRI is the first of every longer list -/
theorem IsFirst.of_extension {uri : String} {b : Builtin} {bs bs' : List Builtin} (h : IsFirst uri b bs)
    (hkept : bs <+: bs') : IsFirst uri b bs' := by
  obtain ⟨earlier, later, rfl, huri, hearlier⟩ := h
  obtain ⟨more, rfl⟩ := hkept
  exact ⟨earlier, later ++ more, by simp, huri, hearlier⟩

/-- no two core builtins have one IRI -/
theorem nodup_coreBuiltins : (coreBuiltins.map Builtin.uri).Nodup := by
  decide +kernel

theorem isFirst_core {b : Builtin} (hb : b ∈ coreBuiltins) : IsFirst b.uri b coreBuiltins := by
  obtain ⟨earlier, later, hsplit⟩ := List.append_of_mem hb
  refine ⟨earlier, later, hsplit, rfl, ?_⟩
  intro x hx hsame
  have hnodup := nodup_coreBuiltins
  rw [hsplit, List.map_append, List.map_cons] at hnodup
  have hx' : x.uri ∈ earlier.map Builtin.uri := List.mem_map_of_mem hx
  exact (List.nodup_append.1 hnodup).2.2 x.uri hx' b.uri List.mem_cons_self hsame

/-! ## What a registry holds -/

theorem Registry.registered_registerAll (r : Registry) (bs : List Builtin) :
    (r.registerAll bs).registered = r.registered ++ bs := by
  induction bs generalizing r with
  | nil => exact (List.append_nil _).symm
  | cons b bs ih =>
    change ((r.register b).registerAll bs).registered = r.registered ++ b :: bs
    rw [ih, Registry.register, Registry.rebuild, List.append_assoc, List.singleton_append]

theorem Registry.registered_perform (r : Registry) (op : Registration) :
    (r.perform op).registered = r.registered ++ op.builtins := by
  cases op with
  | one b => rfl
  | many bs => exact r.registered_registerAll bs
  | rebuild => exact (List.append_nil _).symm

theorem Registry.registered_after (r : Registry) (ops : List Registration) :
    (r.after ops).registered = r.registered ++ ops.flatMap Registration.builtins := by
  induction ops generalizing r with
  | nil => exact (List.append_nil _).symm
  | cons op ops ih =>
    change ((r.perform op).after ops).registered = _
    rw [ih, registered_perform, List.flatMap_cons, List.append_assoc]

/-- what a registry holds, and what it answers, after things are done to a new one -/
structure Registry.Holds (ops : List Registration) (r : Registry) : Prop where
  /-- it is searched through the core builtins, and then through the registered ones in the order of registration -/
  all : r.all = coreBuiltins ++ ops.flatMap Registration.builtins
  registered : r.registered = ops.flatMap Registration.builtins
  uris : r.uris = (coreBuiltins ++ ops.flatMap Registration.builtins).map Builtin.uri
  found : ∀ uri b, r.lookup? uri = some b ↔ IsFirst uri b r.all
  missing : ∀ uri, r.lookup? uri = none ↔ ∀ b ∈ r.all, b.uri ≠ uri
  /-- a predicate names the builtin that is found under its IRI, and only an IRI names one -/
  named : ∀ t b, r.named? t = some b ↔ ∃ uri, t = .iri uri ∧ IsFirst uri b r.all
  core : ∀ b ∈ coreBuiltins, r.lookup? b.uri = some b ∧ r.named? (.iri b.uri) = some b

theorem Registry.holds_after (ops : List Registration) : (({} : Registry).after ops).Holds ops := by
  have hcurrent : (({} : Registry).after ops).Current :=
    (Registry.current_empty.grows.leadsTo ⟨ops, rfl⟩).current
  have hregistered : (({} : Registry).after ops).registered = ops.flatMap Registration.builtins :=
    Registry.registered_after {} ops
  have hall := hcurrent
  rw [Registry.Current, hregistered] at hall
  have hcore : ∀ b ∈ coreBuiltins, (({} : Registry).after ops).lookup? b.uri = some b := by
    intro b hb
    rw [Registry.lookup?_eq_some_iff, hall]
    exact (isFirst_core hb).of_extension (List.prefix_append _ _)
  refine ⟨hall, hregistered, by rw [Registry.uris, hall], ?_, ?_, ?_, fun b hb => ⟨hcore b hb, hcore b hb⟩⟩
  · exact fun uri b => Registry.lookup?_eq_some_iff
  · exact fun uri => Registry.lookup?_eq_none_iff
  · intro t b
    simp only [Registry.named?_eq_some_iff, Registry.lookup?_eq_some_iff]

/-- what a registry answered, another one still answers -/
structure Registry.Keeps (r r' : Registry) : Prop where
  all : r.all <+: r'.all
  found : ∀ uri b, r.lookup? uri = some b → r'.lookup? uri = some b
  named : ∀ t b, r.named? t = some b → r'.named? t = some b

theorem Registry.keeps_of_extension {r r' : Registry} (h : r.all <+: r'.all) : r.Keeps r' := by
  have hfound : ∀ uri b, r.lookup? uri = some b → r'.lookup? uri = some b := by
    intro uri b hb
    rw [Registry.lookup?_eq_some_iff] at hb ⊢
    exact hb.of_extension h
  refine ⟨h, hfound, ?_⟩
  intro t b hb
  obtain ⟨uri, rfl, hlookup⟩ := Registry.named?_eq_some_iff.1 hb
  exact hfound uri b hlookup

/-! ## The registry of an engine -/

theorem Engine.accept_leadsTo (e : Engine) (d : Document) :
    e.context.registry.LeadsTo (e.accept d).context.registry :=
  e.context.registry.leadsTo_rebuild.trans (e.bus.announce_leadsTo _ _)

theorem Engine.Told.registry_leadsTo {limit : Nat} {e e' : Engine} {c : Command} {reply : Reply}
    (h : e.Told limit c e' reply) : e.context.registry.LeadsTo e'.context.registry := by
  cases h with
  | finished _ hrun => exact e.context.registry.leadsTo_rebuild.trans (Run.ofDocument?_leadsTo hrun)
  | stopped _ hrun => exact e.context.registry.leadsTo_rebuild.trans (Run.ofDocument?_leadsTo_error hrun)
  | registered bs => exact e.context.registry.leadsTo_registerAll bs
  | _ => exact .refl _

/-- a command does nothing else to the registry, if running a plugin does not -/
theorem performWith?_leadsTo {run : Plugin → Engine → Option Engine}
    (hrun : ∀ p e e', run p e = some e' → e.context.registry.LeadsTo e'.context.registry) {limit : Nat}
    {e e' : Engine} {c : Command} {reply : Reply} (h : e.performWith? run limit c = some (e', reply)) :
    e.context.registry.LeadsTo e'.context.registry := by
  by_cases hok : ∃ r, c.reading? = some (.ok r)
  · obtain ⟨⟨text, d⟩, hr⟩ := hok
    rw [performWith?_of_reading hr] at h
    obtain ⟨last, hlast, hpair⟩ := Option.map_eq_some_iff.1 h
    cases hpair
    refine (e.accept_leadsTo d).trans ?_
    unfold Engine.runPlugin? at hlast
    split at hlast
    · cases hlast
      exact .refl _
    · exact hrun _ _ _ hlast
  · exact (performWith?_cases (fun r hr => hok ⟨r, hr⟩) h).registry_leadsTo

/-- what every step of a fold keeps, the fold keeps -/
theorem foldlM_keeps {σ α : Type} {P : σ → Prop} {f : σ → α → Option σ} {xs : List α}
    (step : ∀ x ∈ xs, ∀ s s', P s → f s x = some s' → P s') {s s' : σ} (h : P s) (hf : xs.foldlM f s = some s') :
    P s' := by
  induction xs generalizing s with
  | nil =>
    cases hf
    exact h
  | cons x xs ih =>
    obtain ⟨mid, hx, hxs⟩ := Option.bind_eq_some_iff.1 hf
    have hrest : ∀ y ∈ xs, ∀ s s', P s → f s y = some s' → P s' := fun y hy => step y (List.mem_cons_of_mem x hy)
    exact ih hrest (step x List.mem_cons_self s mid h hx) hxs

/-- nor does a plugin, to any depth -/
theorem Plugin.run?_leadsTo (limit depth : Nat) : ∀ (p : Plugin) (e e' : Engine),
    Plugin.run? limit depth p e = some e' → e.context.registry.LeadsTo e'.context.registry := by
  induction depth with
  | zero =>
    intro p e e' h
    cases h
    exact .refl _
  | succ depth ih =>
    intro p e e' h
    obtain ⟨last, hsteps, hlast⟩ := Option.bind_eq_some_iff.1 h
    cases hlast
    refine foldlM_keeps (P := fun s => e.context.registry.LeadsTo s.context.registry) ?_ (.refl _) hsteps
    intro step _ s s' hs hs'
    obtain ⟨⟨next, reply⟩, hperform, hnext⟩ := Option.bind_eq_some_iff.1 hs'
    obtain rfl : next.record (.stepped p.name reply) = s' := Option.some.inj hnext
    have hnext : s.context.registry.LeadsTo next.context.registry := performWith?_leadsTo ih hperform
    exact hs.trans hnext

theorem Held.registry_leadsTo {config : Config} {ts : List Turn} {ps : List Plugin} {e : Engine}
    (h : Held config ts ps e) : ({} : Registry).LeadsTo e.context.registry := by
  induction h with
  | start => exact .refl _
  | told _ hr hp ih => exact ih.trans (performWith?_cases hr hp).registry_leadsTo
  | loaded _ _ _ ih => exact ih.trans (Engine.accept_leadsTo _ _)
  | entered _ _ _ ih => exact ih.trans (Engine.accept_leadsTo _ _)
  | noted _ _ ih => exact ih
  | left _ ih => exact ih

/-- **What an IRI names stays the same.** Whatever is registered in a new registry, it is searched through the core
builtins and then through the registered ones, an IRI names the first builtin that has it, and whatever is registered
later, the IRI goes on to name that builtin. Callers, plugins and subscribers do nothing else to the registry of an
engine: it comes from a new one whenever somebody holds the engine, and in a command, at any point of a run of rules and
for every subscriber to a notice, from the registry before it. -/
theorem registrations_kept :
    (∀ ops, (({} : Registry).after ops).Holds ops) ∧
    (∀ ops later, (({} : Registry).after ops).Keeps (({} : Registry).after (ops ++ later))) ∧
    (∀ config ts ps e, Held config ts ps e → ∃ ops, e.context.registry = ({} : Registry).after ops) ∧
    (∀ limit depth e c e' reply, Engine.performWith? (Plugin.run? limit depth) limit e c = some (e', reply) →
      ∃ later, e'.context.registry = e.context.registry.after later) ∧
    (∀ bus d c stage run, Reached bus d c stage run → ∃ later, run.context.registry = c.registry.after later) ∧
    ∀ bus notice c heard,
      (∃ later, (Bus.announcing bus notice c heard).registry = c.registry.after later) ∧
      ∃ later, (Bus.announce bus notice c).registry = (Bus.announcing bus notice c heard).registry.after later := by
  refine ⟨Registry.holds_after, ?_, ?_, ?_, ?_, Bus.announcing_leadsTo⟩
  · intro ops later
    have hcurrent : (({} : Registry).after ops).Current :=
      (Registry.current_empty.grows.leadsTo ⟨ops, rfl⟩).current
    rw [Registry.after_append]
    exact Registry.keeps_of_extension (hcurrent.grows.leadsTo ⟨later, rfl⟩).kept
  · exact fun config ts ps e h => h.registry_leadsTo
  · exact fun limit depth e c e' reply h => performWith?_leadsTo (Plugin.run?_leadsTo limit depth) h
  · exact fun bus d c stage run h => h.registry_leadsTo

/-- a builtin without an answer -/
def mute (uri : String) (arity : Arity) : Builtin where
  uri := uri
  arity := arity
  answer? _ := none

/-- a caller, a subscriber and a plugin that register builtins under IRIs which are taken -/
def collidingCommands : List Command :=
  [.register [mute (logNamespace ++ "equalTo") .unary],
    .subscribe ⟨.afterLoad, "first", fun _ _ _ => { registers := [mute "urn:t#same" .unary] }⟩,
    .install ⟨"second", [.register [mute "urn:t#same" .ternary, mute "urn:t#other" .binary], .reason]⟩,
    .load "<a> <b> <c> ."]

/-- the first of them is found, and the core builtin is -/
theorem colliding_builtins_found : ∃ ts e ops, Engine.performAll? 2 {} collidingCommands = some e ∧
    Held {} ts [] e ∧ e.context.registry = ({} : Registry).after ops ∧ e.context.registry.Holds ops ∧
    (["urn:t#same", "urn:t#other", logNamespace ++ "equalTo"].map fun uri =>
      (e.context.registry.lookup? uri).map Builtin.arity) = [some .unary, some .binary, some .binary] := by
  have hends : (Engine.performAll? 2 {} collidingCommands).any (fun e =>
      (["urn:t#same", "urn:t#other", logNamespace ++ "equalTo"].map fun uri =>
        (e.context.registry.lookup? uri).map Builtin.arity) = [some .unary, some .binary, some .binary]) = true := by
    decide +kernel
  obtain ⟨e, he, hfinal⟩ := (Option.any_eq_true _ _).1 hends
  obtain ⟨ts, htakes⟩ := performAll?_takes_iff.1 he
  have hheld := (Held.start : Held {} [] [] {}).takes (by simp) htakes
  obtain ⟨hholds, -, hengine, -⟩ := registrations_kept
  obtain ⟨ops, hops⟩ := hengine _ _ _ e hheld
  exact ⟨_, e, ops, he, hheld, hops, hops ▸ hholds ops, by simpa using hfinal⟩

end N3Rules
