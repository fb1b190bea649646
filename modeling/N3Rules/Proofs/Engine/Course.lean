/-
The course that commands take.

A command that reads a document takes a turn, and then those of the plugin that the load runs, if it finds one; any
other command takes the turn that its reply tells of, or none. `Engine.Takes` says so for commands in a row, to any
depth, and the engine takes these turns and no others: it comes to an engine exactly if there is a course to it, and
there is one course at most. Whoever holds the engine on the way holds it after the turns that were taken by then.

- `Engine.Takes`: what commands do, with the turns that they take;
- `takes_cons_iff`, `Engine.Takes.unique`: a course goes from command to command, and there is no other;
- `performWith?_takes`, `performAll?_eq_some_iff`: the engine takes the course;
- `Engine.Reaches`: who holds the engine on the way;
- `Held.takes`, `Held.reaches`: courses lead from held engines to held ones.
-/
import N3Rules.Proofs.Engine.Plugins

namespace N3Rules

/-! ## Courses -/

/-- what commands do that the caller or a plugin gives, up to the engine after them, with the turns that they take, the
latest first -/
inductive Engine.Takes (limit : Nat) : Engine → Option Plugin → List Command → Engine → List Turn → Prop where
  | nil {e : Engine} {holder : Option Plugin} : Takes limit e holder [] e []
  /-- a command that puts no document in place, a refused load among them -/
  | told {e e₁ e' : Engine} {holder : Option Plugin} {c : Command} {cs : List Command} {reply : Reply} {ts : List Turn} :
      (∀ r, c.reading? ≠ some (.ok r)) → e.Told limit c e₁ reply →
      Takes limit (e₁.noted holder reply) holder cs e' ts → Takes limit e holder (c :: cs) e' (ts ++ reply.turns)
  /-- a load that finds no plugin -/
  | loaded {e e' : Engine} {holder : Option Plugin} {c : Command} {text : String} {d : Document} {cs : List Command}
      {ts : List Turn} : c.reading? = some (.ok (text, d)) → e.plugin = none →
      Takes limit ((e.accept d).noted holder .done) holder cs e' ts →
      Takes limit e holder (c :: cs) e' (ts ++ [.parsed text])
  /-- a load that finds a plugin, and runs it -/
  | ran {e e₁ e' : Engine} {holder : Option Plugin} {c : Command} {text : String} {d : Document} {p : Plugin}
      {cs : List Command} {inside ts : List Turn} : c.reading? = some (.ok (text, d)) → e.plugin = some p →
      Takes limit ((e.accept d).enter p) (some p) p.steps e₁ inside →
      Takes limit ((e₁.leave p).noted holder .done) holder cs e' ts →
      Takes limit e holder (c :: cs) e' (ts ++ (inside ++ [.parsed text]))

section Takes

variable {limit : Nat} {e e' : Engine} {holder : Option Plugin} {c : Command} {cs : List Command} {ts : List Turn}

@[simp]
theorem takes_nil_iff : e.Takes limit holder [] e' ts ↔ e' = e ∧ ts = [] := by
  constructor
  · rintro ⟨⟩
    exact ⟨rfl, rfl⟩
  · rintro ⟨rfl, rfl⟩
    exact .nil

/-- a course goes from command to command -/
theorem takes_cons_iff : e.Takes limit holder (c :: cs) e' ts ↔
    ∃ e₁ first later, e.Takes limit holder [c] e₁ first ∧ e₁.Takes limit holder cs e' later ∧ ts = later ++ first := by
  constructor
  · intro h
    cases h with
    | told hr ht hrest => exact ⟨_, _, _, .told hr ht .nil, hrest, rfl⟩
    | loaded hr hplugin hrest => exact ⟨_, _, _, .loaded hr hplugin .nil, hrest, rfl⟩
    | ran hr hplugin hinside hrest => exact ⟨_, _, _, .ran hr hplugin hinside .nil, hrest, rfl⟩
  · rintro ⟨e₁, first, later, hfirst, hlater, rfl⟩
    cases hfirst with
    | told hr ht hrest =>
      obtain ⟨rfl, rfl⟩ := takes_nil_iff.1 hrest
      exact .told hr ht hlater
    | loaded hr hplugin hrest =>
      obtain ⟨rfl, rfl⟩ := takes_nil_iff.1 hrest
      exact .loaded hr hplugin hlater
    | ran hr hplugin hinside hrest =>
      obtain ⟨rfl, rfl⟩ := takes_nil_iff.1 hrest
      exact .ran hr hplugin hinside hlater

/-- what a command does that puts no document in place is settled -/
theorem Engine.Told.unique {e₁ e₂ : Engine} {reply reply' : Reply} (h : e.Told limit c e₁ reply)
    (h' : e.Told limit c e₂ reply') : e₁ = e₂ ∧ reply = reply' := by
  have hsame := h.performWith? fun _ e => some e
  rw [h'.performWith?] at hsame
  cases hsame
  exact ⟨rfl, rfl⟩

/-- commands take one course at most -/
theorem Engine.Takes.unique (h : e.Takes limit holder cs e' ts) {e'' : Engine} {ts' : List Turn}
    (h' : e.Takes limit holder cs e'' ts') : e' = e'' ∧ ts = ts' := by
  induction h generalizing e'' ts' with
  | nil =>
    obtain ⟨rfl, rfl⟩ := takes_nil_iff.1 h'
    exact ⟨rfl, rfl⟩
  | told hr ht _ ih =>
    cases h' with
    | told _ ht' hrest =>
      obtain ⟨rfl, rfl⟩ := ht.unique ht'
      obtain ⟨rfl, rfl⟩ := ih hrest
      exact ⟨rfl, rfl⟩
    | loaded hr' => exact absurd hr' (hr _)
    | ran hr' => exact absurd hr' (hr _)
  | loaded hr hplugin _ ih =>
    cases h' with
    | told hr' => exact absurd hr (hr' _)
    | loaded hr' _ hrest =>
      cases hr.symm.trans hr'
      obtain ⟨rfl, rfl⟩ := ih hrest
      exact ⟨rfl, rfl⟩
    | ran _ hplugin' => cases hplugin.symm.trans hplugin'
  | ran hr hplugin _ _ ihinside ih =>
    cases h' with
    | told hr' => exact absurd hr (hr' _)
    | loaded _ hplugin' => cases hplugin.symm.trans hplugin'
    | ran hr' hplugin' hinside hrest =>
      cases hr.symm.trans hr'
      cases hplugin.symm.trans hplugin'
      obtain ⟨rfl, rfl⟩ := ihinside hinside
      obtain ⟨rfl, rfl⟩ := ih hrest
      exact ⟨rfl, rfl⟩

/-! ## The engine takes the course -/

/-- commands that come to an engine by their deeds take a course to it -/
theorem Engine.Does.takes {ds : List Deed} (h : e.Does limit holder cs e' ds) : ∃ ts, e.Takes limit holder cs e' ts := by
  induction h with
  | nil => exact ⟨[], .nil⟩
  | told hr _ ht _ ih =>
    obtain ⟨ts, hts⟩ := ih
    exact ⟨_, .told hr ht hts⟩
  | installed _ ih =>
    obtain ⟨ts, hts⟩ := ih
    refine ⟨_, .told ?_ (.installed _) hts⟩
    rintro r ⟨⟩
  | loaded hr hplugin _ ih =>
    obtain ⟨ts, hts⟩ := ih
    exact ⟨_, .loaded hr hplugin hts⟩
  | ran hr hplugin hinside _ ihinside ih =>
    obtain ⟨inside, htakes⟩ := ihinside
    obtain ⟨ts, hts⟩ := ih
    rw [← hinside.leave_eq] at hts
    exact ⟨_, .ran hr hplugin htakes hts⟩

theorem Engine.Takes.does (h : e.Takes limit holder cs e' ts) : ∃ ds, e.Does limit holder cs e' ds := by
  induction h with
  | nil => exact ⟨[], .nil⟩
  | @told _ _ _ _ c _ _ _ hr ht _ ih =>
    obtain ⟨ds, hds⟩ := ih
    by_cases hc : ∃ p, c = .install p
    · obtain ⟨p, rfl⟩ := hc
      cases ht with
      | refused href => cases href
      | installed => exact ⟨_, .installed hds⟩
    · exact ⟨ds, .told hr (fun p hp => hc ⟨p, hp⟩) ht hds⟩
  | loaded hr hplugin _ ih =>
    obtain ⟨ds, hds⟩ := ih
    exact ⟨ds, .loaded hr hplugin hds⟩
  | ran hr hplugin _ _ ihinside ih =>
    obtain ⟨inside, hinside⟩ := ihinside
    obtain ⟨ds, hds⟩ := ih
    rw [hinside.leave_eq] at hds
    exact ⟨_, .ran hr hplugin hinside hds⟩

theorem takes_iff_does : (∃ ts, e.Takes limit holder cs e' ts) ↔ ∃ ds, e.Does limit holder cs e' ds :=
  ⟨fun ⟨_, h⟩ => h.does, fun ⟨_, h⟩ => h.takes⟩

theorem perform?_takes_iff : (∃ reply, e.perform? limit c = some (e', reply)) ↔ ∃ ts, e.Takes limit none [c] e' ts :=
  perform?_eq_some_iff.trans takes_iff_does.symm

end Takes

/-- commands of the caller come to an engine exactly if they take a course to it -/
theorem performAll?_takes_iff {limit : Nat} {cs : List Command} {e e' : Engine} :
    e.performAll? limit cs = some e' ↔ ∃ ts, e.Takes limit none cs e' ts := by
  induction cs generalizing e with
  | nil => simp [Engine.performAll?, eq_comm]
  | cons c cs ih =>
    have hcons : e.performAll? limit (c :: cs) =
        ((e.perform? limit c).map (·.1)).bind fun e₁ => e₁.performAll? limit cs := rfl
    have hfirst : ∀ e₁, (e.perform? limit c).map (·.1) = some e₁ ↔ ∃ ts, e.Takes limit none [c] e₁ ts := by
      intro e₁
      rw [← perform?_takes_iff]
      simp
    rw [hcons, Option.bind_eq_some_iff]
    simp only [hfirst, ih]
    constructor
    · rintro ⟨e₁, ⟨first, hfirst⟩, later, hlater⟩
      exact ⟨_, takes_cons_iff.2 ⟨e₁, first, later, hfirst, hlater, rfl⟩⟩
    · rintro ⟨ts, hts⟩
      obtain ⟨e₁, first, later, hfirst, hlater, -⟩ := takes_cons_iff.1 hts
      exact ⟨e₁, ⟨first, hfirst⟩, later, hlater⟩

/-- and then it is one course -/
theorem performAll?_eq_some_iff {limit : Nat} {cs : List Command} {e e' : Engine} :
    e.performAll? limit cs = some e' ↔ ∃! ts, e.Takes limit none cs e' ts := by
  rw [performAll?_takes_iff]
  constructor
  · rintro ⟨ts, hts⟩
    exact ⟨ts, hts, fun ts' hts' => (hts'.unique hts).2⟩
  · rintro ⟨ts, hts, -⟩
    exact ⟨ts, hts⟩

/-- a command of whoever holds the engine takes a course -/
theorem performWith?_takes {limit depth : Nat} {e e' : Engine} {c : Command} {reply : Reply} (he : e.depth ≤ depth)
    (hc : c.depth ≤ depth) (h : e.performWith? (Plugin.run? limit depth) limit c = some (e', reply)) :
    ∃ ts, e.Takes limit none [c] e' ts := by
  have hcs : Command.maxDepth [c] ≤ depth := by simpa [Command.maxDepth] using hc
  have hcarried : e.carryOut? limit depth none [c] = some e' := by
    rw [Engine.carryOut?_cons, h]
    rfl
  exact takes_iff_does.2 ((carryOut?_eq_some_iff he hcs).1 hcarried)

/-- a command that reads a document takes the turn of that first -/
theorem Engine.Takes.parsed_first {limit : Nat} {e e' : Engine} {holder : Option Plugin} {c : Command} {ts : List Turn}
    (h : e.Takes limit holder [c] e' ts) {text : String} {d : Document} (hr : c.reading? = some (.ok (text, d))) :
    ∃ inside, ts = inside ++ [.parsed text] := by
  cases h with
  | told hr' => exact absurd hr (hr' _)
  | loaded hr' _ hrest =>
    cases hr.symm.trans hr'
    obtain ⟨-, rfl⟩ := takes_nil_iff.1 hrest
    exact ⟨[], rfl⟩
  | ran hr' _ _ hrest =>
    cases hr.symm.trans hr'
    obtain ⟨-, rfl⟩ := takes_nil_iff.1 hrest
    exact ⟨_, rfl⟩

/-! ## Who holds the engine on the way -/

/-- in the course of commands, whoever holds the engine finds it like this, when these plugins were entered, the
innermost first, and these turns were taken -/
inductive Engine.Reaches (limit : Nat) : Engine → Option Plugin → List Command → Engine → List Plugin → List Turn → Prop
    where
  | now {e : Engine} {holder : Option Plugin} {cs : List Command} : Reaches limit e holder cs e [] []
  | later {e e₁ e₂ : Engine} {holder : Option Plugin} {c : Command} {cs : List Command} {ps : List Plugin}
      {first ts : List Turn} : e.Takes limit holder [c] e₁ first → Reaches limit e₁ holder cs e₂ ps ts →
      Reaches limit e holder (c :: cs) e₂ ps (ts ++ first)
  | inside {e e₂ : Engine} {holder : Option Plugin} {c : Command} {cs : List Command} {text : String} {d : Document}
      {p : Plugin} {ps : List Plugin} {ts : List Turn} : c.reading? = some (.ok (text, d)) → e.plugin = some p →
      Reaches limit ((e.accept d).enter p) (some p) p.steps e₂ ps ts →
      Reaches limit e holder (c :: cs) e₂ (ps ++ [p]) (ts ++ [.parsed text])

/-- an engine is held by the same after its holder noted something, who is the innermost plugin or else the caller -/
theorem Held.after_noted {config : Config} {ts : List Turn} {ps : List Plugin} {e : Engine} (h : Held config ts ps e)
    {holder : Option Plugin} (hholder : ∀ p ∈ holder, p ∈ ps.head?) (reply : Reply) :
    Held config ts ps (e.noted holder reply) := by
  cases holder with
  | none => exact h
  | some p =>
    obtain ⟨outer, rfl⟩ := List.head?_eq_some_iff.1 (hholder p rfl)
    exact h.noted _

/-- commands of whoever holds the engine lead to one that is held by the same, after the turns of the course -/
theorem Held.takes {config : Config} {ts ts' : List Turn} {ps : List Plugin} {limit : Nat} {e e' : Engine}
    {holder : Option Plugin} {cs : List Command} (h : Held config ts ps e) (hholder : ∀ p ∈ holder, p ∈ ps.head?)
    (htakes : e.Takes limit holder cs e' ts') : Held config (ts' ++ ts) ps e' := by
  induction htakes generalizing ts ps with
  | nil => exact h
  | told hr ht _ ih =>
    rw [List.append_assoc]
    exact ih ((h.told hr (ht.performWith? fun _ e => some e)).after_noted hholder _) hholder
  | loaded hr hplugin _ ih =>
    rw [List.append_assoc]
    exact ih ((h.loaded hr hplugin).after_noted hholder _) hholder
  | @ran _ _ _ _ _ _ _ p _ _ _ hr hplugin _ _ ihinside ih =>
    have hinside := ihinside (h.entered hr hplugin) fun q hq => hq
    rw [List.append_assoc, List.append_assoc]
    exact ih (hinside.left.after_noted hholder _) hholder

/-- whoever holds the engine on the way holds it after the turns that were taken by then -/
theorem Held.reaches {config : Config} {ts ts' : List Turn} {ps ps' : List Plugin} {limit : Nat} {e e' : Engine}
    {holder : Option Plugin} {cs : List Command} (h : Held config ts ps e) (hholder : ∀ p ∈ holder, p ∈ ps.head?)
    (hreaches : e.Reaches limit holder cs e' ps' ts') : Held config (ts' ++ ts) (ps' ++ ps) e' := by
  induction hreaches generalizing ts ps with
  | now => exact h
  | later hfirst _ ih =>
    rw [List.append_assoc]
    exact ih (h.takes hholder hfirst) hholder
  | inside hr hplugin _ ih =>
    rw [List.append_assoc, List.append_assoc]
    exact ih (h.entered hr hplugin) fun q hq => hq

end N3Rules
