/-
What happens to a registry: builtins are registered, one or several at a time, and the list that is searched is made
anew. Nothing else changes a registry, in a notice and in a run of rules.

Registering puts a builtin behind all others. So the list that is searched at a point of a run starts with the list from
the beginning of the run.

- `Registration`, `Registry.after`: the registry after things are done to it, in order;
- `Registry.LeadsTo`: one registry comes from another in this way;
- `Bus.announce_leadsTo`, `Reached.registry_leadsTo`: giving a notice, and running rules, do nothing else to a registry;
- `Registry.Current`: the list that is searched is that of the core builtins and the registered ones;
- `Registry.Grows`, `Run.ofDocument?_grows`: a current registry only gets more builtins.
-/
import N3Rules.Proofs.Run.Reached

namespace N3Rules

/-! ## Registrations -/

/-- what is done to a registry -/
inductive Registration where
  | one (b : Builtin)
  | many (bs : List Builtin)
  /-- the list that is searched is made anew -/
  | rebuild

/-- the builtins that are registered, in order -/
def Registration.builtins : Registration → List Builtin
  | .one b => [b]
  | .many bs => bs
  | .rebuild => []

def Registry.perform (r : Registry) : Registration → Registry
  | .one b => r.register b
  | .many bs => r.registerAll bs
  | .rebuild => r.rebuild

/-- the registry after things are done to it, in order -/
def Registry.after (r : Registry) (ops : List Registration) : Registry :=
  ops.foldl Registry.perform r

theorem Registry.after_append (r : Registry) (ops later : List Registration) :
    r.after (ops ++ later) = (r.after ops).after later := by
  rw [Registry.after, List.foldl_append]
  rfl

/-- one registry comes from another -/
def Registry.LeadsTo (r r' : Registry) : Prop :=
  ∃ ops, r' = r.after ops

theorem Registry.LeadsTo.refl (r : Registry) : r.LeadsTo r :=
  ⟨[], rfl⟩

theorem Registry.LeadsTo.trans {r r' r'' : Registry} (h : r.LeadsTo r') (h' : r'.LeadsTo r'') : r.LeadsTo r'' := by
  obtain ⟨ops, rfl⟩ := h
  obtain ⟨later, rfl⟩ := h'
  exact ⟨ops ++ later, (r.after_append ops later).symm⟩

theorem Registry.leadsTo_registerAll (r : Registry) (bs : List Builtin) : r.LeadsTo (r.registerAll bs) :=
  ⟨[.many bs], rfl⟩

theorem Registry.leadsTo_rebuild (r : Registry) : r.LeadsTo r.rebuild :=
  ⟨[.rebuild], rfl⟩

/-! ## Notices and runs -/

/-- the context when so many of those whom a notice is for have received it -/
def Bus.announcing (bus : Bus) (notice : Notice) (c : Context) (heard : Nat) : Context :=
  ((bus.audience notice.occasion).take heard).foldl (Context.hear notice) (c.record [.announced notice])

/-- the others receive it from there on -/
theorem Bus.announce_eq (bus : Bus) (notice : Notice) (c : Context) (heard : Nat) :
    bus.announce notice c =
      ((bus.audience notice.occasion).drop heard).foldl (Context.hear notice) (bus.announcing notice c heard) := by
  rw [Bus.announcing, ← List.foldl_append, List.take_append_drop]
  rfl

/-- what subscribers do is to register builtins -/
theorem foldl_hear_leadsTo (notice : Notice) (l : List Subscriber) (c : Context) :
    c.registry.LeadsTo (l.foldl (Context.hear notice) c).registry := by
  induction l generalizing c with
  | nil => exact .refl _
  | cons s l ih => exact (c.registry.leadsTo_registerAll _).trans (ih (c.hear notice s))

/-- every subscriber to a notice finds a registry that comes from the one before the notice, and that the one after the
notice comes from -/
theorem Bus.announcing_leadsTo (bus : Bus) (notice : Notice) (c : Context) (heard : Nat) :
    c.registry.LeadsTo (bus.announcing notice c heard).registry ∧
      (bus.announcing notice c heard).registry.LeadsTo (bus.announce notice c).registry := by
  rw [bus.announce_eq notice c heard]
  exact ⟨foldl_hear_leadsTo notice _ _, foldl_hear_leadsTo notice _ _⟩

theorem Bus.announce_leadsTo (bus : Bus) (notice : Notice) (c : Context) :
    c.registry.LeadsTo (bus.announce notice c).registry :=
  foldl_hear_leadsTo notice _ _

section Run

variable {bus : Bus} {d : Document} {c : Context}

theorem Reached.registry_leadsTo {stage : Stage} {run : Run} (h : Reached bus d c stage run) :
    c.registry.LeadsTo run.context.registry := by
  induction h with
  | start => exact bus.announce_leadsTo _ c
  | @conclude _ _ a _ b t _ run next _ hconclude ih =>
    have hcases := conclude_cases bus a.index a.rule b run t
    rw [hconclude] at hcases
    cases hcases with
    | skipped => exact ih
    | known => exact ih
    | stored => exact ih.trans (bus.announce_leadsTo _ _)
  | apply _ _ ih => exact ih
  | reject _ _ ih => exact ih
  | confirm _ _ ih => exact ih
  | _ => assumption

theorem Run.ofDocument?_leadsTo {limit n : Nat} {run : Run}
    (h : Run.ofDocument? bus limit d c = some (.ok (run, n))) : c.registry.LeadsTo run.context.registry := by
  obtain ⟨-, prev, last, hprev, hsweep, -, rfl⟩ := Reached.ofDocument?_ok h
  exact (hprev.sweeps hsweep).registry_leadsTo.trans (bus.announce_leadsTo _ _)

theorem Run.ofDocument?_leadsTo_error {limit : Nat} {s : Stopped}
    (h : Run.ofDocument? bus limit d c = some (.error s)) : c.registry.LeadsTo s.run.context.registry := by
  obtain ⟨a, b, t, hconcludes, -⟩ := Reached.ofDocument?_error h
  obtain ⟨stage, hreached⟩ := hconcludes.concluding.reached
  exact hreached.registry_leadsTo

end Run

/-! ## Growth -/

/-- the list that is searched has the core builtins and all registered ones -/
def Registry.Current (r : Registry) : Prop :=
  r.all = coreBuiltins ++ r.registered

/-- `r'` is current, and is searched through the list of `r` first -/
structure Registry.Grows (r r' : Registry) : Prop where
  current : r'.Current
  kept : r.all <+: r'.all

theorem Registry.current_empty : ({} : Registry).Current := by
  simp [Registry.Current]

theorem Registry.current_rebuild (r : Registry) : r.rebuild.Current := rfl

theorem Registry.Current.grows {r : Registry} (h : r.Current) : r.Grows r :=
  ⟨h, List.prefix_refl _⟩

theorem Registry.Grows.register {r r' : Registry} (h : r.Grows r') (b : Builtin) : r.Grows (r'.register b) := by
  refine ⟨rfl, h.kept.trans ?_⟩
  rw [h.current, Registry.register, Registry.rebuild, ← List.append_assoc]
  exact List.prefix_append _ _

theorem Registry.Grows.registerAll {r r' : Registry} (h : r.Grows r') (bs : List Builtin) :
    r.Grows (r'.registerAll bs) := by
  induction bs generalizing r' with
  | nil => exact h
  | cons b bs ih => exact ih (h.register b)

/-- a current registry has nothing to be made anew -/
theorem Registry.Current.rebuild_eq {r : Registry} (h : r.Current) : r.rebuild = r := by
  obtain ⟨registered, all⟩ := r
  obtain rfl : all = coreBuiltins ++ registered := h
  rfl

theorem Registry.Grows.perform {r r' : Registry} (h : r.Grows r') (op : Registration) : r.Grows (r'.perform op) := by
  cases op with
  | one b => exact h.register b
  | many bs => exact h.registerAll bs
  | rebuild =>
    rw [Registry.perform, h.current.rebuild_eq]
    exact h

theorem Registry.Grows.leadsTo {r r' r'' : Registry} (h : r.Grows r') (h' : r'.LeadsTo r'') : r.Grows r'' := by
  obtain ⟨ops, rfl⟩ := h'
  induction ops generalizing r' with
  | nil => exact h
  | cons op ops ih => exact ih (h.perform op)

theorem Bus.announce_grows {r : Registry} {c : Context} (h : r.Grows c.registry) (bus : Bus) (notice : Notice) :
    r.Grows (bus.announce notice c).registry :=
  h.leadsTo (bus.announce_leadsTo notice c)

section Run

variable {bus : Bus} {d : Document} {c : Context}

theorem Run.ofDocument?_grows (hc : c.registry.Current) {limit n : Nat} {run : Run}
    (h : Run.ofDocument? bus limit d c = some (.ok (run, n))) : c.registry.Grows run.context.registry :=
  hc.grows.leadsTo (Run.ofDocument?_leadsTo h)

theorem Run.ofDocument?_grows_error (hc : c.registry.Current) {limit : Nat} {s : Stopped}
    (h : Run.ofDocument? bus limit d c = some (.error s)) : c.registry.Grows s.run.context.registry :=
  hc.grows.leadsTo (Run.ofDocument?_leadsTo_error h)

end Run

end N3Rules
