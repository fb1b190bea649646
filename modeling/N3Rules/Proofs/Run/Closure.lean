/-
Where a run ends, its rules have nothing to add.

The last sweep stores nothing, so all rules were applied to one and the same base with one and the same registry, and
what each of them concluded was in the base. The other way round, a sweep over such a base stores nothing.

- `FactBase.Settles`: concluding a triple adds nothing to a base, and does not stop the run;
- `FactBase.Closed`: a base settles all that rules conclude from it;
- `sweep_of_closed`: a sweep over a closed base ends and changes neither the base nor the registry;
- `finished_closed`: the base of a finished run is closed, and a run that starts with its facts is over in one sweep.
-/
import N3Rules.Proofs.Run.Reached

namespace N3Rules

/-! ## Closed bases -/

/-- concluding a triple adds nothing to the base: a variable is left in it, or it can be a fact and is contained -/
def FactBase.Settles (s : FactBase) (t : Triple) : Prop :=
  t.isGround = false ∨ t.predicate.canBePredicate = true ∧ s.contains t = true

/-- the base settles everything that the rules conclude from it -/
def FactBase.Closed (s : FactBase) (registry : Registry) (rules : List Rule) : Prop :=
  ∀ r ∈ rules, ∃ found, solve s.triples registry r.antecedent.triples {} = .ok found ∧
    ∀ b ∈ found, confirmed registry r.antecedent.triples b = true →
      ∀ p ∈ r.consequent.triples, s.Settles (p.instantiate b)

theorem FactBase.closed_iff {s : FactBase} {registry : Registry} {rules : List Rule} :
    s.Closed registry rules ↔ ∀ t ∈ consequences registry rules s.triples, s.Settles t := by
  simp only [FactBase.Closed, solve_eq _ _ _ Bindings.distinct_empty, Except.ok.injEq, exists_eq_left']
  constructor
  · intro h t ht
    obtain ⟨r, hr, b, hb, hc, p, hp, rfl⟩ := mem_consequences.1 ht
    exact h r hr b hb hc p hp
  · intro h r hr b hb hc p hp
    exact h _ (mem_consequences.2 ⟨r, hr, b, hb, hc, p, hp, rfl⟩)

/-- whether a base is closed depends on its triples only -/
theorem FactBase.Closed.congr {s s' : FactBase} (hs : s.WellFormed) (hs' : s'.WellFormed)
    (ht : s'.triples = s.triples) {registry : Registry} {rules : List Rule} (h : s.Closed registry rules) :
    s'.Closed registry rules := by
  have hcontains : ∀ t, s.contains t = true → s'.contains t = true := by
    intro t hc
    rw [hs'.contains_iff, ht]
    exact hs.contains_iff.1 hc
  rw [FactBase.closed_iff] at h ⊢
  rw [ht]
  intro t ht
  rcases h t ht with hg | ⟨hp, hc⟩
  · exact Or.inl hg
  · exact Or.inr ⟨hp, hcontains t hc⟩

/-! ## Sweeps over closed bases -/

theorem conclude_of_settles {run : Run} {t : Triple} (h : run.store.Settles t) (bus : Bus) (index : Nat) (rule : Rule)
    (b : Bindings) : run.conclude bus index rule b t = .ok run := by
  unfold Run.conclude
  rcases h with hg | ⟨hp, hc⟩
  · simp [hg]
  · simp [hp, FactBase.insert?_eq_none_iff.2 hc]

theorem settles_of_conclude {bus : Bus} {index : Nat} {rule : Rule} {b : Bindings} {run next : Run} {t : Triple}
    (h : run.conclude bus index rule b t = .ok next) (hsize : next.store.size = run.store.size) :
    run.store.Settles t := by
  have hcases := conclude_cases bus index rule b run t
  rw [h] at hcases
  cases hcases with
  | skipped hg => exact Or.inl hg
  | known hg hp hc => exact Or.inr ⟨hp, hc⟩
  | stored hg hp hi =>
    have := FactBase.size_of_insert? hi
    simp only at hsize
    omega

/-- two runs have the same facts and go by the same registry -/
def Run.Alike (run now : Run) : Prop :=
  now.store = run.store ∧ now.context.registry = run.context.registry

theorem fire_of_settles {run now : Run} (h : run.Alike now) (bus : Bus) (r : Rule × Nat) {b : Bindings}
    (hs : confirmed run.context.registry r.1.antecedent.triples b = true →
      ∀ p ∈ r.1.consequent.triples, run.store.Settles (p.instantiate b)) :
    ∃ next, now.fire bus r.2 r.1 run.context.registry b = .ok next ∧ run.Alike next := by
  unfold Run.fire
  cases hc : confirmed run.context.registry r.1.antecedent.triples b with
  | false => exact ⟨_, rfl, h⟩
  | true =>
    refine foldlM_total (P := run.Alike) ?_ h
    intro t ht mid hmid
    obtain ⟨p, hp, rfl⟩ := List.mem_map.1 ht
    refine ⟨mid, conclude_of_settles ?_ bus r.2 r.1 b, hmid⟩
    rw [hmid.1]
    exact hs hc p hp

/-- a sweep over a closed base ends, and changes nothing but the log -/
theorem sweep_of_closed (bus : Bus) (run : Run) {rules : List Rule}
    (h : run.store.Closed run.context.registry rules) : ∃ next, run.sweep bus rules = .ok next ∧ run.Alike next := by
  rw [FactBase.closed_iff] at h
  refine foldlM_total (P := run.Alike) ?_ ⟨rfl, rfl⟩
  intro r hr now hnow
  rw [apply_eq, hnow.1, hnow.2]
  refine foldlM_total (P := run.Alike) ?_ hnow
  intro b hb mid hmid
  refine fire_of_settles hmid bus r ?_
  intro hc p hp
  exact h _ (mem_consequences.2 ⟨r.1, mem_of_mem_zipIdx hr, b, hb, hc, p, hp, rfl⟩)

/-- a run that starts with a closed base is over in one sweep -/
theorem rerun_of_closed {s : FactBase} (hs : s.WellFormed) {registry : Registry} {rules : List Rule}
    (h : s.Closed registry rules) (builtins : List Builtin) (log : Log) (limit : Nat) :
    ∃ again, Run.ofDocument? {} (limit + 1) ⟨s.triples, rules, builtins⟩ ⟨registry, log⟩ = some (.ok (again, 1)) ∧
      again.store.triples = s.triples ∧ again.store.inferred = [] := by
  have htriples : (FactBase.ofAsserted s.triples).triples = s.triples := FactBase.triples_ofAsserted hs.distinct
  obtain ⟨next, hsweep, halike⟩ := sweep_of_closed {} (Run.start {} ⟨s.triples, rules, builtins⟩ ⟨registry, log⟩)
    (h.congr hs (FactBase.wellFormed_ofAsserted s.triples) htriples)
  have hstore : next.store = FactBase.ofAsserted s.triples := halike.1
  refine ⟨next.finish {}, ?_, ?_, ?_⟩
  · have hsize : next.store.size = (Run.start {} ⟨s.triples, rules, builtins⟩ ⟨registry, log⟩).store.size := by
      rw [hstore]
      rfl
    simp only [Run.ofDocument?, saturate?, hsweep, hsize, if_true]
    rfl
  · exact (congrArg FactBase.triples hstore).trans htriples
  · exact (congrArg FactBase.inferred hstore).trans (FactBase.inferred_ofAsserted s.triples)

/-! ## The end of a run -/

/-- the base after a sweep that adds nothing is closed -/
theorem Reached.closed {bus : Bus} {d : Document} {c : Context} {run last : Run} (h : Reached bus d c .sweep run)
    (hs : run.sweep bus d.rules = .ok last) (hsize : last.store.size = run.store.size) :
    last.store.Closed last.context.registry d.rules := by
  obtain ⟨hstore, hregistry⟩ := (sweep_before hs).idle hsize
  rw [hstore, hregistry, FactBase.closed_iff]
  intro t ht
  obtain ⟨a, b, now, next, -, hnow, hconclude, hnext⟩ := h.idle hs hsize ht
  rw [← hnow]
  exact settles_of_conclude hconclude hnext

/-- **Closure.** The base of a finished run is closed under the rules, for the registry from before the end is announced;
and a run that starts with its facts and that registry, with nobody subscribed, has them again after one sweep. -/
theorem finished_closed {bus : Bus} {limit : Nat} {d : Document} {c : Context} {run : Run} {n : Nat}
    (h : Run.ofDocument? bus limit d c = some (.ok (run, n))) :
    ∃ last, saturate? bus d.rules limit (Run.start bus d c) = some (.ok (last, n)) ∧ run = last.finish bus ∧
      run.store.Closed last.context.registry d.rules ∧
      ∀ (builtins : List Builtin) (log : Log) (limit' : Nat), ∃ again,
        Run.ofDocument? {} (limit' + 1) ⟨run.store.triples, d.rules, builtins⟩ ⟨last.context.registry, log⟩ =
          some (.ok (again, 1)) ∧
        again.store.triples = run.store.triples ∧ again.store.inferred = [] := by
  obtain ⟨r, hr, hmap⟩ := Option.map_eq_some_iff.1 h
  cases r with
  | error s => cases hmap
  | ok r =>
    cases hmap
    obtain ⟨-, prev, hprev, hsweep, hsize⟩ := Reached.start.saturate?_ok hr
    have hclosed := hprev.closed hsweep hsize
    exact ⟨r.1, hr, rfl, hclosed, rerun_of_closed (hprev.sweeps hsweep).wellFormed hclosed⟩

/-- the acquaintances come to a closed base -/
theorem acquaintances_closed : ∃ run n, Run.ofDocument? {} 2 Document.acquaintances {} = some (.ok (run, n)) ∧
    run.store.size = 3 ∧ ∃ registry, run.store.Closed registry Document.acquaintances.rules := by
  have hends : Run.endsIn {} 2 Document.acquaintances {} (fun run => run.store.size = 3) = true := by
    decide +kernel
  obtain ⟨run, n, hrun, hsize⟩ := Run.of_endsIn hends
  obtain ⟨last, -, -, hclosed, -⟩ := finished_closed hrun
  exact ⟨run, n, hrun, of_decide_eq_true hsize, last.context.registry, hclosed⟩

end N3Rules
