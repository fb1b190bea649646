/-
More facts and more rules conclude more, in whatever order they are given.

While nobody registers builtins, all applications go by one registry. What a run stores is then in every model of its
document, so it ends if there is a model at all, and without an error. A run that ends gives a model itself, unless a
conclusion was mistaken for a fact with the same key; and a model of more facts and rules is a model of fewer.

- `Bus.Silent`: no subscriber registers anything, so the registry stays as it is (`Reached.registry`);
- `IsModel`: a list of triples has what a document states, and every fact that its rules give from the list;
- `ofDocument?_of_isModel`: a document that has a model has a run, and the facts of the run are in the model;
- `Offered`, `FactBase.Closed.isModel`: the facts of a run that ends are a model, if no two triples offered to its base
  share a key;
- `finished_mono`: fewer facts and rules end as well, with fewer facts; the same ones in another order, with the same.
-/
import N3Rules.Proofs.Run.Closure

namespace N3Rules

/-! ## Silent buses -/

/-- no subscriber registers builtins -/
def Bus.Silent (bus : Bus) : Prop :=
  ∀ s ∈ bus.subscribers, ∀ log notice registry, (s.react log notice registry).registers = []

theorem Bus.silent_empty : ({} : Bus).Silent := by
  intro s hs
  cases hs

theorem Bus.Silent.announce {bus : Bus} (h : bus.Silent) (notice : Notice) (c : Context) :
    (bus.announce notice c).registry = c.registry := by
  have hall : ∀ (l : List Subscriber) (c : Context), l ⊆ bus.subscribers →
      (l.foldl (Context.hear notice) c).registry = c.registry := by
    intro l c hl
    induction l generalizing c with
    | nil => rfl
    | cons s l ih =>
      have hs : (Context.hear notice c s).registry = c.registry := by
        simp [Context.hear, h s (hl List.mem_cons_self), Registry.registerAll]
      have hrest : l ⊆ bus.subscribers := List.subset_of_cons_subset hl
      rw [List.foldl_cons, ih _ hrest, hs]
  exact hall _ _ (List.filter_subset_self _)

section Models

variable {bus : Bus} {d : Document} {c : Context}

theorem Reached.registry (hbus : bus.Silent) {stage : Stage} {run : Run} (h : Reached bus d c stage run) :
    run.context.registry = c.registry := by
  induction h with
  | start => exact hbus.announce _ c
  | @conclude _ _ a _ b t _ run next _ hconclude ih =>
    have hcases := conclude_cases bus a.index a.rule b run t
    rw [hconclude] at hcases
    cases hcases with
    | skipped => exact ih
    | known => exact ih
    | stored => exact (hbus.announce _ _).trans ih
  | apply _ _ ih => exact ih
  | reject _ _ ih => exact ih
  | confirm _ _ ih => exact ih
  | _ => assumption

theorem Application.Begins.registry (hbus : bus.Silent) {a : Application} (h : a.Begins bus d c) :
    a.registry = c.registry := by
  obtain ⟨size, rules, hreached⟩ := h
  exact hreached.registry hbus

/-! ## Models -/

/-- the list has what the document states and what its rules give from the list, and all that they give without
variables can be a fact -/
structure IsModel (registry : Registry) (d : Document) (m : List Triple) : Prop where
  asserted : d.triples ⊆ m
  closed : ∀ t ∈ consequences registry d.rules m, t.isGround = true → t.predicate.canBePredicate = true ∧ t ∈ m

/-- a model of a document is a model of every document with fewer facts and rules -/
theorem IsModel.mono {registry : Registry} {d' : Document} {m : List Triple} (h : IsModel registry d' m)
    (ht : d.triples ⊆ d'.triples) (hr : d.rules ⊆ d'.rules) : IsModel registry d m := by
  constructor
  · intro t hm
    exact h.asserted (ht hm)
  · intro t hm
    exact h.closed t (consequences_mono registry hr (List.Subset.refl m) hm)

/-- what is concluded from facts of a model is in the model -/
theorem Application.Concludes.mem_model (hbus : bus.Silent) {m : List Triple} (hm : IsModel c.registry d m)
    {a : Application} {b : Bindings} {t : Triple} {now : Run} (h : a.Concludes bus d c b t now)
    (hnow : now.store.triples ⊆ m) (hg : t.isGround = true) : t.predicate.canBePredicate = true ∧ t ∈ m := by
  have hbefore : a.before.store.triples ⊆ m := List.Subset.trans h.concluding.since.triples hnow
  have ht := h.mem_consequences
  rw [h.concluding.begins.registry hbus] at ht
  exact hm.closed t (consequences_mono c.registry (List.Subset.refl d.rules) hbefore ht) hg

/-- every point of a run has only facts of a model -/
theorem Reached.subset_model (hbus : bus.Silent) {m : List Triple} (hm : IsModel c.registry d m) {stage : Stage}
    {run : Run} (h : Reached bus d c stage run) : run.store.triples ⊆ m := by
  refine h.store_induct (P := fun s => s.triples ⊆ m) ?_ ?_
  · intro t ht
    obtain ⟨f, hf, rfl⟩ := FactBase.mem_triples.1 ht
    exact hm.asserted (FactBase.mem_ofAsserted hf).2
  · intro a b t now s hc hg _ hi hnow u hu
    rw [FactBase.triples_of_insert? hi, List.mem_append, List.mem_singleton] at hu
    rcases hu with hu | rfl
    · exact hnow hu
    · exact (hc.mem_model hbus hm hnow hg).2

/-- a document that has a model has a run that ends in it, and without an error -/
theorem ofDocument?_of_isModel (hbus : bus.Silent) {m : List Triple} (hm : IsModel c.registry d m) :
    ∃ limit run n, Run.ofDocument? bus limit d c = some (.ok (run, n)) ∧ run.store.triples ⊆ m := by
  have hbound : ∀ run, Reached bus d c .sweep run → run.store.size ≤ m.length := by
    intro run h
    rw [← FactBase.length_triples]
    exact (List.subperm_of_subset h.wellFormed.nodup (h.subset_model hbus hm)).length_le
  obtain ⟨r, hr⟩ := Reached.ofDocument?_bounded hbound
  cases r with
  | error s =>
    obtain ⟨a, b, t, hc, hg, hp, -⟩ := Reached.ofDocument?_error hr
    obtain ⟨stage, hreached⟩ := hc.concluding.reached
    have hcan := (hc.mem_model hbus hm (hreached.subset_model hbus hm) hg).1
    rw [hp] at hcan
    cases hcan
  | ok r =>
    obtain ⟨-, prev, last, hprev, hsweep, -, hrun⟩ := Reached.ofDocument?_ok hr
    refine ⟨_, r.1, r.2, hr, ?_⟩
    rw [hrun]
    exact (hprev.sweeps hsweep).subset_model hbus hm

/-! ## Triples that are offered -/

/-- the run tries to store a triple: the document states it, or a rule concludes it and it can be a fact -/
def Offered (bus : Bus) (d : Document) (c : Context) (t : Triple) : Prop :=
  t ∈ d.triples ∨ ∃ (a : Application) (b : Bindings) (now : Run), a.Concludes bus d c b t now ∧ t.isGround = true ∧
    t.predicate.canBePredicate = true

/-- no two triples of which `P` holds share a key -/
def KeysApart (P : Triple → Prop) : Prop :=
  ∀ t u, P t → P u → t.key = u.key → t = u

/-- where keys are apart, a triple that is contained is there itself -/
theorem KeysApart.mem_of_contains {P : Triple → Prop} (h : KeysApart P) {s : FactBase} (hw : s.WellFormed)
    (hs : ∀ u ∈ s.triples, P u) {t : Triple} (ht : P t) (hc : s.contains t = true) : t ∈ s.triples := by
  obtain ⟨u, hu, hkey⟩ := hw.contains_iff.1 hc
  rwa [← h u t (hs u hu) ht hkey]

theorem Reached.offered {stage : Stage} {run : Run} (h : Reached bus d c stage run) :
    ∀ t ∈ run.store.triples, Offered bus d c t := by
  refine h.store_induct (P := fun s => ∀ t ∈ s.triples, Offered bus d c t) ?_ ?_
  · intro t ht
    obtain ⟨f, hf, rfl⟩ := FactBase.mem_triples.1 ht
    exact Or.inl (FactBase.mem_ofAsserted hf).2
  · intro a b t now s hc hg hp hi hnow u hu
    rw [FactBase.triples_of_insert? hi, List.mem_append, List.mem_singleton] at hu
    rcases hu with hu | rfl
    · exact hnow u hu
    · exact Or.inr ⟨a, b, now, hc, hg, hp⟩

/-- every fact that the document states is contained at every point -/
theorem Reached.contains {stage : Stage} {run : Run} (h : Reached bus d c stage run) {t : Triple}
    (ht : t ∈ d.triples) : run.store.contains t = true := by
  refine h.store_induct (P := fun s => s.contains t = true) (FactBase.contains_ofAsserted ht) ?_
  intro a b u now s _ _ _ hi hnow
  exact (FactBase.contains_of_insert? hi t).2 (Or.inr hnow)

/-- everything that is offered and can be a fact is in every model -/
theorem Offered.mem_model (hbus : bus.Silent) {m : List Triple} (hm : IsModel c.registry d m) {t : Triple}
    (h : Offered bus d c t) : t ∈ m := by
  rcases h with ht | ⟨a, b, now, hc, hg, -⟩
  · exact hm.asserted ht
  · obtain ⟨stage, hreached⟩ := hc.concluding.reached
    exact (hc.mem_model hbus hm (hreached.subset_model hbus hm) hg).2

/-- keys of what is offered are apart where those of a model are -/
theorem keysApart_of_isModel (hbus : bus.Silent) {m : List Triple} (hm : IsModel c.registry d m)
    (hkeys : (m.map Triple.key).Nodup) : KeysApart (Offered bus d c) := by
  intro t u ht hu hkey
  exact List.inj_on_of_nodup_map hkeys (ht.mem_model hbus hm) (hu.mem_model hbus hm) hkey

/-! ## Finished runs give models -/

/-- what is known of the base of a run that came to its end, with a silent bus -/
structure Finished (bus : Bus) (d : Document) (c : Context) (s : FactBase) : Prop where
  wellFormed : s.WellFormed
  asserted : ∀ t ∈ d.triples, s.contains t = true
  closed : s.Closed c.registry d.rules
  offered : ∀ t ∈ s.triples, Offered bus d c t
  concluded : ∀ t ∈ consequences c.registry d.rules s.triples, t.isGround = true → t.predicate.canBePredicate = true →
    Offered bus d c t

theorem finished_of_ofDocument? (hbus : bus.Silent) {limit n : Nat} {run : Run}
    (h : Run.ofDocument? bus limit d c = some (.ok (run, n))) : Finished bus d c run.store := by
  obtain ⟨-, prev, last, hprev, hsweep, hsize, rfl⟩ := Reached.ofDocument?_ok h
  have hlast := hprev.sweeps hsweep
  have hclosed := hprev.closed hsweep hsize
  rw [hlast.registry hbus] at hclosed
  refine ⟨hlast.wellFormed, fun t ht => hlast.contains ht, hclosed, hlast.offered, ?_⟩
  intro t ht hg hp
  have hstore : last.store = prev.store := ((sweep_before hsweep).idle hsize).1
  have ht' : t ∈ consequences prev.context.registry d.rules prev.store.triples := by
    rw [hprev.registry hbus, ← hstore]
    exact ht
  obtain ⟨a, b, now, -, hconcludes, -⟩ := hprev.idle hsweep hsize ht'
  exact Or.inr ⟨a, b, now, hconcludes, hg, hp⟩

end Models

section TwoRuns

variable {bus bus' : Bus} {d d' : Document} {c c' : Context}

/-- a finished base is a model of a document with fewer facts and rules, if its facts are among those of a finished base
of that document, and the keys of what was offered to the latter are apart -/
theorem Finished.isModel {s s' : FactBase} (h : Finished bus d c s) (h' : Finished bus' d' c' s')
    (hkeys : KeysApart (Offered bus' d' c')) (hc : c.registry = c'.registry) (ht : d'.triples ⊆ d.triples)
    (hr : d'.rules ⊆ d.rules) (hs : s.triples ⊆ s'.triples) : IsModel c'.registry d' s.triples := by
  have hoffered : ∀ u ∈ s.triples, Offered bus' d' c' u := by
    intro u hu
    exact h'.offered u (hs hu)
  constructor
  · intro t hm
    exact hkeys.mem_of_contains h.wellFormed hoffered (Or.inl hm) (h.asserted t (ht hm))
  · intro t hm hg
    have hbig := consequences_mono c'.registry hr (List.Subset.refl s.triples) hm
    rw [← hc] at hbig
    rcases FactBase.closed_iff.1 h.closed t hbig with hng | ⟨hp, hin⟩
    · rw [hg] at hng
      cases hng
    · have ho := h'.concluded t (consequences_mono c'.registry (List.Subset.refl d'.rules) hs hm) hg hp
      exact ⟨hp, hkeys.mem_of_contains h.wellFormed hoffered ho hin⟩

/-- **Monotonicity.** While nobody registers builtins, and keys are apart, a document with some of the facts and rules of
another that has a run has one, too, with some of the facts; and with all of them, if it has all facts and rules. -/
theorem finished_mono (hbus : bus.Silent) (hbus' : bus'.Silent) (hc : c.registry = c'.registry)
    (ht : d.triples ⊆ d'.triples) (hr : d.rules ⊆ d'.rules) {limit' n' : Nat} {run' : Run}
    (h' : Run.ofDocument? bus' limit' d' c' = some (.ok (run', n'))) (hkeys : KeysApart (Offered bus' d' c')) :
    ∃ limit run n, Run.ofDocument? bus limit d c = some (.ok (run, n)) ∧ run.store.triples ⊆ run'.store.triples ∧
      (d'.triples ⊆ d.triples → d'.rules ⊆ d.rules → run'.store.triples ⊆ run.store.triples) := by
  have hf' := finished_of_ofDocument? hbus' h'
  have hm' : IsModel c'.registry d' run'.store.triples :=
    hf'.isModel hf' hkeys rfl (List.Subset.refl _) (List.Subset.refl _) (List.Subset.refl _)
  -- what is a model of the larger document is one of the smaller, so the smaller run ends inside it
  have hm : IsModel c.registry d run'.store.triples := by
    rw [hc]
    exact hm'.mono ht hr
  obtain ⟨limit, run, n, h, hsub⟩ := ofDocument?_of_isModel hbus hm
  refine ⟨limit, run, n, h, hsub, ?_⟩
  intro ht' hr'
  -- its facts are then a model of the larger document in turn: keys are apart, as they were all offered there
  have hmodel := (finished_of_ofDocument? hbus h).isModel hf' hkeys hc ht' hr' hsub
  obtain ⟨-, prev, last, hprev, hsweep, -, rfl⟩ := Reached.ofDocument?_ok h'
  exact (hprev.sweeps hsweep).subset_model hbus' hmodel

end TwoRuns

/-- the acquaintances in another order, with the rule twice, have the same facts in the end -/
theorem acquaintances_reordered :
    let d := Document.acquaintances
    let d' : Document := ⟨d.triples.reverse, d.rules ++ d.rules, []⟩
    ∃ limit run n run' n', Run.ofDocument? {} limit d' {} = some (.ok (run, n)) ∧
      Run.ofDocument? {} 2 d {} = some (.ok (run', n')) ∧
      run.store.triples ⊆ run'.store.triples ∧ run'.store.triples ⊆ run.store.triples := by
  intro d d'
  have hends : Run.endsIn {} 2 d {} (fun _ => true) = true := by decide +kernel
  obtain ⟨run', n', hrun', -⟩ := Run.of_endsIn hends
  have hmodel : IsModel {} d (d.triples ++ [⟨.iri "bob", .iri "knows", .iri "ann"⟩]) :=
    ⟨List.subset_append_left _ _, by decide +kernel⟩
  have hkeys : KeysApart (Offered {} d {}) := keysApart_of_isModel Bus.silent_empty hmodel (by decide +kernel)
  obtain ⟨limit, run, n, hrun, hsub, hall⟩ := finished_mono (d := d') (c := {}) Bus.silent_empty Bus.silent_empty rfl
    (by decide +kernel) (by decide +kernel) hrun' hkeys
  exact ⟨limit, run, n, run', n', hrun, hrun', hsub, hall (by decide +kernel) (by decide +kernel)⟩

end N3Rules
