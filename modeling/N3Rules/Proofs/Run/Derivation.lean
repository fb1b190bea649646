/-
Nothing is concluded without reason.

Each inferred fact has a rule and bindings that justify it by facts with lower numbers, and by what the builtins
answered that were there when the rule was applied. By induction on the numbers, every fact has a derivation from what
the document states.

- `Justified`: the reasons for a conclusion, with the facts that they rest on;
- `Derivable`: what has a derivation, that is, finitely many justified steps;
- `inferred_justified`: at every point of a run, whatever subscribers do in between, inferred facts are justified, and
  at the end all facts are derivable.
-/
import N3Rules.Proofs.Run.Reached

namespace N3Rules

/-- the facts with numbers below `n` -/
def FactBase.earlier (s : FactBase) (n : Nat) : List Triple :=
  (s.facts.toList.filter (·.id < n)).map (·.triple)

/-- a rule gives a triple under bindings, by facts that are there already and by a registry -/
structure Justified (earlier : List Triple) (registry : Registry) (r : Rule) (b : Bindings) (t : Triple) : Prop where
  matched : ∀ q ∈ r.antecedent.triples, registry.searched? q.predicate = none → ∃ u ∈ earlier, Triple.Passes b q u
  asked : ∀ q ∈ r.antecedent.triples, ∀ g, registry.named? q.predicate = some g →
    g.holds (g.argumentsOf (q.instantiate b)) = true
  given : ∃ p ∈ r.consequent.triples, t = p.instantiate b
  ground : t.isGround = true
  predicate : t.predicate.canBePredicate = true

/-- there is a derivation of a triple from what the document states, by applications that the run comes by -/
inductive Derivable (bus : Bus) (d : Document) (c : Context) : Triple → Prop where
  | asserted {t : Triple} : t ∈ d.triples → Derivable bus d c t
  | inferred {t : Triple} (a : Application) (b : Bindings) (earlier : List Triple) : a.Begins bus d c →
      a.rule ∈ d.rules → Justified earlier a.registry a.rule b t → (∀ u ∈ earlier, Derivable bus d c u) →
      Derivable bus d c t

theorem Justified.mono {earlier later : List Triple} {registry : Registry} {r : Rule} {b : Bindings} {t : Triple}
    (h : Justified earlier registry r b t) (hsub : earlier ⊆ later) : Justified later registry r b t := by
  refine { h with matched := ?_ }
  intro q hq hn
  obtain ⟨u, hu, hp⟩ := h.matched q hq hn
  exact ⟨u, hsub hu, hp⟩

theorem FactBase.mem_earlier {s : FactBase} {n : Nat} {t : Triple} :
    t ∈ s.earlier n ↔ ∃ f ∈ s.facts, f.id < n ∧ f.triple = t := by
  simp [FactBase.earlier, and_assoc]

theorem FactBase.earlier_insert? {s s' : FactBase} {t : Triple} {origin : Origin} (h : s.insert? t origin = some s')
    (n : Nat) : s.earlier n ⊆ s'.earlier n := by
  intro u hu
  obtain ⟨f, hf, hn, rfl⟩ := FactBase.mem_earlier.1 hu
  refine FactBase.mem_earlier.2 ⟨f, ?_, hn, rfl⟩
  rw [FactBase.facts_of_insert? h]
  exact Array.mem_push_of_mem _ hf

theorem FactBase.WellFormed.triples_subset_earlier {s : FactBase} (h : s.WellFormed) : s.triples ⊆ s.earlier s.size := by
  intro t ht
  obtain ⟨f, hf, rfl⟩ := FactBase.mem_triples.1 ht
  exact FactBase.mem_earlier.2 ⟨f, hf, h.id_lt hf, rfl⟩

section Run

variable {bus : Bus} {d : Document} {c : Context}

/-- a triple that can be stored when it is concluded is justified by what is stored then -/
theorem Application.Concludes.justified {a : Application} {b : Bindings} {t : Triple} {now : Run}
    (h : a.Concludes bus d c b t now) (hg : t.isGround = true) (hp : t.predicate.canBePredicate = true) :
    Justified now.store.triples a.registry a.rule b t := by
  have hc := h.concluding
  refine ⟨?_, confirmed_iff.1 hc.confirmed, hc.given, hg, hp⟩
  intro q hq hn
  obtain ⟨u, hu, hpass⟩ := solutions_matched hc.solution hq hn
  exact ⟨u, hc.since.triples hu, hpass⟩

/-- where an inferred fact comes from: the application, the bindings, and the run as it was before the fact -/
structure Fact.From (bus : Bus) (d : Document) (c : Context) (s : FactBase) (f : Fact) (a : Application)
    (b : Bindings) (now : Run) : Prop where
  begins : a.Begins bus d c
  listed : a.rule ∈ d.rules
  concludes : a.Concludes bus d c b f.triple now
  numbered : now.store.size = f.id
  justified : Justified (s.earlier f.id) a.registry a.rule b f.triple

/-- every inferred fact of a base comes from an application -/
def FactBase.Explained (bus : Bus) (d : Document) (c : Context) (s : FactBase) : Prop :=
  ∀ f ∈ s.facts, f.origin = .inferred → ∃ a b now, f.From bus d c s a b now

/-- storing a conclusion leaves every inferred fact explained, the new one by the facts that were there -/
theorem Application.Concludes.explained {a : Application} {b : Bindings} {t : Triple} {now : Run} {s : FactBase}
    (h : a.Concludes bus d c b t now) (hg : t.isGround = true) (hp : t.predicate.canBePredicate = true)
    (hi : now.store.insert? t .inferred = some s) (hs : now.store.Explained bus d c) : s.Explained bus d c := by
  intro f hf horigin
  rw [FactBase.facts_of_insert? hi, Array.mem_push] at hf
  rcases hf with hf | rfl
  · obtain ⟨a', b', now', hfrom⟩ := hs f hf horigin
    exact ⟨a', b', now', { hfrom with justified := hfrom.justified.mono (FactBase.earlier_insert? hi _) }⟩
  · obtain ⟨stage, hreached⟩ := h.concluding.reached
    have hj := (h.justified hg hp).mono hreached.wellFormed.triples_subset_earlier
    exact ⟨a, b, now, h.concluding.begins, h.concluding.listed, h, rfl, hj.mono (FactBase.earlier_insert? hi _)⟩

theorem Reached.explained {stage : Stage} {run : Run} (h : Reached bus d c stage run) : run.store.Explained bus d c := by
  refine h.store_induct ?_ ?_
  · intro f hf horigin
    rw [(FactBase.mem_ofAsserted hf).1] at horigin
    cases horigin
  · intro a b t now s hc hg hp hi hs
    exact hc.explained hg hp hi hs

theorem Reached.asserted {stage : Stage} {run : Run} (h : Reached bus d c stage run) :
    ∀ f ∈ run.store.facts, f.origin = .asserted → f.triple ∈ d.triples := by
  refine h.store_induct (P := fun s => ∀ f ∈ s.facts, f.origin = .asserted → f.triple ∈ d.triples) ?_ ?_
  · intro f hf _
    exact (FactBase.mem_ofAsserted hf).2
  · intro a b t now s _ _ _ hi hs f hf horigin
    rw [FactBase.facts_of_insert? hi, Array.mem_push] at hf
    rcases hf with hf | rfl
    · exact hs f hf horigin
    · cases horigin

/-- every fact has a derivation, for its reasons have lower numbers -/
theorem Reached.derivable {stage : Stage} {run : Run} (h : Reached bus d c stage run) {t : Triple}
    (ht : t ∈ run.store.triples) : Derivable bus d c t := by
  obtain ⟨f, hf, rfl⟩ := FactBase.mem_triples.1 ht
  clear ht
  -- reasons have lower numbers than what they are reasons for
  induction hn : f.id using Nat.strong_induction_on generalizing f with
  | _ n ih =>
    cases horigin : f.origin with
    | asserted => exact .asserted (h.asserted f hf horigin)
    | inferred =>
      obtain ⟨a, b, now, hfrom⟩ := h.explained f hf horigin
      refine .inferred a b _ hfrom.begins hfrom.listed hfrom.justified ?_
      intro u hu
      obtain ⟨g, hg, hlt, rfl⟩ := FactBase.mem_earlier.1 hu
      exact ih g.id (hn ▸ hlt) g hg rfl

end Run

/-- **Soundness.** At every point of a run, each inferred fact is justified by facts with lower numbers and by the
registry from the beginning of the application that it comes from; and all facts at the end are derivable. -/
theorem inferred_justified (bus : Bus) (d : Document) (c : Context) :
    (∀ stage run, Reached bus d c stage run → ∀ f ∈ run.store.facts, f.origin = .inferred →
      ∃ (a : Application) (b : Bindings), a.Begins bus d c ∧ a.rule ∈ d.rules ∧
        (∃ now, a.Concludes bus d c b f.triple now ∧ now.store.size = f.id) ∧
        Justified (run.store.earlier f.id) a.registry a.rule b f.triple) ∧
    (∀ limit run n, Run.ofDocument? bus limit d c = some (.ok (run, n)) →
      (∃ stage last, Reached bus d c stage last ∧ run = last.finish bus) ∧
      ∀ t ∈ run.store.triples, Derivable bus d c t) := by
  constructor
  · intro stage run h f hf horigin
    obtain ⟨a, b, now, hfrom⟩ := h.explained f hf horigin
    exact ⟨a, b, hfrom.begins, hfrom.listed, ⟨now, hfrom.concludes, hfrom.numbered⟩, hfrom.justified⟩
  · intro limit run n h
    obtain ⟨-, prev, last, hprev, hsweep, -, rfl⟩ := Reached.ofDocument?_ok h
    have hlast := hprev.sweeps hsweep
    refine ⟨⟨_, last, hlast, rfl⟩, ?_⟩
    intro t ht
    exact hlast.derivable ht

/-- the acquaintance that is concluded is justified by the first fact, and is derivable -/
theorem acquaintance_justified : ∃ stage run, Reached {} Document.acquaintances {} stage run ∧
    (∃ f ∈ run.store.facts, f.origin = .inferred ∧ f.triple = ⟨.iri "bob", .iri "knows", .iri "ann"⟩ ∧
      ∃ (a : Application) (b : Bindings), a.Begins {} Document.acquaintances {} ∧
        Justified (run.store.earlier f.id) a.registry a.rule b f.triple) ∧
    Derivable {} Document.acquaintances {} ⟨.iri "bob", .iri "knows", .iri "ann"⟩ := by
  obtain ⟨hjustified, hderivable⟩ := inferred_justified {} Document.acquaintances {}
  have hends : Run.endsIn {} 2 Document.acquaintances {} (fun run => run.store.facts.any fun f =>
      f.origin = .inferred && f.triple = ⟨.iri "bob", .iri "knows", .iri "ann"⟩) = true := by
    decide +kernel
  obtain ⟨run, n, hrun, hany⟩ := Run.of_endsIn hends
  obtain ⟨⟨stage, last, hlast, rfl⟩, hall⟩ := hderivable 2 run n hrun
  obtain ⟨f, hf, hfacts⟩ := Array.any_eq_true'.1 hany
  simp only [Bool.and_eq_true, decide_eq_true_eq] at hfacts
  obtain ⟨a, b, hbegins, -, -, hj⟩ := hjustified stage last hlast f hf hfacts.1
  refine ⟨stage, last, hlast, ⟨f, hf, hfacts.1, hfacts.2, a, b, hbegins, hj⟩, ?_⟩
  exact hall _ (FactBase.mem_triples.2 ⟨f, hf, hfacts.2⟩)

end N3Rules
