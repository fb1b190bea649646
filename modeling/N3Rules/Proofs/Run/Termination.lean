/-
Rules that build no terms come to an end.

Where consequents have no variable inside a list or a formula, a conclusion is made of values of variables and of terms
that stand in the rules. A value is a part of some fact, also when it was guessed for an argument of a builtin, or taken
out of a list. So the terms of all facts are from one finite set, and as facts are never stored twice, every sweep but
the last brings the run closer to the third power of its size.

- `Rule.buildsNoTerms`, `Document.universe`: the condition, and the terms that a run gets by with;
- `Reached.inUniverse`: all facts of all points of a run are made of these terms;
- `inUniverse_bound`: how many different facts they make;
- `run_terminates`: the run ends, and with how many sweeps at most.
-/
import N3Rules.Proofs.Run.Reached

namespace N3Rules

/-- whether the terms of the consequent are variables, or have no variable in them -/
def Rule.buildsNoTerms (r : Rule) : Bool :=
  r.consequent.triples.all fun p => p.terms.all fun u => u.isVariable || u.isGround

/-- the terms of the facts that a document states, and those of its consequents that have no variable in them -/
def Document.components (d : Document) : List Term :=
  d.triples.flatMap Triple.terms ++
    (d.rules.flatMap fun r => r.consequent.triples.flatMap fun p => p.terms.filter Term.isGround)

/-- the components of a document, and all items of the lists among them, items of items included -/
def Document.universe (d : Document) : Finset Term :=
  (Term.allParts d.components).toFinset

/-- all terms of all triples are in the universe of the document -/
def InUniverse (d : Document) (ts : List Triple) : Prop :=
  ∀ t ∈ ts, ∀ u ∈ t.terms, u ∈ d.universe

/-! ## The universe -/

theorem Document.mem_universe {d : Document} {u : Term} : u ∈ d.universe ↔ ∃ v ∈ d.components, u ∈ v.parts := by
  rw [Document.universe, List.mem_toFinset, Term.mem_allParts]

theorem Document.mem_universe_of_component {d : Document} {u : Term} (h : u ∈ d.components) : u ∈ d.universe :=
  Document.mem_universe.2 ⟨u, h, u.mem_parts_self⟩

theorem Document.universe_parts {d : Document} {u v : Term} (hu : u ∈ d.universe) (hv : v ∈ u.parts) :
    v ∈ d.universe := by
  obtain ⟨w, hw, hu⟩ := Document.mem_universe.1 hu
  exact Document.mem_universe.2 ⟨w, hw, Term.parts_trans w u v hu hv⟩

theorem inUniverse_stated (d : Document) : InUniverse d d.triples := by
  intro t ht u hu
  refine Document.mem_universe_of_component (List.mem_append_left _ ?_)
  exact List.mem_flatMap.2 ⟨t, ht, hu⟩

theorem InUniverse.of_isPartOf {d : Document} {data : List Triple} (h : InUniverse d data) {v : Term}
    (hv : IsPartOf data v) : v ∈ d.universe := by
  obtain ⟨t, ht, hv⟩ := hv
  obtain ⟨u, hu, hv⟩ := Term.mem_allParts.1 hv
  exact Document.universe_parts (h t ht u hu) hv

/-! ## Conclusions stay in the universe -/

theorem Triple.terms_instantiate (b : Bindings) (p : Triple) :
    (p.instantiate b).terms = p.terms.map (Term.instantiate b) := by
  obtain ⟨s, q, o⟩ := p
  simp [Triple.instantiate, Triple.terms]

/-- an instance without variables is in the universe if values are, and the pattern is a variable or a component -/
theorem Term.instantiate_mem_universe {d : Document} {b : Bindings}
    (hb : ∀ name value, b.find? name = some value → value ∈ d.universe) {u : Term}
    (hu : u.isVariable = true ∨ u.isGround = true ∧ u ∈ d.components) (hg : (u.instantiate b).isGround = true) :
    u.instantiate b ∈ d.universe := by
  rcases hu with hv | ⟨hground, hcomponent⟩
  · cases u with
    | var name =>
      cases hf : b.find? name with
      | none =>
        simp only [Term.instantiate, hf, Option.getD_none] at hg
        cases hg
      | some value =>
        simp only [Term.instantiate, hf, Option.getD_some]
        exact hb name value hf
    | _ => cases hv
  · rw [Term.instantiate_of_isGround b u hground]
    exact Document.mem_universe_of_component hcomponent

/-- a rule that builds no terms gives facts in the universe from facts in the universe -/
theorem inUniverse_instantiate {d : Document} {data : List Triple} (hdata : InUniverse d data) {r : Rule}
    (hr : r ∈ d.rules) (hbuilds : r.buildsNoTerms = true) {registry : Registry} {b : Bindings}
    (hb : b ∈ solutions data registry r.antecedent.triples {}) {p : Triple} (hp : p ∈ r.consequent.triples)
    (hg : (p.instantiate b).isGround = true) : ∀ u ∈ (p.instantiate b).terms, u ∈ d.universe := by
  have hvalues : ∀ name value, b.find? name = some value → value ∈ d.universe := by
    intro name value hv
    rcases (solutions_grow hb).find? hv with hempty | hpart
    · cases hempty
    · exact hdata.of_isPartOf hpart
  intro u hu
  have hug := Triple.isGround_iff.1 hg u hu
  rw [Triple.terms_instantiate] at hu
  obtain ⟨v, hv, rfl⟩ := List.mem_map.1 hu
  refine Term.instantiate_mem_universe hvalues ?_ hug
  have hall := List.all_eq_true.1 (List.all_eq_true.1 hbuilds p hp) v hv
  rw [Bool.or_eq_true] at hall
  -- here the condition on consequents is needed: an instance of a variable inside a list would be a new term
  rcases hall with hvariable | hground
  · exact Or.inl hvariable
  · refine Or.inr ⟨hground, List.mem_append_right _ ?_⟩
    exact List.mem_flatMap.2 ⟨r, hr, List.mem_flatMap.2 ⟨p, hp, List.mem_filter.2 ⟨hv, hground⟩⟩⟩

/-! ## Runs stay in the universe -/

section Run

variable {bus : Bus} {d : Document} {c : Context}

/-- at every point of a run, all facts are made of terms of the universe -/
theorem Reached.inUniverse (hbuilds : ∀ r ∈ d.rules, r.buildsNoTerms = true) {stage : Stage} {run : Run}
    (h : Reached bus d c stage run) : InUniverse d run.store.triples := by
  refine h.store_induct (P := fun s => InUniverse d s.triples) ?_ ?_
  · intro t ht
    obtain ⟨f, hf, rfl⟩ := FactBase.mem_triples.1 ht
    exact inUniverse_stated d f.triple (FactBase.mem_ofAsserted hf).2
  · intro a b t now s hc hg _ hi hnow u hu
    rw [FactBase.triples_of_insert? hi, List.mem_append, List.mem_singleton] at hu
    rcases hu with hu | rfl
    · exact hnow u hu
    · have hconcluding := hc.concluding
      have hbefore : InUniverse d a.before.store.triples := by
        intro v hv
        exact hnow v (hconcluding.since.triples hv)
      obtain ⟨p, hp, rfl⟩ := hconcluding.given
      exact inUniverse_instantiate hbefore hconcluding.listed (hbuilds a.rule hconcluding.listed)
        hconcluding.solution hp hg

end Run

/-! ## How many facts there can be -/

/-- the terms of a triple, one beside the other -/
def Triple.tuple (t : Triple) : Term × Term × Term :=
  (t.subject, t.predicate, t.object)

theorem Triple.tuple_injective : Function.Injective Triple.tuple := by
  rintro ⟨s, p, o⟩ ⟨s', p', o'⟩ h
  simpa [Triple.tuple] using h

/-- different triples in the universe are no more than the third power of its size -/
theorem inUniverse_bound {d : Document} {ts : List Triple} (hnodup : ts.Nodup) (h : InUniverse d ts) :
    ts.length ≤ d.universe.card ^ 3 := by
  have hmaps : Set.MapsTo Triple.tuple ts.toFinset (d.universe ×ˢ d.universe ×ˢ d.universe : Finset _) := by
    intro t ht
    have hterms := h t (List.mem_toFinset.1 ht)
    have hs : t.subject ∈ d.universe := hterms _ (by simp [Triple.terms])
    have hp : t.predicate ∈ d.universe := hterms _ (by simp [Triple.terms])
    have ho : t.object ∈ d.universe := hterms _ (by simp [Triple.terms])
    simp [Triple.tuple, hs, hp, ho]
  calc ts.length = ts.toFinset.card := (List.toFinset_card_of_nodup hnodup).symm
    _ ≤ (d.universe ×ˢ d.universe ×ˢ d.universe).card :=
      Finset.card_le_card_of_injOn Triple.tuple hmaps Triple.tuple_injective.injOn
    _ = d.universe.card ^ 3 := by
      rw [Finset.card_product, Finset.card_product]
      ring

/-- **Termination.** A document whose rules build no terms has a run that ends, or stops at a predicate that no fact can
have, after so many sweeps as different facts can be made of its universe, and one more, at most. -/
theorem run_terminates (bus : Bus) (d : Document) (c : Context) (hbuilds : ∀ r ∈ d.rules, r.buildsNoTerms = true) :
    (∃ run n, Run.ofDocument? bus (1 + d.universe.card ^ 3) d c = some (.ok (run, n)) ∧
      n ≤ 1 + d.universe.card ^ 3) ∨
    ∃ s index t, Run.ofDocument? bus (1 + d.universe.card ^ 3) d c = some (.error s) ∧
      s.failure = .predicate index t := by
  have hbound : ∀ run, Reached bus d c .sweep run → run.store.size ≤ d.universe.card ^ 3 := by
    intro run h
    rw [← FactBase.length_triples]
    exact inUniverse_bound h.wellFormed.nodup (h.inUniverse hbuilds)
  obtain ⟨r, hr⟩ := Reached.ofDocument?_bounded hbound
  cases r with
  | ok r => exact Or.inl ⟨r.1, r.2, hr, (Reached.ofDocument?_ok hr).1⟩
  | error s =>
    obtain ⟨a, b, t, -, -, -, hfailure⟩ := Reached.ofDocument?_error hr
    exact Or.inr ⟨s, a.index, t.predicate, hr, hfailure⟩

/-- the acquaintances have a universe of three terms, so their run ends after 28 sweeps at most -/
theorem acquaintances_terminate : Document.acquaintances.universe.card = 3 ∧
    ((∃ run n, Run.ofDocument? {} (1 + 3 ^ 3) Document.acquaintances {} = some (.ok (run, n)) ∧ n ≤ 1 + 3 ^ 3) ∨
      ∃ s index t, Run.ofDocument? {} (1 + 3 ^ 3) Document.acquaintances {} = some (.error s) ∧
        s.failure = .predicate index t) := by
  have hcard : Document.acquaintances.universe.card = 3 := by decide +kernel
  have h := run_terminates {} Document.acquaintances {} (by decide +kernel)
  rw [hcard] at h
  exact ⟨hcard, h⟩

end N3Rules
