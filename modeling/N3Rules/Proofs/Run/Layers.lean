/-
Rules that stand in layers come to an end, whatever terms they build.

A rule feeds another one in two ways: a conclusion of it matches a pattern of the other's antecedent, or the other guesses
an argument of a builtin out of a place in which the conclusion may have a new term. Where rules are numbered so that each
feeds only rules with higher numbers, the conclusions of each layer are made of finitely many values, so there are finitely
many of them. That guesses count here is essential: they take a rule's own conclusions in, which no pattern of it shows.

- `Triple.finite_instances`: a pattern has finitely many instances, if values are from a finite set;
- `Rule.FeedsMatch`, `Rule.FeedsGuess`, `Document.Layered`: rules that feed each other, and rules in layers;
- `Application.Concludes.valuesIn`: the values that a rule goes by come out of the layers below it;
- `concluded_finite`: finitely many triples are concluded in each layer;
- `layers_terminate`: the run of a document in layers ends;
- `guesses_never_end`: with guesses left out of account, it need not.
-/
import N3Rules.Proofs.Guesses
import N3Rules.Proofs.Run.Monotone

namespace N3Rules

/-! ## Finitely many instances -/

/-- all values are from a set -/
def Bindings.ValuesIn (b : Bindings) (V : Set Term) : Prop :=
  ∀ name value, b.find? name = some value → value ∈ V

section Instances

variable {V : Set Term}

mutual

theorem Term.finite_instances (hV : V.Finite) (t : Term) :
    {u | ∃ b : Bindings, b.ValuesIn V ∧ u = t.instantiate b}.Finite := by
  cases t with
  | var name =>
    refine (hV.insert (.var name)).subset ?_
    rintro u ⟨b, hb, rfl⟩
    cases hf : b.find? name with
    | none => simp [Term.instantiate, hf]
    | some value => simp [Term.instantiate, hf, hb name value hf]
  | list items =>
    refine ((Term.finite_allInstances hV items).image Term.list).subset ?_
    rintro u ⟨b, hb, rfl⟩
    exact ⟨_, ⟨b, hb, rfl⟩, rfl⟩
  | formula body =>
    refine ((Formula.finite_instances hV body).image Term.formula).subset ?_
    rintro u ⟨b, hb, rfl⟩
    exact ⟨_, ⟨b, hb, rfl⟩, rfl⟩
  | _ =>
    refine Set.Subsingleton.finite ?_
    rintro u ⟨b, -, rfl⟩ u' ⟨b', -, rfl⟩
    rfl

theorem Term.finite_allInstances (hV : V.Finite) (ts : List Term) :
    {us | ∃ b : Bindings, b.ValuesIn V ∧ us = Term.instantiateAll b ts}.Finite := by
  cases ts with
  | nil =>
    refine (Set.finite_singleton []).subset ?_
    rintro us ⟨b, -, rfl⟩
    rfl
  | cons t ts =>
    refine ((Term.finite_instances hV t).image2 List.cons (Term.finite_allInstances hV ts)).subset ?_
    rintro us ⟨b, hb, rfl⟩
    exact ⟨_, ⟨b, hb, rfl⟩, _, ⟨b, hb, rfl⟩, rfl⟩

theorem Triple.finite_instances (hV : V.Finite) (t : Triple) :
    {u | ∃ b : Bindings, b.ValuesIn V ∧ u = t.instantiate b}.Finite := by
  obtain ⟨s, p, o⟩ := t
  have hpairs := (Term.finite_instances hV p).prod (Term.finite_instances hV o)
  refine (((Term.finite_instances hV s).prod hpairs).image fun u => ⟨u.1, u.2.1, u.2.2⟩).subset ?_
  rintro u ⟨b, hb, rfl⟩
  exact ⟨(_, _, _), ⟨⟨b, hb, rfl⟩, ⟨b, hb, rfl⟩, ⟨b, hb, rfl⟩⟩, rfl⟩

theorem Triple.finite_allInstances (hV : V.Finite) (ts : List Triple) :
    {us | ∃ b : Bindings, b.ValuesIn V ∧ us = Triple.instantiateAll b ts}.Finite := by
  cases ts with
  | nil =>
    refine (Set.finite_singleton []).subset ?_
    rintro us ⟨b, -, rfl⟩
    rfl
  | cons t ts =>
    refine ((Triple.finite_instances hV t).image2 List.cons (Triple.finite_allInstances hV ts)).subset ?_
    rintro us ⟨b, hb, rfl⟩
    exact ⟨_, ⟨b, hb, rfl⟩, _, ⟨b, hb, rfl⟩, rfl⟩

theorem Formula.finite_instances (hV : V.Finite) (f : Formula) :
    {u | ∃ b : Bindings, b.ValuesIn V ∧ u = f.instantiate b}.Finite := by
  obtain ⟨triples, quantifiers⟩ := f
  refine ((Triple.finite_allInstances hV triples).image fun ts => ⟨ts, quantifiers⟩).subset ?_
  rintro u ⟨b, hb, rfl⟩
  exact ⟨_, ⟨b, hb, rfl⟩, rfl⟩

end

end Instances

/-! ## Layers -/

/-- a conclusion of a rule, under whatever bindings, matches a pattern of the antecedent of another rule, one that names no
searched builtin -/
def Rule.FeedsMatch (registry : Registry) (r r' : Rule) : Prop :=
  ∃ p ∈ r.consequent.triples, ∃ q ∈ r'.antecedent.triples, registry.searched? q.predicate = none ∧
    ∃ b, (Triple.match? {} q (p.instantiate b)).isSome = true

/-- another rule guesses out of a place in which a conclusion of a rule has variables before it is instantiated -/
def Rule.FeedsGuess (registry : Registry) (r r' : Rule) : Prop :=
  ∃ p ∈ r.consequent.triples, ∃ place ∈ guessedPlaces registry [] r'.antecedent.triples, (place.of p).isGround = false

/-- no rule feeds a rule whose number is not higher -/
def Document.Layered (d : Document) (registry : Registry) (rank : Rule → Nat) : Prop :=
  ∀ r ∈ d.rules, ∀ r' ∈ d.rules, rank r' ≤ rank r → ¬ r.FeedsMatch registry r' ∧ ¬ r.FeedsGuess registry r'

/-- where predicates of consequents have no variables, a rule feeds only patterns with the same predicates -/
theorem Rule.FeedsMatch.predicate_eq {registry : Registry} {r r' : Rule} (h : r.FeedsMatch registry r') :
    ∃ p ∈ r.consequent.triples, ∃ q ∈ r'.antecedent.triples, registry.searched? q.predicate = none ∧
      (p.predicate.isGround = true → ∀ u, q.predicate = .iri u → p.predicate = .iri u) := by
  obtain ⟨p, hp, q, hq, hn, b, hm⟩ := h
  refine ⟨p, hp, q, hq, hn, ?_⟩
  intro hground u hu
  obtain ⟨b', hb'⟩ := Option.isSome_iff_exists.1 hm
  obtain ⟨b₁, b₂, -, hpredicate, -⟩ := Triple.match?_eq_some_iff.1 hb'
  have hinstance : (p.instantiate b).predicate = p.predicate := by
    obtain ⟨s, q, o⟩ := p
    exact Term.instantiate_of_isGround b q hground
  rw [hu, hinstance] at hpredicate
  simp only [Term.match?] at hpredicate
  split at hpredicate
  · rename_i heq
    exact heq.symm
  · cases hpredicate

section Run

variable {bus : Bus} {d : Document} {c : Context} {rank : Rule → Nat}

/-- what the rules with lower numbers conclude at all points of a run, and can be a fact -/
def concludedBelow (bus : Bus) (d : Document) (c : Context) (rank : Rule → Nat) (k : Nat) : Set Triple :=
  {t | t.isGround = true ∧ ∃ (a : Application) (b : Bindings) (now : Run), a.Concludes bus d c b t now ∧ rank a.rule < k}

/-- what a document states, and what the rules with lower numbers conclude -/
def factsBelow (bus : Bus) (d : Document) (c : Context) (rank : Rule → Nat) (k : Nat) : Set Triple :=
  {t | t ∈ d.triples} ∪ concludedBelow bus d c rank k

/-- the parts of some facts, and the terms of all consequents -/
def Document.sources (d : Document) (facts : Set Triple) : Set Term :=
  {v | ∃ t ∈ facts, v ∈ t.parts} ∪ {v | ∃ r ∈ d.rules, ∃ p ∈ r.consequent.triples, v ∈ p.terms}

theorem Document.sources_finite (d : Document) {facts : Set Triple} (h : facts.Finite) : (d.sources facts).Finite := by
  have hparts : {v | ∃ t ∈ facts, v ∈ t.parts}.Finite := by
    refine (h.biUnion fun t _ => List.finite_toSet t.parts).subset ?_
    rintro v ⟨t, ht, hv⟩
    exact Set.mem_biUnion ht hv
  refine hparts.union ((List.finite_toSet (d.rules.flatMap fun r => r.consequent.triples.flatMap Triple.terms)).subset ?_)
  rintro v ⟨r, hr, p, hp, hv⟩
  exact List.mem_flatMap.2 ⟨r, hr, List.mem_flatMap.2 ⟨p, hp, hv⟩⟩

theorem Place.of_mem_terms (place : Place) (t : Triple) : place.of t ∈ t.terms := by
  cases place <;> simp [Place.of, Triple.terms]

theorem Place.of_instantiate (place : Place) (b : Bindings) (p : Triple) :
    place.of (p.instantiate b) = (place.of p).instantiate b := by
  obtain ⟨s, q, o⟩ := p
  cases place <;> rfl

/-- in a document in layers, what feeds a rule is concluded by a rule below it -/
theorem Application.Concludes.mem_factsBelow (hlayers : d.Layered c.registry rank) {a : Application} {b : Bindings}
    {t : Triple} {now : Run} (h : a.Concludes bus d c b t now) (hg : t.isGround = true) {r : Rule} (hr : r ∈ d.rules)
    {k : Nat} (hk : rank r ≤ k) (hfeeds : a.rule.FeedsMatch c.registry r ∨ a.rule.FeedsGuess c.registry r) :
    t ∈ factsBelow bus d c rank k := by
  refine Or.inr ⟨hg, a, b, now, h, ?_⟩
  by_contra hlt
  obtain ⟨hmatch, hguess⟩ := hlayers a.rule h.concluding.listed r hr (by omega)
  rcases hfeeds with hfeeds | hfeeds
  · exact hmatch hfeeds
  · exact hguess hfeeds

/-- in a document in layers, the solutions of a rule have values out of what the rules below it conclude -/
theorem Application.Concludes.valuesIn (hbus : bus.Silent) (hlayers : d.Layered c.registry rank) {a : Application}
    {b : Bindings} {t : Triple} {now : Run} (h : a.Concludes bus d c b t now) {k : Nat} (hk : rank a.rule ≤ k) :
    b.ValuesIn (d.sources (factsBelow bus d c rank k)) := by
  have hconcluding := h.concluding
  obtain ⟨size, rules, hreached⟩ := hconcluding.begins
  have hsolution := hconcluding.solution
  rw [Application.solutions, hconcluding.begins.registry hbus] at hsolution
  have hgrows : Bindings.Grows (· ∈ d.sources (factsBelow bus d c rank k)) {} b := by
    have hunbound : ∀ name ∈ ([] : List String), ({} : Bindings).Binds name := by
      intro name hname
      cases hname
    refine solutions_grow_from hunbound ?_ ?_ hsolution
    · intro q hq hn u hu hm v hv
      refine Or.inl ⟨u, ?_, hv⟩
      rcases hreached.offered u hu with hstated | ⟨a', b', now', h', hg, -⟩
      · exact Or.inl hstated
      · obtain ⟨p, hp, rfl⟩ := h'.concluding.given
        exact h'.mem_factsBelow hlayers hg hconcluding.listed hk (Or.inl ⟨p, hp, q, hq, hn, b', hm⟩)
    · intro place hplace u hu
      have hpart : place.of u ∈ u.parts := u.mem_parts_of_term (place.of_mem_terms u) (Term.mem_parts_self _)
      rcases hreached.offered u hu with hstated | ⟨a', b', now', h', hg, -⟩
      · exact Or.inl ⟨u, Or.inl hstated, hpart⟩
      · obtain ⟨p, hp, rfl⟩ := h'.concluding.given
        -- a term without variables comes out of the rules themselves, whatever the number of the rule it is in
        cases hground : (place.of p).isGround with
        | true =>
          rw [Place.of_instantiate, Term.instantiate_of_isGround b' _ hground]
          exact Or.inr ⟨a'.rule, h'.concluding.listed, p, hp, place.of_mem_terms p⟩
        | false =>
          have hfeeds : a'.rule.FeedsGuess c.registry a.rule := ⟨p, hp, place, hplace, hground⟩
          exact Or.inl ⟨_, h'.mem_factsBelow hlayers hg hconcluding.listed hk (Or.inr hfeeds), hpart⟩
  intro name value hv
  rcases hgrows.find? hv with hempty | hvalue
  · cases hempty
  · exact hvalue

/-- in a document in layers, the rules below a number conclude finitely many triples -/
theorem concluded_finite (hbus : bus.Silent) (hlayers : d.Layered c.registry rank) (k : Nat) :
    (concludedBelow bus d c rank k).Finite := by
  induction k with
  | zero =>
    refine Set.finite_empty.subset ?_
    rintro t ⟨-, a, b, now, -, hlt⟩
    exact absurd hlt (Nat.not_lt_zero _)
  | succ k ih =>
    have hsources : (d.sources (factsBelow bus d c rank k)).Finite :=
      d.sources_finite ((List.finite_toSet d.triples).union ih)
    have hinstances := (List.finite_toSet (d.rules.flatMap fun r => r.consequent.triples)).biUnion
      fun p _ => Triple.finite_instances hsources p
    refine hinstances.subset ?_
    rintro t ⟨-, a, b, now, h, hlt⟩
    obtain ⟨p, hp, rfl⟩ := h.concluding.given
    refine Set.mem_biUnion (List.mem_flatMap.2 ⟨a.rule, h.concluding.listed, hp⟩) ?_
    exact ⟨b, h.valuesIn hbus hlayers (by omega), rfl⟩

/-- **Termination in layers.** While nobody registers builtins, a document whose rules can be numbered so that each feeds,
by matches or by guesses, only rules with higher numbers has a run that ends, or stops at a predicate that no fact can
have. -/
theorem layers_terminate (hbus : bus.Silent) (hlayers : ∃ rank, d.Layered c.registry rank) :
    ∃ limit, (∃ run n, Run.ofDocument? bus limit d c = some (.ok (run, n)) ∧ n ≤ limit) ∨
      ∃ s index t, Run.ofDocument? bus limit d c = some (.error s) ∧ s.failure = .predicate index t := by
  obtain ⟨rank, hlayers⟩ := hlayers
  obtain ⟨top, htop⟩ := (List.finite_toSet (d.rules.map rank)).bddAbove
  have hfinite : (factsBelow bus d c rank (top + 1)).Finite :=
    (List.finite_toSet d.triples).union (concluded_finite hbus hlayers (top + 1))
  have hbound : ∀ run, Reached bus d c .sweep run → run.store.size ≤ hfinite.toFinset.card := by
    intro run h
    rw [← FactBase.length_triples, ← List.toFinset_card_of_nodup h.wellFormed.nodup]
    refine Finset.card_le_card ?_
    intro t ht
    rw [Set.Finite.mem_toFinset]
    rcases h.offered t (List.mem_toFinset.1 ht) with hstated | ⟨a, b, now, hconcludes, hg, -⟩
    · exact Or.inl hstated
    · have hrank : rank a.rule ≤ top := htop (List.mem_map_of_mem hconcludes.concluding.listed)
      exact Or.inr ⟨hg, a, b, now, hconcludes, by omega⟩
  obtain ⟨r, hr⟩ := Reached.ofDocument?_bounded hbound
  refine ⟨1 + hfinite.toFinset.card, ?_⟩
  cases r with
  | ok r => exact Or.inl ⟨r.1, r.2, hr, (Reached.ofDocument?_ok hr).1⟩
  | error s =>
    obtain ⟨a, b, t, -, -, -, hfailure⟩ := Reached.ofDocument?_error hr
    exact Or.inr ⟨s, a.index, t.predicate, hr, hfailure⟩

end Run

/-- pairs of acquaintances are built by one rule, and guessed by another, which puts them into lists once more -/
theorem pairs_terminate :
    let d : Document := { triples := [⟨.iri "ann", .iri "knows", .iri "bob"⟩], rules := [
      ⟨⟨[⟨.var "x", .iri "knows", .var "y"⟩], []⟩, ⟨[⟨.list [.var "x", .var "y"], .iri "is", .iri "pair"⟩], []⟩⟩,
      ⟨⟨[⟨.var "z", .iri (typeNamespace ++ "isList"), .var "z"⟩], []⟩,
        ⟨[⟨.iri "ann", .iri "lists", .list [.var "z"]⟩], []⟩⟩] }
    let rank : Rule → Nat := fun r => if r.antecedent.triples.any (·.predicate = .iri "knows") then 0 else 1
    d.Layered {} rank ∧ ∃ limit, (∃ run n, Run.ofDocument? {} limit d {} = some (.ok (run, n)) ∧ n ≤ limit) ∨
      ∃ s index t, Run.ofDocument? {} limit d {} = some (.error s) ∧ s.failure = .predicate index t := by
  intro d rank
  have hconsequents : ∀ r ∈ d.rules, ∀ p ∈ r.consequent.triples, p.predicate.isGround = true ∧
      p.predicate ≠ .iri "knows" := by decide +kernel
  have hantecedents : ∀ r ∈ d.rules, ∀ q ∈ r.antecedent.triples, ({} : Registry).searched? q.predicate = none →
      q.predicate = .iri "knows" := by decide +kernel
  have hguesses : ∀ r ∈ d.rules, ∀ place ∈ guessedPlaces {} [] r.antecedent.triples, rank r = 1 ∧ place = .subject := by
    decide +kernel
  have hsubjects : ∀ r ∈ d.rules, 1 ≤ rank r → ∀ p ∈ r.consequent.triples, p.subject.isGround = true := by
    decide +kernel
  have hlayered : d.Layered {} rank := by
    intro r hr r' hr' hrank
    constructor
    · intro hfeeds
      obtain ⟨p, hp, q, hq, hn, hpredicate⟩ := hfeeds.predicate_eq
      obtain ⟨hground, hne⟩ := hconsequents r hr p hp
      exact hne (hpredicate hground "knows" (hantecedents r' hr' q hq hn))
    · rintro ⟨p, hp, place, hplace, hopen⟩
      obtain ⟨hone, rfl⟩ := hguesses r' hr' place hplace
      rw [hone] at hrank
      rw [Place.of, hsubjects r hr hrank p hp] at hopen
      cases hopen
  exact ⟨hlayered, layers_terminate Bus.silent_empty ⟨rank, hlayered⟩⟩

/-! ## Guesses left out of account -/

/-- everything is equal to itself, and therefore stands in a list of its own -/
def Document.nesting : Document where
  triples := [⟨.iri "a", .iri "p", .iri "o"⟩]
  rules := [⟨⟨[⟨.var "x", .iri (logNamespace ++ "equalTo"), .var "x"⟩], []⟩,
    ⟨[⟨.list [.var "x"], .iri "p", .iri "o"⟩], []⟩⟩]

/-- the triple that says of a term what the document says of `a` -/
def nestingFact (x : Term) : Triple :=
  ⟨x, .iri "p", .iri "o"⟩

theorem nestingFact_key_lt (x : Term) : (nestingFact x).keyChars.length < (nestingFact (.list [x])).keyChars.length := by
  simp [nestingFact, Triple.keyChars, Term.chars, Term.spacedChars]

theorem equalTo_holds (x : Term) : (coreBuiltins[0]).holds [x, x] = true := by
  simp [coreBuiltins, binaryTest, Builtin.holds, Builtin.takes, Arity.toNat, Answer.holds]

/-- from what is said of a term, the same follows for the list of it -/
theorem nesting_consequence {data : List Triple} {x : Term} (hx : nestingFact x ∈ data) (hg : x.isGround = true) :
    nestingFact (.list [x]) ∈ consequences {} Document.nesting.rules data := by
  have hnamed : ({} : Registry).named? (.iri (logNamespace ++ "equalTo")) = some (coreBuiltins[0]) := rfl
  have hsearched : ({} : Registry).searched? (.iri (logNamespace ++ "equalTo")) = some (coreBuiltins[0]) := rfl
  have hbinary : (coreBuiltins[0]).arity = .binary := rfl
  have hvalue : Term.instantiate (({} : Bindings).bind "x" x) (.var "x") = x := rfl
  have hvariable : x.isVariable = false := by
    cases x <;> simp_all [Term.isVariable, Term.isGround]
  have hsubject : x ∈ choices {} (.var "x") (data.map (·.subject)) := by
    have hmem : x ∈ data.map (·.subject) := List.mem_map_of_mem hx
    simpa [choices, Term.instantiate, Bindings.find?, Term.isVariable] using hmem
  refine mem_consequences.2 ⟨_, List.mem_singleton_self _, ({} : Bindings).bind "x" x, ?_, ?_, _,
    List.mem_singleton_self _, rfl⟩
  · rw [solutions_cons_builtin hsearched]
    refine List.mem_flatMap.2 ⟨{}, List.mem_singleton_self _, mem_expand.2 ⟨[x, x], ?_, equalTo_holds x⟩⟩
    refine mem_attempts.2 ⟨x, hsubject, ?_⟩
    rw [if_pos hbinary]
    refine ⟨x, ?_, rfl⟩
    simp [choices, Bindings.assume, hvalue, hvariable]
  · rw [confirmed_iff]
    intro q hq g hgq
    rw [List.mem_singleton.1 hq, hnamed] at hgq
    cases hgq
    rw [List.mem_singleton.1 hq]
    exact equalTo_holds x

/-- only such facts are offered to the base -/
theorem Offered.eq_nestingFact {t : Triple} (h : Offered {} Document.nesting {} t) :
    ∃ x, x.isGround = true ∧ t = nestingFact x := by
  rcases h with hstated | ⟨a, b, now, hconcludes, hg, -⟩
  · exact ⟨.iri "a", rfl, List.mem_singleton.1 hstated⟩
  · obtain ⟨p, hp, rfl⟩ := hconcludes.concluding.given
    rw [List.mem_singleton.1 hconcludes.concluding.listed] at hp
    rw [List.mem_singleton.1 hp] at hg ⊢
    refine ⟨Term.instantiate b (.list [.var "x"]), ?_, rfl⟩
    simpa [Triple.instantiate, Triple.isGround, Term.instantiate, Term.isGround] using hg

/-- no base is closed in which all facts have this form: a fact with the longest key has a consequence with a longer one -/
theorem nesting_not_finished {s : FactBase} (h : Finished {} Document.nesting {} s) : False := by
  have hmem : ∀ u, s.contains u = true → ∃ v ∈ s.triples, v.key = u.key := by
    intro u hu
    exact h.wellFormed.contains_iff.1 hu
  obtain ⟨first, hfirst, -⟩ := hmem _ (h.asserted _ (List.mem_singleton_self _))
  obtain ⟨t, ht, hlongest⟩ :=
    Finset.exists_max_image s.triples.toFinset (·.keyChars.length) ⟨first, List.mem_toFinset.2 hfirst⟩
  rw [List.mem_toFinset] at ht
  obtain ⟨x, hg, rfl⟩ := (h.offered t ht).eq_nestingFact
  have hconsequence := nesting_consequence ht hg
  have hground : (nestingFact (.list [x])).isGround = true := by
    simp [nestingFact, Triple.isGround, Term.isGround, Term.allGround, hg]
  rcases FactBase.closed_iff.1 h.closed _ hconsequence with hopen | ⟨-, hcontains⟩
  · rw [hground] at hopen
    cases hopen
  · obtain ⟨u, hu, hkey⟩ := hmem _ hcontains
    have hchars : u.keyChars = (nestingFact (.list [x])).keyChars := String.ofList_injective hkey
    have hle := hlongest u (List.mem_toFinset.2 hu)
    have hlt := nestingFact_key_lt x
    rw [hchars] at hle
    omega

/-- **Guesses matter.** No pattern of the rule in this document matches a conclusion of it; but what it guesses out of the
facts includes its own conclusions, and its run never ends. -/
theorem guesses_never_end :
    (∃ rank : Rule → Nat, ∀ r ∈ Document.nesting.rules, ∀ r' ∈ Document.nesting.rules, rank r' ≤ rank r →
      ¬ r.FeedsMatch {} r') ∧ ∀ limit, Run.ofDocument? {} limit Document.nesting {} = none := by
  constructor
  · have hcalled : ∀ r ∈ Document.nesting.rules, ∀ q ∈ r.antecedent.triples,
        ({} : Registry).searched? q.predicate ≠ none := by decide +kernel
    refine ⟨fun _ => 0, ?_⟩
    rintro r - r' hr' - ⟨p, -, q, hq, hn, -⟩
    exact hcalled r' hr' q hq hn
  · intro limit
    cases hrun : Run.ofDocument? {} limit Document.nesting {} with
    | none => rfl
    | some result =>
      cases result with
      | ok r => exact (nesting_not_finished (finished_of_ofDocument? Bus.silent_empty hrun)).elim
      | error s =>
        obtain ⟨a, b, t, hconcludes, -, hpredicate, -⟩ := Reached.ofDocument?_error hrun
        obtain ⟨p, hp, rfl⟩ := hconcludes.concluding.given
        rw [List.mem_singleton.1 hconcludes.concluding.listed] at hp
        rw [List.mem_singleton.1 hp] at hpredicate
        cases hpredicate

end N3Rules
