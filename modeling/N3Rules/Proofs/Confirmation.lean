/-
Confirming a solution over ground facts refuses nothing.

Solving asks a builtin in the middle of the search, under bindings that go on growing, and guesses what it does not know.
Confirming asks all builtins again when the bindings are complete. Where the facts are ground and builtins read nothing but
variables and ground terms, an argument keeps the value that it was tried with, and so both ask the same.

- `choices_settled`: what an argument is tried with is its instance from then on;
- `attempts_settled`, `solveCalls_settled`: so it is for all arguments of an attempt, and for every call that solving makes;
- `solutions_hold`: the builtins hold of their patterns under all later bindings;
- `solve_confirmed`: a solution is confirmed, if no builtin takes three arguments, for these are asked only then.

Without ground facts a solution may be refused: see `variable_value_guessed`.
-/
import N3Rules.Proofs.Domain

namespace N3Rules

/-! ## Ground bindings -/

/-- all values are ground -/
def Bindings.IsGround (b : Bindings) : Prop :=
  ∀ name value, b.find? name = some value → value.isGround = true

theorem Bindings.isGround_empty : ({} : Bindings).IsGround := by
  intro name value hv
  cases hv

theorem Bindings.IsGround.grows {P : Term → Prop} {b b' : Bindings} (hb : b.IsGround) (h : Grows P b b')
    (hp : ∀ v, P v → v.isGround = true) : b'.IsGround := by
  intro name value hv
  rcases h.find? hv with hold | hnew
  · exact hb name value hold
  · exact hp value hnew

theorem Term.isVariable_of_isGround {t : Term} (h : t.isGround = true) : t.isVariable = false := by
  cases t <;> simp_all [Term.isGround, Term.isVariable]

/-- facts without variables -/
def GroundFacts (data : List Triple) : Prop :=
  ∀ t ∈ data, t.isGround = true

theorem GroundFacts.isPartOf {data : List Triple} (h : GroundFacts data) {v : Term} (hv : IsPartOf data v) :
    v.isGround = true := by
  obtain ⟨t, ht, hv⟩ := hv
  exact Triple.isGround_of_mem_parts (h t ht) hv

theorem GroundFacts.subjects {data : List Triple} (h : GroundFacts data) :
    ∀ v ∈ data.map (·.subject), v.isGround = true := by
  intro v hv
  obtain ⟨t, ht, rfl⟩ := List.mem_map.1 hv
  exact h.isPartOf (isPartOf_of_term ht (by simp [Triple.terms]))

/-! ## Arguments -/

/-- an argument whose value can be read off bindings: a variable, or a term without variables -/
def Term.IsSimple (t : Term) : Prop :=
  t.isVariable = true ∨ t.isGround = true

/-- what an argument is tried with is its instance under all bindings from then on -/
theorem choices_settled {b : Bindings} (hb : b.IsGround) {t u : Term} (ht : t.IsSimple) {values : List Term}
    (h : u ∈ choices b t values) {b' : Bindings} (he : b'.Extends (b.assume t u)) : t.instantiate b' = u := by
  rcases ht with hvariable | hground
  · cases t with
    | var name =>
      have hfind : (b.assume (.var name) u).find? name = some u := by
        rw [Bindings.assume, Bindings.find?_bind, if_pos rfl]
        cases hf : b.find? name with
        | none => rfl
        | some value =>
          have hinstance : Term.instantiate b (.var name) = value := by simp [Term.instantiate, hf]
          rcases choices_spec h with ⟨hv, -⟩ | ⟨-, hu⟩
          · rw [hinstance, Term.isVariable_of_isGround (hb name value hf)] at hv
            cases hv
          · rw [Option.getD_some, hu, hinstance]
      rw [Term.instantiate, he name u hfind, Option.getD_some]
    | _ => cases hvariable
  · rcases choices_spec h with ⟨hv, -⟩ | ⟨-, hu⟩
    · rw [Term.instantiate_of_isGround b t hground, Term.isVariable_of_isGround hground] at hv
      cases hv
    · rw [hu, Term.instantiate_of_isGround b t hground, Term.instantiate_of_isGround b' t hground]

/-- a builtin is tried with the instances of its arguments under all bindings from then on -/
theorem attempts_settled {data : List Triple} (hdata : GroundFacts data) {g : Builtin}
    (hg : g.arity = .unary ∨ g.arity = .binary) {p : Triple} (hp : ∀ t ∈ g.argumentsOf p, t.IsSimple) {b : Bindings}
    (hb : b.IsGround) {a : List Term × Bindings} (h : a ∈ attempts data g p b) {b' : Bindings} (he : b'.Extends a.2) :
    a.1 = g.argumentsOf (p.instantiate b') := by
  obtain ⟨s, q, o⟩ := p
  obtain ⟨u, hu, h⟩ := mem_attempts.1 h
  rcases hg with hg | hg
  · rw [if_neg (by simp [hg])] at h
    subst h
    simp only [Builtin.argumentsOf, hg, List.mem_singleton, forall_eq] at hp
    simp [Builtin.argumentsOf, hg, Triple.instantiate, choices_settled hb hp hu he]
  · rw [if_pos hg] at h
    obtain ⟨v, hv, rfl⟩ := h
    simp only [Builtin.argumentsOf, hg, List.mem_cons, List.not_mem_nil, or_false, forall_eq_or_imp, forall_eq] at hp
    -- the object has its turn after the subject, under bindings that are ground as well
    have hb₁ : (b.assume s u).IsGround := hb.grows (Bindings.assume_grows hu) hdata.subjects
    have he₁ : b'.Extends (b.assume s u) := he.trans (Bindings.assume_grows hv).extends
    simp [Builtin.argumentsOf, hg, Triple.instantiate, choices_settled hb hp.1 hu he₁,
      choices_settled hb₁ hp.2 hv he]

/-! ## Solving -/

/-- the builtins that an antecedent searches with read variables and ground terms only -/
def SimpleArguments (registry : Registry) (ps : List Triple) : Prop :=
  ∀ p ∈ ps, ∀ g, registry.searched? p.predicate = some g → ∀ t ∈ g.argumentsOf p, t.IsSimple

section Antecedent

variable {data : List Triple} (hdata : GroundFacts data) {registry : Registry}

include hdata

theorem solutions_isGround {ps : List Triple} {b s : Bindings} (hb : b.IsGround)
    (h : s ∈ solutions data registry ps b) : s.IsGround :=
  hb.grows (solutions_grow h) fun _ => hdata.isPartOf

/-- under a solution, and under all bindings that extend it, the builtins hold of their patterns -/
theorem solutions_hold {ps : List Triple} (hps : SimpleArguments registry ps) {b s b' : Bindings} (hb : b.IsGround)
    (h : s ∈ solutions data registry ps b) (he : b'.Extends s) {q : Triple} (hq : q ∈ ps) {f : Builtin}
    (hf : registry.searched? q.predicate = some f) : f.holds (f.argumentsOf (q.instantiate b')) = true := by
  induction ps generalizing b s with
  | nil => cases hq
  | cons p ps ih =>
    have hrest : SimpleArguments registry ps := fun q hq => hps q (List.mem_cons_of_mem p hq)
    cases hg : registry.searched? p.predicate with
    | some g =>
      rw [solutions_cons_builtin hg] at h
      obtain ⟨b₁, hb₁, hs⟩ := List.mem_flatMap.1 h
      obtain ⟨args, ha, hholds⟩ := mem_expand.1 hs
      rcases List.mem_cons.1 hq with rfl | hq
      · obtain rfl : g = f := Option.some.inj (hg.symm.trans hf)
        have hargs := attempts_settled hdata (Registry.arity_of_searched? hg) (hps q List.mem_cons_self g hg)
          (solutions_isGround hdata hb hb₁) ha he
        rwa [← hargs]
      · exact ih hrest hb hb₁ (he.trans (attempts_grow ha).extends) hq
    | none =>
      rw [solutions_cons_pattern hg] at h
      obtain ⟨b₁, hb₁, hs⟩ := List.mem_flatMap.1 h
      obtain ⟨t, ht, hm⟩ := List.mem_filterMap.1 hb₁
      have hground : b₁.IsGround := hb.grows (Triple.match?_grows hm) fun v hv => Triple.isGround_of_mem_parts (hdata t ht) hv
      rcases List.mem_cons.1 hq with rfl | hq
      · rw [hg] at hf
        cases hf
      · exact ih hrest hground hs he hq

/-- every call that solving makes asks about an instance of a pattern -/
theorem solveCalls_settled {ps : List Triple} (hps : SimpleArguments registry ps) {b : Bindings} (hb : b.IsGround)
    (hd : b.Distinct) {c : Call} (h : c ∈ solveCalls data registry ps b) :
    ∃ p ∈ ps, ∃ b', registry.searched? p.predicate = some c.builtin ∧
      c.args = c.builtin.argumentsOf (p.instantiate b') := by
  induction ps generalizing b with
  | nil => cases h
  | cons p ps ih =>
    have hrest : SimpleArguments registry ps := fun q hq => hps q (List.mem_cons_of_mem p hq)
    have hlift : (∃ q ∈ ps, ∃ b', registry.searched? q.predicate = some c.builtin ∧
        c.args = c.builtin.argumentsOf (q.instantiate b')) → ∃ q ∈ p :: ps, ∃ b',
          registry.searched? q.predicate = some c.builtin ∧ c.args = c.builtin.argumentsOf (q.instantiate b') := by
      rintro ⟨q, hq, hcall⟩
      exact ⟨q, List.mem_cons_of_mem p hq, hcall⟩
    cases hg : registry.searched? p.predicate with
    | some g =>
      simp only [solveCalls, hg, solve_eq data registry ps hd, Except.toOption, Option.getD_some,
        List.mem_append, List.mem_map, List.mem_flatMap] at h
      rcases h with h | ⟨a, ⟨b₁, hb₁, ha⟩, rfl⟩
      · exact hlift (ih hrest hb hd h)
      · refine ⟨p, List.mem_cons_self, a.2, hg, ?_⟩
        exact attempts_settled hdata (Registry.arity_of_searched? hg) (hps p List.mem_cons_self g hg)
          (solutions_isGround hdata hb hb₁) ha (.refl a.2)
    | none =>
      simp only [solveCalls, hg, List.mem_flatMap] at h
      obtain ⟨b₁, hb₁, h⟩ := h
      obtain ⟨t, ht, hm⟩ := List.mem_filterMap.1 hb₁
      have hgrows := Triple.match?_grows hm
      exact hlift (ih hrest (hb.grows hgrows fun v hv => Triple.isGround_of_mem_parts (hdata t ht) hv)
        (hgrows.distinct hd) h)

end Antecedent

/-- **Confirming refuses nothing.** Over ground facts, every solution of an antecedent is confirmed, if no pattern names a
builtin of three arguments and builtins read variables and ground terms only. Every call that solving makes then asks about
the instance of a pattern under some bindings; so a variable that is both arguments of a builtin has one value in a call,
and it has one, of which the builtin holds, in a solution. -/
theorem solve_confirmed {data : List Triple} (hdata : GroundFacts data) {registry : Registry} {ps : List Triple}
    (harity : ∀ p ∈ ps, ∀ g, registry.named? p.predicate = some g → g.arity ≠ .ternary)
    (hps : SimpleArguments registry ps) :
    ∃ found, solve data registry ps {} = .ok found ∧ (∀ s ∈ found, confirmed registry ps s = true) ∧
      (∀ c ∈ solveCalls data registry ps {}, ∃ p ∈ ps, ∃ b, registry.searched? p.predicate = some c.builtin ∧
        c.args = c.builtin.argumentsOf (p.instantiate b)) ∧
      ∀ s ∈ found, ∀ p ∈ ps, ∀ g name, registry.searched? p.predicate = some g → g.arity = .binary →
        p.subject = .var name → p.object = .var name →
        ∃ value, s.find? name = some value ∧ value.isGround = true ∧ g.holds [value, value] = true := by
  have hempty := Bindings.isGround_empty
  refine ⟨solutions data registry ps {}, solve_eq data registry ps Bindings.distinct_empty, ?_, ?_, ?_⟩
  · intro s hs
    rw [confirmed_iff]
    intro q hq g hg
    have hsearched : registry.searched? q.predicate = some g := by
      simp [Registry.searched?, hg, harity q hq g hg]
    exact solutions_hold hdata hps hempty hs (.refl s) hq hsearched
  · intro c hc
    exact solveCalls_settled hdata hps hempty Bindings.distinct_empty hc
  · intro s hs p hp g name hg hbinary hsubject hobject
    have hbound : s.Binds name := by
      rw [solutions_binds hs]
      refine Or.inr (List.mem_flatMap.2 ⟨p, hp, ?_⟩)
      simp [Triple.boundVariables, hg, Triple.argumentVariables, Builtin.argumentsOf, hbinary, hsubject, Term.name?]
    obtain ⟨value, hvalue⟩ := Option.isSome_iff_exists.1 hbound
    have hholds := solutions_hold hdata hps hempty hs (.refl s) hp hg
    obtain ⟨u, q, v⟩ := p
    simp only at hsubject hobject
    subst hsubject hobject
    refine ⟨value, hvalue, solutions_isGround hdata hempty hs name value hvalue, ?_⟩
    simpa [Builtin.argumentsOf, hbinary, Triple.instantiate, Term.instantiate, hvalue] using hholds

/-- who likes themselves, and who knows somebody other than themselves: `?x` is both arguments of `likes` and is guessed out
of the subjects of facts; the builtins that read `?y` are asked about it when it has a value -/
theorem likings_confirmed :
    let data : List Triple := [⟨.iri "ann", .iri "knows", .iri "bob"⟩, ⟨.iri "ann", .iri "knows", .iri "ann"⟩,
      ⟨.list [.plain "tea"], .iri "likes", .formula ⟨[⟨.iri "a", .iri "b", .iri "c"⟩], []⟩⟩]
    let registry : Registry := ({} : Registry).register ⟨"likes", .binary, none, fun args =>
      some (.truth (args != [.iri "bob", .iri "bob"]))⟩
    let ps : List Triple := [⟨.var "x", .iri "likes", .var "x"⟩, ⟨.var "y", .iri (typeNamespace ++ "isIri"), .plain "-"⟩,
      ⟨.var "z", .iri "knows", .var "y"⟩, ⟨.var "z", .iri (logNamespace ++ "notEqualTo"), .var "y"⟩]
    GroundFacts data ∧ (∀ p ∈ ps, ∀ g, registry.named? p.predicate = some g → g.arity ≠ .ternary) ∧
      SimpleArguments registry ps ∧ ∃ found, solve data registry ps {} = .ok found ∧
        found.map (·.find? "x") = [some (.iri "ann"), some (.list [.plain "tea"])] ∧
        ∀ s ∈ found, confirmed registry ps s = true := by
  intro data registry ps
  have hdata : GroundFacts data := by
    unfold GroundFacts
    decide +kernel
  have harity : ∀ p ∈ ps, ∀ g ∈ registry.named? p.predicate, g.arity ≠ .ternary := by decide +kernel
  have hsimple : ∀ p ∈ ps, ∀ g ∈ registry.searched? p.predicate, ∀ t ∈ g.argumentsOf p,
      t.isVariable = true ∨ t.isGround = true := by decide +kernel
  have hvalues : (solve data registry ps {}).map (·.map (·.find? "x")) =
      .ok [some (.iri "ann"), some (.list [.plain "tea"])] := by decide +kernel
  obtain ⟨found, hfound, hconfirmed, -⟩ := solve_confirmed hdata harity hsimple
  rw [hfound] at hvalues
  exact ⟨hdata, harity, hsimple, found, hfound, Except.ok.inj hvalues, hconfirmed⟩

end N3Rules
