/-
What every solution of an antecedent is like.

`solutions` is the search without the combination of bindings at the end of each match. The two are the same, because a
solution of the rest extends the bindings that it started from; so solving never ends in a conflict.

- `solve_eq`: solving gives exactly the solutions;
- `solutions_grow`: a solution gives parts of the data to variables, and nothing else;
- `solutions_matched`: under a solution, every pattern that names no searched builtin passes as some fact;
- `solutions_mono`: more data have more solutions;
- `confirmed_iff`: what confirming a solution says of its builtins;
- `consequences_mono`: more rules and more facts give more in one step.
-/
import N3Rules.Solve
import N3Rules.Proofs.Match

namespace N3Rules

/-- the parts of the terms of some facts -/
def IsPartOf (data : List Triple) (v : Term) : Prop := ∃ t ∈ data, v ∈ t.parts

theorem isPartOf_of_term {data : List Triple} {t : Triple} (ht : t ∈ data) {u : Term} (hu : u ∈ t.terms) :
    IsPartOf data u :=
  ⟨t, ht, t.mem_parts_of_term hu u.mem_parts_self⟩

/-! ## Builtins -/

theorem choices_spec {b : Bindings} {t u : Term} {values : List Term} (h : u ∈ choices b t values) :
    (t.instantiate b).isVariable = true ∧ u ∈ values ∨ (t.instantiate b).isVariable = false ∧ u = t.instantiate b := by
  unfold choices at h
  by_cases hv : (t.instantiate b).isVariable = true
  · rw [if_pos hv, List.mem_eraseDups] at h
    exact Or.inl ⟨hv, h⟩
  · rw [if_neg hv, List.mem_singleton] at h
    exact Or.inr ⟨by simpa using hv, h⟩

theorem choices_mono {values values' : List Term} (hsub : values ⊆ values') (b : Bindings) (t : Term) :
    choices b t values ⊆ choices b t values' := by
  intro u hu
  unfold choices at hu ⊢
  by_cases hv : (t.instantiate b).isVariable = true
  · rw [if_pos hv, List.mem_eraseDups] at hu ⊢
    exact hsub hu
  · rw [if_neg hv] at hu ⊢
    exact hu

/-- an argument gets a value only when it is a variable without one, and then out of the data -/
theorem Bindings.assume_grows {b : Bindings} {t u : Term} {values : List Term} (h : u ∈ choices b t values) :
    Grows (· ∈ values) b (b.assume t u) := by
  unfold Bindings.assume
  cases t with
  | var name =>
    cases hf : b.find? name with
    | some old =>
      simp only [Bindings.bind, hf]
      exact .refl
    | none =>
      rcases choices_spec h with ⟨-, hu⟩ | ⟨hv, -⟩
      · exact Grows.refl.bind hf hu
      · simp [Term.instantiate, hf, Term.isVariable] at hv
  | _ => exact .refl

theorem mem_attempts {data : List Triple} {g : Builtin} {p : Triple} {b : Bindings} {a : List Term × Bindings} :
    a ∈ attempts data g p b ↔ ∃ s ∈ choices b p.subject (data.map (·.subject)),
      if g.arity = .binary then
        ∃ o ∈ choices (b.assume p.subject s) p.object (data.map (·.object)),
          ([s, o], (b.assume p.subject s).assume p.object o) = a
      else a = ([s], b.assume p.subject s) := by
  unfold attempts
  rw [List.mem_flatMap]
  refine exists_congr fun s => and_congr_right fun _ => ?_
  split <;> simp

theorem attempts_grow {data : List Triple} {g : Builtin} {p : Triple} {b : Bindings} {a : List Term × Bindings}
    (h : a ∈ attempts data g p b) : Bindings.Grows (IsPartOf data) b a.2 := by
  have hsubject : ∀ v ∈ data.map (·.subject), IsPartOf data v := by
    intro v hv
    obtain ⟨t, ht, rfl⟩ := List.mem_map.1 hv
    exact isPartOf_of_term ht (by simp [Triple.terms])
  have hobject : ∀ v ∈ data.map (·.object), IsPartOf data v := by
    intro v hv
    obtain ⟨t, ht, rfl⟩ := List.mem_map.1 hv
    exact isPartOf_of_term ht (by simp [Triple.terms])
  obtain ⟨s, hs, h⟩ := mem_attempts.1 h
  have gs := (Bindings.assume_grows hs).mono hsubject
  by_cases hg : g.arity = .binary
  · rw [if_pos hg] at h
    obtain ⟨o, ho, rfl⟩ := h
    exact gs.trans ((Bindings.assume_grows ho).mono hobject)
  · rw [if_neg hg] at h
    rw [h]
    exact gs

theorem attempts_mono {data data' : List Triple} (hsub : data ⊆ data') (g : Builtin) (p : Triple) (b : Bindings) :
    attempts data g p b ⊆ attempts data' g p b := by
  intro a ha
  obtain ⟨s, hs, h⟩ := mem_attempts.1 ha
  refine mem_attempts.2 ⟨s, choices_mono (List.map_subset _ hsub) b _ hs, ?_⟩
  by_cases hg : g.arity = .binary
  · rw [if_pos hg] at h ⊢
    obtain ⟨o, ho, rfl⟩ := h
    exact ⟨o, choices_mono (List.map_subset _ hsub) _ _ ho, rfl⟩
  · rw [if_neg hg] at h ⊢
    exact h

theorem mem_expand {data : List Triple} {g : Builtin} {p : Triple} {b b' : Bindings} :
    b' ∈ expand data g p b ↔ ∃ args, (args, b') ∈ attempts data g p b ∧ g.holds args = true := by
  simp [expand]

/-! ## The search -/

/-- the extensions of the bindings under which all patterns hold, found without combining any -/
def solutions (data : List Triple) (registry : Registry) : List Triple → Bindings → List Bindings
  | [], b => [b]
  | p :: ps, b =>
    match registry.searched? p.predicate with
    | some g => (solutions data registry ps b).flatMap (expand data g p)
    | none => (data.filterMap (Triple.match? b p)).flatMap (solutions data registry ps)

theorem solutions_cons_builtin {registry : Registry} {p : Triple} {g : Builtin}
    (hg : registry.searched? p.predicate = some g) (data ps : List Triple) (b : Bindings) :
    solutions data registry (p :: ps) b = (solutions data registry ps b).flatMap (expand data g p) := by
  simp only [solutions, hg]

theorem solutions_cons_pattern {registry : Registry} {p : Triple} (hg : registry.searched? p.predicate = none)
    (data ps : List Triple) (b : Bindings) :
    solutions data registry (p :: ps) b =
      (data.filterMap (Triple.match? b p)).flatMap (solutions data registry ps) := by
  simp only [solutions, hg]

/-- a solution gives parts of the data to variables that have no value -/
theorem solutions_grow {data : List Triple} {registry : Registry} {ps : List Triple} {b s : Bindings}
    (h : s ∈ solutions data registry ps b) : Bindings.Grows (IsPartOf data) b s := by
  induction ps generalizing b s with
  | nil =>
    rw [List.mem_singleton.1 h]
    exact .refl
  | cons p ps ih =>
    cases hg : registry.searched? p.predicate with
    | some g =>
      rw [solutions_cons_builtin hg] at h
      obtain ⟨b₁, hb₁, hs⟩ := List.mem_flatMap.1 h
      obtain ⟨args, ha, -⟩ := mem_expand.1 hs
      exact (ih hb₁).trans (attempts_grow ha)
    | none =>
      rw [solutions_cons_pattern hg] at h
      obtain ⟨b₁, hb₁, hs⟩ := List.mem_flatMap.1 h
      obtain ⟨t, ht, hm⟩ := List.mem_filterMap.1 hb₁
      have hgrows : Bindings.Grows (IsPartOf data) b b₁ := by
        refine (Triple.match?_grows hm).mono ?_
        intro v hv
        exact ⟨t, ht, hv⟩
      exact hgrows.trans (ih hs)

/-- under a solution, every pattern that names no searched builtin passes as some fact -/
theorem solutions_matched {data : List Triple} {registry : Registry} {ps : List Triple} {b s : Bindings}
    (h : s ∈ solutions data registry ps b) {q : Triple} (hq : q ∈ ps) (hn : registry.searched? q.predicate = none) :
    ∃ t ∈ data, Triple.Passes s q t := by
  induction ps generalizing b s with
  | nil => cases hq
  | cons p ps ih =>
    cases hg : registry.searched? p.predicate with
    | some g =>
      rw [solutions_cons_builtin hg] at h
      obtain ⟨b₁, hb₁, hs⟩ := List.mem_flatMap.1 h
      obtain ⟨args, ha, -⟩ := mem_expand.1 hs
      rcases List.mem_cons.1 hq with rfl | hq
      · rw [hn] at hg
        cases hg
      · obtain ⟨t, ht, hm⟩ := ih hb₁ hq
        exact ⟨t, ht, hm.mono (attempts_grow ha).extends⟩
    | none =>
      rw [solutions_cons_pattern hg] at h
      obtain ⟨b₁, hb₁, hs⟩ := List.mem_flatMap.1 h
      obtain ⟨t, ht, hm⟩ := List.mem_filterMap.1 hb₁
      rcases List.mem_cons.1 hq with rfl | hq
      · exact ⟨t, ht, Triple.passes_of_match? hm (solutions_grow hs).extends⟩
      · exact ih hs hq

/-- a solution over some facts is a solution over more -/
theorem solutions_mono {data data' : List Triple} (hsub : data ⊆ data') (registry : Registry) (ps : List Triple)
    (b : Bindings) : solutions data registry ps b ⊆ solutions data' registry ps b := by
  induction ps generalizing b with
  | nil =>
    intro s hs
    exact hs
  | cons p ps ih =>
    intro s hs
    cases hg : registry.searched? p.predicate with
    | some g =>
      rw [solutions_cons_builtin hg] at hs ⊢
      obtain ⟨b₁, hb₁, hs⟩ := List.mem_flatMap.1 hs
      obtain ⟨args, ha, hh⟩ := mem_expand.1 hs
      exact List.mem_flatMap.2 ⟨b₁, ih b hb₁, mem_expand.2 ⟨args, attempts_mono hsub g p b₁ ha, hh⟩⟩
    | none =>
      rw [solutions_cons_pattern hg] at hs ⊢
      obtain ⟨b₁, hb₁, hs⟩ := List.mem_flatMap.1 hs
      obtain ⟨t, ht, hm⟩ := List.mem_filterMap.1 hb₁
      exact List.mem_flatMap.2 ⟨b₁, List.mem_filterMap.2 ⟨t, hsub ht, hm⟩, ih b₁ hs⟩

/-! ## Solving is the search -/

theorem mapM_eq_ok {α β ε : Type} {f : α → Except ε β} {g : α → β} {l : List α} (h : ∀ x ∈ l, f x = .ok (g x)) :
    l.mapM f = .ok (l.map g) := by
  induction l with
  | nil => rfl
  | cons x l ih =>
    rw [List.mapM_cons, h x List.mem_cons_self, ih fun y hy => h y (List.mem_cons_of_mem x hy)]
    rfl

/-- solving gives exactly the solutions: a solution of the rest extends the bindings it is combined with -/
theorem solve_eq (data : List Triple) (registry : Registry) (ps : List Triple) {b : Bindings} (hb : b.Distinct) :
    solve data registry ps b = .ok (solutions data registry ps b) := by
  induction ps generalizing b with
  | nil => rfl
  | cons p ps ih =>
    cases hg : registry.searched? p.predicate with
    | some g =>
      rw [solutions_cons_builtin hg]
      simp only [solve, hg, ih hb]
      rfl
    | none =>
      have hrest : ∀ b₁ ∈ data.filterMap (Triple.match? b p),
          (do let rest ← solve data registry ps b₁; rest.mapM (·.combine b₁)) =
            Except.ok (solutions data registry ps b₁) := by
        intro b₁ hb₁
        obtain ⟨t, -, hm⟩ := List.mem_filterMap.1 hb₁
        have hd : b₁.Distinct := (Triple.match?_grows hm).distinct hb
        -- the rest only adds to `b₁`, so there is nothing to disagree about
        have hcombine : (solutions data registry ps b₁).mapM (·.combine b₁) =
            .ok ((solutions data registry ps b₁).map id) :=
          mapM_eq_ok fun s hs => Bindings.combine_of_extends hd (solutions_grow hs).extends
        rw [ih hd]
        simpa [bind, Except.bind] using hcombine
      rw [solutions_cons_pattern hg, List.flatMap_def]
      simp only [solve, hg, mapM_eq_ok hrest]
      rfl

/-! ## Confirming -/

/-- a solution is confirmed when every builtin that a pattern names holds of the pattern's instance -/
theorem confirmed_iff {registry : Registry} {ps : List Triple} {b : Bindings} :
    confirmed registry ps b = true ↔ ∀ q ∈ ps, ∀ g, registry.named? q.predicate = some g →
      g.holds (g.argumentsOf (q.instantiate b)) = true := by
  unfold confirmed
  rw [List.all_eq_true]
  constructor
  · intro h q hq g hg
    exact h ⟨g, g.argumentsOf (q.instantiate b)⟩ (List.mem_filterMap.2 ⟨q, hq, by simp [Call.ofPattern?, hg]⟩)
  · intro h call hcall
    obtain ⟨q, hq, hcall⟩ := List.mem_filterMap.1 hcall
    obtain ⟨g, hg, rfl⟩ := Option.map_eq_some_iff.1 hcall
    exact h q hq g hg

/-! ## Consequences -/

/-- what rules give from a list of facts in one step, under confirmed solutions -/
def consequences (registry : Registry) (rules : List Rule) (data : List Triple) : List Triple :=
  rules.flatMap fun r =>
    ((solutions data registry r.antecedent.triples {}).filter (confirmed registry r.antecedent.triples)).flatMap fun b =>
      r.consequent.triples.map (Triple.instantiate b)

theorem mem_consequences {registry : Registry} {rules : List Rule} {data : List Triple} {t : Triple} :
    t ∈ consequences registry rules data ↔ ∃ r ∈ rules, ∃ b ∈ solutions data registry r.antecedent.triples {},
      confirmed registry r.antecedent.triples b = true ∧ ∃ p ∈ r.consequent.triples, t = p.instantiate b := by
  simp only [consequences, List.mem_flatMap, List.mem_filter, List.mem_map, and_assoc, @eq_comm _ t]

theorem consequences_mono (registry : Registry) {rules rules' : List Rule} {data data' : List Triple}
    (hrules : rules ⊆ rules') (hdata : data ⊆ data') :
    consequences registry rules data ⊆ consequences registry rules' data' := by
  intro t ht
  obtain ⟨r, hr, b, hb, hgiven⟩ := mem_consequences.1 ht
  exact mem_consequences.2 ⟨r, hrules hr, b, solutions_mono hdata registry _ {} hb, hgiven⟩

end N3Rules
