/-
Which values solving guesses, and where it takes them from.

An argument of a builtin is guessed when it is a variable to which no pattern before its turn gives a value: none of those
that are matched with facts, none of the builtin patterns further back, and for the object, not the subject. A guess is
whatever stands in the same place in some fact, be the fact like any pattern or not.

- `guessedPlaces`: the places out of which an antecedent guesses values;
- `attempts_grow_guessed`: an attempt at a builtin pattern gives values out of these places only;
- `solutions_grow_from`: the values of a solution come out of facts that match a pattern, or out of guessed places.
-/
import N3Rules.Proofs.Domain
import N3Rules.Proofs.Join

namespace N3Rules

/-! ## Guessed places -/

/-- a place in a triple that an argument of a builtin is guessed from -/
inductive Place where
  | subject
  | object
  deriving DecidableEq, Repr

def Place.of : Place → Triple → Term
  | .subject, t => t.subject
  | .object, t => t.object

/-- whether a term is a variable that is not among those that have a value -/
def Term.isOpen (bound : List String) : Term → Bool
  | .var name => !bound.contains name
  | _ => false

/-- the places that the arguments of a builtin pattern are guessed from, when some variables have a value. The subject has
one when the object's turn comes -/
def Triple.guessedPlaces (g : Builtin) (bound : List String) (p : Triple) : List Place :=
  (if p.subject.isOpen bound then [.subject] else []) ++
    if g.arity = .binary ∧ p.object.isOpen (p.subject.name?.toList ++ bound) then [.object] else []

/-- the places that values are guessed from when patterns are solved. Builtin patterns have their turn when all patterns
that are matched have had theirs, the last one first -/
def guessedPlaces (registry : Registry) : List String → List Triple → List Place
  | _, [] => []
  | bound, p :: ps =>
    match registry.searched? p.predicate with
    | some g => p.guessedPlaces g (boundVariables registry ps ++ bound) ++ guessedPlaces registry bound ps
    | none => guessedPlaces registry (p.outerVariables ++ bound) ps

/-! ## Where values come from -/

theorem Bindings.assume_grows_open {P : Term → Prop} {b : Bindings} {bound : List String}
    (hb : ∀ name ∈ bound, b.Binds name) {t u : Term} {values : List Term} (h : u ∈ choices b t values)
    (hopen : t.isOpen bound = true → ∀ v ∈ values, P v) : Grows P b (b.assume t u) := by
  cases ht : t.isOpen bound with
  | true => exact (Bindings.assume_grows h).mono (hopen ht)
  | false =>
    rw [Bindings.assume_of_binds]
    · exact .refl
    · intro name hname
      refine hb name ?_
      cases t <;> simp_all [Term.isOpen, Term.name?]

/-- an attempt at a builtin pattern gives values out of guessed places only -/
theorem attempts_grow_guessed {P : Term → Prop} {data : List Triple} {g : Builtin} {p : Triple} {b : Bindings}
    {bound : List String} (hb : ∀ name ∈ bound, b.Binds name)
    (hguess : ∀ place ∈ p.guessedPlaces g bound, ∀ t ∈ data, P (place.of t)) {a : List Term × Bindings}
    (h : a ∈ attempts data g p b) : Bindings.Grows P b a.2 := by
  have hvalues : ∀ place ∈ p.guessedPlaces g bound, ∀ v ∈ data.map place.of, P v := by
    intro place hplace v hv
    obtain ⟨t, ht, rfl⟩ := List.mem_map.1 hv
    exact hguess place hplace t ht
  obtain ⟨s, hs, h⟩ := mem_attempts.1 h
  have gs : Bindings.Grows P b (b.assume p.subject s) := by
    refine Bindings.assume_grows_open hb hs ?_
    intro hopen
    exact hvalues .subject (by simp [Triple.guessedPlaces, hopen])
  by_cases hg : g.arity = .binary
  · rw [if_pos hg] at h
    obtain ⟨o, ho, rfl⟩ := h
    have hsubject : ∀ name ∈ p.subject.name?.toList ++ bound, (b.assume p.subject s).Binds name := by
      refine Bindings.binds_append ?_ hb
      intro name
      rw [Bindings.assume_binds, Option.mem_toList]
    refine gs.trans (Bindings.assume_grows_open hsubject ho ?_)
    intro hopen
    exact hvalues .object (by simp [Triple.guessedPlaces, hg, hopen])
  · rw [if_neg hg] at h
    rw [h]
    exact gs

/-- a pattern that matches under some bindings matches under none -/
theorem Triple.match?_empty {b b' : Bindings} {p t : Triple} (h : Triple.match? b p t = some b') :
    (Triple.match? {} p t).isSome = true := by
  have hmatches : Triple.Matches b' p t := (Triple.matches_iff (Triple.match?_grows h).extends p t).2 ⟨b', h, .refl b'⟩
  have hempty : b'.Extends {} := by
    intro name value hv
    cases hv
  obtain ⟨b'', h'', -⟩ := (Triple.matches_iff hempty p t).1 hmatches
  rw [h'']
  rfl

/-- a solution gives values out of facts that match a pattern, and out of guessed places -/
theorem solutions_grow_from {P : Term → Prop} {data : List Triple} {registry : Registry} {ps : List Triple}
    {b s : Bindings} {bound : List String} (hb : ∀ name ∈ bound, b.Binds name)
    (hmatch : ∀ q ∈ ps, registry.searched? q.predicate = none → ∀ t ∈ data,
      (Triple.match? {} q t).isSome = true → ∀ v ∈ t.parts, P v)
    (hguess : ∀ place ∈ guessedPlaces registry bound ps, ∀ t ∈ data, P (place.of t))
    (h : s ∈ solutions data registry ps b) : Bindings.Grows P b s := by
  induction ps generalizing b s bound with
  | nil =>
    rw [List.mem_singleton.1 h]
    exact .refl
  | cons p ps ih =>
    have hrest : ∀ q ∈ ps, registry.searched? q.predicate = none → ∀ t ∈ data,
        (Triple.match? {} q t).isSome = true → ∀ v ∈ t.parts, P v := by
      intro q hq
      exact hmatch q (List.mem_cons_of_mem p hq)
    cases hg : registry.searched? p.predicate with
    | some g =>
      simp only [guessedPlaces, hg, List.mem_append] at hguess
      rw [solutions_cons_builtin hg] at h
      obtain ⟨b₁, hb₁, hs⟩ := List.mem_flatMap.1 h
      obtain ⟨args, ha, -⟩ := mem_expand.1 hs
      have hbound := Bindings.binds_append (solutions_binds hb₁) hb
      have grest := ih hb hrest (fun place hplace => hguess place (Or.inr hplace)) hb₁
      exact grest.trans (attempts_grow_guessed hbound (fun place hplace => hguess place (Or.inl hplace)) ha)
    | none =>
      simp only [guessedPlaces, hg] at hguess
      rw [solutions_cons_pattern hg] at h
      obtain ⟨b₁, hb₁, hs⟩ := List.mem_flatMap.1 h
      obtain ⟨t, ht, hm⟩ := List.mem_filterMap.1 hb₁
      have gmatch := (Triple.match?_grows hm).mono (hmatch p List.mem_cons_self hg t ht (Triple.match?_empty hm))
      have hbound := Bindings.binds_append (Triple.match?_binds hm) hb
      exact gmatch.trans (ih hbound hrest hguess hs)

end N3Rules
