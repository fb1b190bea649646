/-
Builtins wait until all facts are matched, wherever they stand in an antecedent.

- `matchedPatterns`, `calledPatterns`: the patterns that are matched with facts, and those that name a searched builtin;
- `expandAll`: bindings extended by builtin patterns, from the last pattern to the first;
- `solutions_eq_expandAll`: the search does no more than match the former and then ask the latter;
- `solve_deferred`: so does solving, and a builtin pattern may change places with a pattern that is matched.
-/
import N3Rules.Proofs.Solutions

namespace N3Rules

/-- the patterns that are matched with facts, in order -/
def matchedPatterns (registry : Registry) (ps : List Triple) : List Triple :=
  ps.filter fun p => (registry.searched? p.predicate).isNone

/-- the patterns that name a searched builtin, in order, each with its builtin -/
def calledPatterns (registry : Registry) (ps : List Triple) : List (Builtin × Triple) :=
  ps.filterMap fun p => (registry.searched? p.predicate).map fun g => (g, p)

/-- the bindings, each extended in every way in which builtin patterns hold, the last pattern being asked first -/
def expandAll (data : List Triple) (calls : List (Builtin × Triple)) (found : List Bindings) : List Bindings :=
  calls.foldr (fun c found => found.flatMap (expand data c.1 c.2)) found

theorem expandAll_cons (data : List Triple) (c : Builtin × Triple) (calls : List (Builtin × Triple))
    (found : List Bindings) :
    expandAll data (c :: calls) found = (expandAll data calls found).flatMap (expand data c.1 c.2) := rfl

/-- it makes no difference whether lists of bindings are joined before they are extended or after -/
theorem expandAll_flatMap (data : List Triple) (calls : List (Builtin × Triple)) (found : List Bindings)
    (f : Bindings → List Bindings) :
    expandAll data calls (found.flatMap f) = found.flatMap fun b => expandAll data calls (f b) := by
  induction calls with
  | nil => rfl
  | cons c calls ih =>
    simp only [expandAll_cons]
    rw [ih, List.flatMap_assoc]

section Patterns

variable {registry : Registry} {p : Triple}

theorem matchedPatterns_cons_called {g : Builtin} (hg : registry.searched? p.predicate = some g) (ps : List Triple) :
    matchedPatterns registry (p :: ps) = matchedPatterns registry ps := by
  simp [matchedPatterns, hg]

theorem matchedPatterns_cons_matched (hg : registry.searched? p.predicate = none) (ps : List Triple) :
    matchedPatterns registry (p :: ps) = p :: matchedPatterns registry ps := by
  simp [matchedPatterns, hg]

theorem calledPatterns_cons_called {g : Builtin} (hg : registry.searched? p.predicate = some g) (ps : List Triple) :
    calledPatterns registry (p :: ps) = (g, p) :: calledPatterns registry ps := by
  simp [calledPatterns, hg]

theorem calledPatterns_cons_matched (hg : registry.searched? p.predicate = none) (ps : List Triple) :
    calledPatterns registry (p :: ps) = calledPatterns registry ps := by
  simp [calledPatterns, hg]

theorem matchedPatterns_append (registry : Registry) (ps qs : List Triple) :
    matchedPatterns registry (ps ++ qs) = matchedPatterns registry ps ++ matchedPatterns registry qs :=
  List.filter_append ps qs

theorem calledPatterns_append (registry : Registry) (ps qs : List Triple) :
    calledPatterns registry (ps ++ qs) = calledPatterns registry ps ++ calledPatterns registry qs :=
  List.filterMap_append

end Patterns

/-- the search matches what is matched with facts, and then asks the builtins -/
theorem solutions_eq_expandAll (data : List Triple) (registry : Registry) (ps : List Triple) (b : Bindings) :
    solutions data registry ps b =
      expandAll data (calledPatterns registry ps) (solutions data registry (matchedPatterns registry ps) b) := by
  induction ps generalizing b with
  | nil => rfl
  | cons p ps ih =>
    cases hg : registry.searched? p.predicate with
    | some g =>
      rw [solutions_cons_builtin hg, matchedPatterns_cons_called hg, calledPatterns_cons_called hg, expandAll_cons, ih]
    | none =>
      have hbranch : solutions data registry ps = fun b' => expandAll data (calledPatterns registry ps)
          (solutions data registry (matchedPatterns registry ps) b') := funext ih
      -- every branch asks the same builtins, so they may as well be asked after the branches are joined
      rw [solutions_cons_pattern hg, matchedPatterns_cons_matched hg, calledPatterns_cons_matched hg,
        solutions_cons_pattern hg, expandAll_flatMap, hbranch]

theorem solutions_exchange {registry : Registry} {p q : Triple} {g : Builtin}
    (hp : registry.searched? p.predicate = some g) (hq : registry.searched? q.predicate = none)
    (data before after : List Triple) (b : Bindings) :
    solutions data registry (before ++ p :: q :: after) b = solutions data registry (before ++ q :: p :: after) b := by
  have hmatched : matchedPatterns registry (p :: q :: after) = matchedPatterns registry (q :: p :: after) := by
    rw [matchedPatterns_cons_called hp, matchedPatterns_cons_matched hq, matchedPatterns_cons_matched hq,
      matchedPatterns_cons_called hp]
  have hcalled : calledPatterns registry (p :: q :: after) = calledPatterns registry (q :: p :: after) := by
    rw [calledPatterns_cons_called hp, calledPatterns_cons_matched hq, calledPatterns_cons_matched hq,
      calledPatterns_cons_called hp]
  rw [solutions_eq_expandAll data registry (before ++ p :: q :: after),
    solutions_eq_expandAll data registry (before ++ q :: p :: after)]
  simp only [matchedPatterns_append, calledPatterns_append, hmatched, hcalled]

/-- **Deferral.** The solutions of an antecedent are those of the patterns that are matched with facts, extended by the
builtin patterns from the last to the first; so a builtin pattern may stand before or after a pattern that is matched. -/
theorem solve_deferred (data : List Triple) (registry : Registry) {b : Bindings} (hb : b.Distinct) :
    (∀ ps, ∃ found, solve data registry (matchedPatterns registry ps) b = .ok found ∧
      solve data registry ps b = .ok (expandAll data (calledPatterns registry ps) found)) ∧
    ∀ before after p q g, registry.searched? p.predicate = some g → registry.searched? q.predicate = none →
      solve data registry (before ++ p :: q :: after) b = solve data registry (before ++ q :: p :: after) b := by
  constructor
  · intro ps
    refine ⟨solutions data registry (matchedPatterns registry ps) b, solve_eq data registry _ hb, ?_⟩
    rw [solve_eq data registry ps hb, solutions_eq_expandAll]
  · intro before after p q g hp hq
    rw [solve_eq data registry _ hb, solve_eq data registry _ hb, solutions_exchange hp hq]

/-- who knows somebody else: the question whether two are different may be put first, when both are still unknown -/
theorem acquaintances_deferred :
    let data : List Triple := [⟨.iri "ann", .iri "knows", .iri "ann"⟩, ⟨.iri "ann", .iri "knows", .iri "bob"⟩]
    let differ : Triple := ⟨.var "x", .iri (logNamespace ++ "notEqualTo"), .var "y"⟩
    let know : Triple := ⟨.var "x", .iri "knows", .var "y"⟩
    ({} : Bindings).Distinct ∧ solve data {} [differ, know] {} = solve data {} [know, differ] {} ∧
      solve data {} [differ, know] {} = .ok [⟨[("y", .iri "bob"), ("x", .iri "ann")]⟩] := by
  intro data differ know
  obtain ⟨-, hexchange⟩ := solve_deferred data {} Bindings.distinct_empty
  have hp : ({} : Registry).searched? differ.predicate = some (coreBuiltins[1]) := rfl
  have hq : ({} : Registry).searched? know.predicate = none := by decide +kernel
  exact ⟨Bindings.distinct_empty, hexchange [] [] differ know _ hp hq, by decide +kernel⟩

end N3Rules
