/-
A builtin whose arguments are bound decides which solutions stay.

Whether an argument is guessed hangs on its instance: values are guessed for it when the instance is a variable. That is so
when a variable has no value; but facts may have variables in them, and a variable may have such a variable as its value.
Then its value is not asked about, and the solution comes back once for every guess that the builtin holds of.

- `trials`: the argument lists that a builtin pattern with bound arguments is tried with;
- `expand_eq_replicate`: bindings come back as often as the builtin holds of these;
- `solve_filter`: what becomes of the solutions of the rest; where no value is a variable, they are filtered;
- `variable_value_guessed`: a value that is a variable keeps and loses solutions that should be lost and kept.
-/
import N3Rules.Proofs.Domain

namespace N3Rules

section Pattern

variable {data : List Triple} {g : Builtin} {p : Triple} {b : Bindings}

/-- the argument lists that a builtin pattern with bound arguments is tried with -/
def trials (data : List Triple) (g : Builtin) (p : Triple) (b : Bindings) : List (List Term) :=
  (choices b p.subject (data.map (·.subject))).flatMap fun s =>
    if g.arity = .binary then (choices b p.object (data.map (·.object))).map fun o => [s, o] else [[s]]

/-- where the arguments are bound, no attempt gives a value to a variable -/
theorem attempts_eq_trials (hg : g.arity = .unary ∨ g.arity = .binary)
    (hb : ∀ name ∈ p.argumentVariables g, b.Binds name) :
    attempts data g p b = (trials data g p b).map fun args => (args, b) := by
  have hsubject : ∀ s, b.assume p.subject s = b := by
    intro s
    refine Bindings.assume_of_binds ?_ s
    intro name hname
    refine hb name (List.mem_filterMap.2 ⟨p.subject, ?_, hname⟩)
    rcases hg with hg | hg <;> simp [Builtin.argumentsOf, hg]
  unfold attempts trials
  rw [List.map_flatMap]
  rcases hg with hg | hg
  · simp [hg, hsubject]
  · have hobject : ∀ o, b.assume p.object o = b := by
      intro o
      refine Bindings.assume_of_binds ?_ o
      intro name hname
      exact hb name (List.mem_filterMap.2 ⟨p.object, by simp [Builtin.argumentsOf, hg], hname⟩)
    simp [hg, hsubject, hobject, Function.comp_def]

/-- bindings with bound arguments come back as they are, once for every list of arguments that the builtin holds of -/
theorem expand_eq_replicate (hg : g.arity = .unary ∨ g.arity = .binary)
    (hb : ∀ name ∈ p.argumentVariables g, b.Binds name) :
    expand data g p b = List.replicate ((trials data g p b).countP g.holds) b := by
  rw [expand, attempts_eq_trials hg hb, List.filter_map, List.map_map, List.countP_eq_length_filter]
  exact List.map_const' ..

theorem choices_of_instance {t : Term} (h : (t.instantiate b).isVariable = false) (values : List Term) :
    choices b t values = [t.instantiate b] := by
  simp [choices, h]

/-- where no instance of an argument is a variable, the builtin is tried with the instances -/
theorem trials_of_instances (hg : g.arity = .unary ∨ g.arity = .binary)
    (h : ∀ t ∈ g.argumentsOf p, (t.instantiate b).isVariable = false) :
    trials data g p b = [g.argumentsOf (p.instantiate b)] := by
  obtain ⟨s, q, o⟩ := p
  rcases hg with hg | hg
  · simp only [Builtin.argumentsOf, hg, List.mem_singleton, forall_eq] at h
    simp [trials, Builtin.argumentsOf, Triple.instantiate, hg, choices_of_instance h]
  · simp only [Builtin.argumentsOf, hg, List.mem_cons, List.not_mem_nil, or_false, forall_eq_or_imp, forall_eq] at h
    simp [trials, Builtin.argumentsOf, Triple.instantiate, hg, choices_of_instance h.1, choices_of_instance h.2]

/-- an argument has an instance other than a variable, if it is not a variable, or one whose value is none -/
theorem instances_of_values (hb : ∀ name ∈ p.argumentVariables g, b.Binds name)
    (hv : ∀ name ∈ p.argumentVariables g, ∀ value, b.find? name = some value → value.isVariable = false) :
    ∀ t ∈ g.argumentsOf p, (t.instantiate b).isVariable = false := by
  intro t ht
  cases t with
  | var name =>
    have hname : name ∈ p.argumentVariables g := List.mem_filterMap.2 ⟨.var name, ht, rfl⟩
    obtain ⟨value, hvalue⟩ := Option.isSome_iff_exists.1 (hb name hname)
    simp [Term.instantiate, hvalue, hv name hname value hvalue]
  | _ => rfl

end Pattern

theorem flatMap_replicate_eq_filter {α : Type} {l : List α} {P : α → Bool} {n : α → Nat}
    (h : ∀ x ∈ l, n x = if P x then 1 else 0) : (l.flatMap fun x => List.replicate (n x) x) = l.filter P := by
  induction l with
  | nil => rfl
  | cons x l ih =>
    rw [List.flatMap_cons, ih fun y hy => h y (List.mem_cons_of_mem x hy), h x List.mem_cons_self]
    cases hx : P x <;> simp [hx]

/-- **Filtering.** A builtin pattern is put in front of patterns all of whose solutions bind its arguments. Each of these
solutions then comes back, in order, as often as the builtin holds of the arguments it is tried with. Where no argument has
a variable as its value, these are the solutions that the builtin holds of, once each; and so it always is, where no term of
a fact and no item of a list in one is a variable. -/
theorem solve_filter {registry : Registry} {g : Builtin} {p : Triple} (hg : registry.searched? p.predicate = some g)
    {data rest : List Triple} {found : List Bindings} (hrest : solve data registry rest {} = .ok found)
    (hbound : ∀ m ∈ found, ∀ name ∈ p.argumentVariables g, m.Binds name) :
    solve data registry (p :: rest) {} =
        .ok (found.flatMap fun m => List.replicate ((trials data g p m).countP g.holds) m) ∧
      ((∀ m ∈ found, ∀ name ∈ p.argumentVariables g, ∀ value, m.find? name = some value → value.isVariable = false) →
        solve data registry (p :: rest) {} = .ok (found.filter fun m => g.holds (g.argumentsOf (p.instantiate m)))) ∧
      ((∀ value, IsPartOf data value → value.isVariable = false) →
        solve data registry (p :: rest) {} = .ok (found.filter fun m => g.holds (g.argumentsOf (p.instantiate m)))) := by
  have harity := Registry.arity_of_searched? hg
  rw [solve_eq data registry rest Bindings.distinct_empty] at hrest
  cases hrest
  have hexact : solve data registry (p :: rest) {} = .ok ((solutions data registry rest {}).flatMap fun m =>
      List.replicate ((trials data g p m).countP g.holds) m) := by
    rw [solve_eq data registry _ Bindings.distinct_empty, solutions_cons_builtin hg, List.flatMap_def, List.flatMap_def,
      List.map_congr_left fun m hm => expand_eq_replicate harity (hbound m hm)]
  have hfilter (hv : ∀ m ∈ solutions data registry rest {}, ∀ name ∈ p.argumentVariables g, ∀ value,
      m.find? name = some value → value.isVariable = false) : solve data registry (p :: rest) {} =
        .ok ((solutions data registry rest {}).filter fun m => g.holds (g.argumentsOf (p.instantiate m))) := by
    rw [hexact]
    refine congrArg Except.ok (flatMap_replicate_eq_filter ?_)
    intro m hm
    rw [trials_of_instances harity (instances_of_values (hbound m hm) (hv m hm)), List.countP_singleton]
  refine ⟨hexact, hfilter, ?_⟩
  intro hdata
  refine hfilter ?_
  intro m hm name _ value hvalue
  rcases (solutions_grow hm).find? hvalue with hempty | hpart
  · cases hempty
  · exact hdata value hpart

/-- of those whom ann knows, everybody but herself is kept -/
theorem others_filtered :
    let data : List Triple := [⟨.iri "ann", .iri "knows", .iri "ann"⟩, ⟨.iri "ann", .iri "knows", .iri "bob"⟩]
    let differ : Triple := ⟨.var "x", .iri (logNamespace ++ "notEqualTo"), .var "y"⟩
    let rest : List Triple := [⟨.var "x", .iri "knows", .var "y"⟩]
    let ann : Bindings := ⟨[("y", .iri "ann"), ("x", .iri "ann")]⟩
    let bob : Bindings := ⟨[("y", .iri "bob"), ("x", .iri "ann")]⟩
    ({} : Registry).searched? differ.predicate = some (coreBuiltins[1]) ∧ solve data {} rest {} = .ok [ann, bob] ∧
      (∀ m ∈ [ann, bob], ∀ name ∈ differ.argumentVariables (coreBuiltins[1]), m.Binds name) ∧
      (∀ m ∈ [ann, bob], ∀ name ∈ differ.argumentVariables (coreBuiltins[1]), ∀ value,
        m.find? name = some value → value.isVariable = false) ∧
      (∀ value, IsPartOf data value → value.isVariable = false) ∧ solve data {} (differ :: rest) {} = .ok [bob] := by
  intro data differ rest ann bob
  have hg : ({} : Registry).searched? differ.predicate = some (coreBuiltins[1]) := rfl
  have hrest : solve data {} rest {} = .ok [ann, bob] := by decide +kernel
  have hvariables : differ.argumentVariables (coreBuiltins[1]) = ["x", "y"] := rfl
  have hx : ann.find? "x" = some (.iri "ann") ∧ bob.find? "x" = some (.iri "ann") := ⟨rfl, rfl⟩
  have hy : ann.find? "y" = some (.iri "ann") ∧ bob.find? "y" = some (.iri "bob") := ⟨rfl, rfl⟩
  have hbound : ∀ m ∈ [ann, bob], ∀ name ∈ differ.argumentVariables (coreBuiltins[1]), m.Binds name := by
    rw [hvariables]
    simp [Bindings.Binds, hx, hy]
  have hvalues : ∀ m ∈ [ann, bob], ∀ name ∈ differ.argumentVariables (coreBuiltins[1]), ∀ value,
      m.find? name = some value → value.isVariable = false := by
    rw [hvariables]
    simp [hx, hy, Term.isVariable]
  have hparts : ∀ t ∈ data, ∀ v ∈ t.parts, v.isVariable = false := by decide +kernel
  have hfacts : ∀ value, IsPartOf data value → value.isVariable = false := by
    rintro value ⟨t, ht, hv⟩
    exact hparts t ht value hv
  obtain ⟨-, hfilter, -⟩ := solve_filter hg hrest hbound
  refine ⟨hg, hrest, hbound, hvalues, hfacts, ?_⟩
  rw [hfilter hvalues]
  decide +kernel

/-- a variable whose value is a variable: a solution is kept that the builtin does not hold of, since it holds of the subject
of another fact; and a solution is lost that it holds of, since it does not hold of the subject of its fact -/
theorem variable_value_guessed :
    let value : Bindings := ⟨[("x", .var "y")]⟩
    let data : List Triple := [⟨.var "y", .iri "p", .iri "o"⟩, ⟨.iri "a", .iri "q", .iri "o"⟩]
    let rest : List Triple := [⟨.var "x", .iri "p", .iri "o"⟩]
    let isIri : Triple := ⟨.var "x", .iri (typeNamespace ++ "isIri"), .var "x"⟩
    let data' : List Triple := [⟨.iri "a", .iri "p", .var "y"⟩]
    let rest' : List Triple := [⟨.iri "a", .iri "p", .var "x"⟩]
    let equal : Triple := ⟨.var "x", .iri (logNamespace ++ "equalTo"), .var "x"⟩
    (solve data {} rest {} = .ok [value] ∧ confirmed {} [isIri] value = false ∧
        solve data {} (isIri :: rest) {} = .ok [value]) ∧
      solve data' {} rest' {} = .ok [value] ∧ confirmed {} [equal] value = true ∧
        solve data' {} (equal :: rest') {} = .ok [] := by
  decide +kernel

end N3Rules
