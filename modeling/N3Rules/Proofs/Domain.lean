/-
Which variables a solution gives a value to, and out of what.

A pattern that is matched with facts binds the variables that stand in it outside formulas. A builtin pattern binds the
variables that its builtin reads as arguments, and none inside its arguments. No solution of an antecedent binds more or
fewer variables than another.

- `Term.outerVariables`, `Triple.argumentVariables`, `boundVariables`: the variables that patterns bind;
- `Triple.match?_binds`, `attempts_binds`: what one match, and one attempt at a builtin pattern, binds;
- `solutions_binds`: what a solution binds;
- `solve_shape`: solving ends in no conflict, and every solution extends the bindings from before, binds exactly these
  variables besides, and takes their values out of the facts.
-/
import N3Rules.Proofs.Solutions

namespace N3Rules

/-! ## The variables of patterns -/

mutual

/-- the variables that stand in a term outside formulas -/
def Term.outerVariables : Term → List String
  | .var name => [name]
  | .list items => Term.allOuterVariables items
  | .literal .. | .blank _ | .iri _ | .formula _ => []

/-- the variables that stand in terms outside formulas -/
def Term.allOuterVariables : List Term → List String
  | [] => []
  | t :: ts => t.outerVariables ++ Term.allOuterVariables ts

end

/-- the variables that stand in a pattern outside formulas -/
def Triple.outerVariables (p : Triple) : List String :=
  Term.allOuterVariables p.terms

/-- the variable that a term is -/
def Term.name? : Term → Option String
  | .var name => some name
  | _ => none

/-- the variables that are arguments of a builtin in a pattern, those inside its arguments left out -/
def Triple.argumentVariables (g : Builtin) (p : Triple) : List String :=
  (g.argumentsOf p).filterMap Term.name?

/-- the variables that have a value when a pattern is solved -/
def Triple.boundVariables (registry : Registry) (p : Triple) : List String :=
  match registry.searched? p.predicate with
  | some g => p.argumentVariables g
  | none => p.outerVariables

/-- the variables that have a value when patterns are solved -/
def boundVariables (registry : Registry) (ps : List Triple) : List String :=
  ps.flatMap (Triple.boundVariables registry)

theorem Triple.outerVariables_eq (p : Triple) : p.outerVariables =
    p.subject.outerVariables ++ p.predicate.outerVariables ++ p.object.outerVariables := by
  simp [Triple.outerVariables, Triple.terms, Term.allOuterVariables]

/-- a builtin that is searched for takes one argument or two -/
theorem Registry.arity_of_searched? {registry : Registry} {t : Term} {g : Builtin}
    (h : registry.searched? t = some g) : g.arity = .unary ∨ g.arity = .binary := by
  have hternary := (Option.filter_eq_some_iff.1 h).2
  cases ha : g.arity with
  | unary => exact Or.inl rfl
  | binary => exact Or.inr rfl
  | ternary => simp [ha] at hternary

/-! ## What is bound -/

/-- a variable has a value -/
def Bindings.Binds (b : Bindings) (name : String) : Prop :=
  (b.find? name).isSome = true

theorem Bindings.not_binds {b : Bindings} {name : String} : ¬ b.Binds name ↔ b.find? name = none := by
  simp [Bindings.Binds]

theorem Bindings.binds_of_find? {b : Bindings} {name : String} {value : Term} (h : b.find? name = some value) :
    b.Binds name := by
  simp [Bindings.Binds, h]

theorem Bindings.binds_bind {b : Bindings} {name other : String} {value : Term} :
    (b.bind name value).Binds other ↔ b.Binds other ∨ other = name := by
  unfold Bindings.Binds
  rw [Bindings.find?_bind]
  by_cases ho : other = name <;> simp [ho]

/-- binding or assuming changes nothing where there is a value -/
theorem Bindings.bind_of_binds {b : Bindings} {name : String} (h : b.Binds name) (value : Term) :
    b.bind name value = b := by
  obtain ⟨old, hold⟩ := Option.isSome_iff_exists.1 h
  simp only [Bindings.bind, hold]

theorem Bindings.assume_of_binds {b : Bindings} {t : Term} (h : ∀ name, t.name? = some name → b.Binds name)
    (value : Term) : b.assume t value = b := by
  cases t with
  | var name => exact Bindings.bind_of_binds (h name rfl) value
  | _ => rfl

/-- what bindings bind besides those from before can be counted among the variables that have a value -/
theorem Bindings.binds_append {b b' : Bindings} {names bound : List String}
    (h : ∀ name, b'.Binds name ↔ b.Binds name ∨ name ∈ names) (hb : ∀ name ∈ bound, b.Binds name) :
    ∀ name ∈ names ++ bound, b'.Binds name := by
  intro name hname
  rw [h]
  rcases List.mem_append.1 hname with hname | hname
  · exact Or.inr hname
  · exact Or.inl (hb name hname)

mutual

theorem Term.match?_binds (b : Bindings) (p t : Term) (b' : Bindings) (h : Term.match? b p t = some b')
    (name : String) : b'.Binds name ↔ b.Binds name ∨ name ∈ p.outerVariables := by
  cases p with
  | var bound =>
    simp only [Term.outerVariables, List.mem_singleton]
    simp only [Term.match?] at h
    cases hf : b.find? bound with
    | some value =>
      simp only [hf] at h
      split at h
      · cases h
        have hbound := Bindings.binds_of_find? hf
        constructor
        · exact Or.inl
        · rintro (hb | rfl)
          · exact hb
          · exact hbound
      · cases h
    | none =>
      simp only [hf] at h
      cases h
      exact Bindings.binds_bind
  | list ps =>
    cases t with
    | list ts =>
      simp only [Term.match?] at h
      exact Term.matchAll?_binds b ps ts b' h name
    | _ => simp [Term.match?] at h
  | _ =>
    simp only [Term.match?] at h
    split at h
    · cases h
      simp [Term.outerVariables]
    · cases h

theorem Term.matchAll?_binds (b : Bindings) (ps ts : List Term) (b' : Bindings)
    (h : Term.matchAll? b ps ts = some b') (name : String) :
    b'.Binds name ↔ b.Binds name ∨ name ∈ Term.allOuterVariables ps := by
  cases ps with
  | nil =>
    cases ts with
    | nil =>
      cases h
      simp [Term.allOuterVariables]
    | cons t ts => simp [Term.matchAll?] at h
  | cons p ps =>
    cases ts with
    | nil => simp [Term.matchAll?] at h
    | cons t ts =>
      simp only [Term.matchAll?] at h
      split at h
      · rename_i b₁ h₁
        rw [Term.matchAll?_binds b₁ ps ts b' h name, Term.match?_binds b p t b₁ h₁ name, Term.allOuterVariables,
          List.mem_append, or_assoc]
      · cases h

end

/-- matching binds the variables that stand in the pattern outside formulas -/
theorem Triple.match?_binds {b b' : Bindings} {p t : Triple} (h : Triple.match? b p t = some b') (name : String) :
    b'.Binds name ↔ b.Binds name ∨ name ∈ p.outerVariables := by
  obtain ⟨b₁, b₂, h₁, h₂, h₃⟩ := Triple.match?_eq_some_iff.1 h
  rw [Term.match?_binds _ _ _ _ h₃ name, Term.match?_binds _ _ _ _ h₂ name, Term.match?_binds _ _ _ _ h₁ name,
    Triple.outerVariables_eq, List.mem_append, List.mem_append, or_assoc, or_assoc, or_assoc]

theorem Bindings.assume_binds {b : Bindings} {t u : Term} {name : String} :
    (b.assume t u).Binds name ↔ b.Binds name ∨ t.name? = some name := by
  unfold Bindings.assume
  cases t with
  | var bound => simp [Bindings.binds_bind, Term.name?, eq_comm]
  | _ => simp [Term.name?]

/-- an attempt at a builtin pattern binds the variables that the builtin reads -/
theorem attempts_binds {data : List Triple} {g : Builtin} (hg : g.arity = .unary ∨ g.arity = .binary) {p : Triple}
    {b : Bindings} {a : List Term × Bindings} (h : a ∈ attempts data g p b) (name : String) :
    a.2.Binds name ↔ b.Binds name ∨ name ∈ p.argumentVariables g := by
  obtain ⟨s, -, h⟩ := mem_attempts.1 h
  rcases hg with hg | hg
  · rw [if_neg (by simp [hg])] at h
    subst h
    simp [Triple.argumentVariables, Builtin.argumentsOf, hg, Bindings.assume_binds]
  · rw [if_pos hg] at h
    obtain ⟨o, -, rfl⟩ := h
    simp [Triple.argumentVariables, Builtin.argumentsOf, hg, Bindings.assume_binds, or_assoc]

/-- a solution binds the variables of the bindings from before, and those that the patterns bind -/
theorem solutions_binds {data : List Triple} {registry : Registry} {ps : List Triple} {b s : Bindings}
    (h : s ∈ solutions data registry ps b) (name : String) :
    s.Binds name ↔ b.Binds name ∨ name ∈ boundVariables registry ps := by
  induction ps generalizing b s with
  | nil =>
    rw [List.mem_singleton.1 h]
    simp [boundVariables]
  | cons p ps ih =>
    have hcons : name ∈ boundVariables registry (p :: ps) ↔
        name ∈ p.boundVariables registry ∨ name ∈ boundVariables registry ps := by
      simp [boundVariables]
    rw [hcons]
    cases hg : registry.searched? p.predicate with
    | some g =>
      rw [solutions_cons_builtin hg] at h
      obtain ⟨b₁, hb₁, hs⟩ := List.mem_flatMap.1 h
      obtain ⟨args, ha, -⟩ := mem_expand.1 hs
      rw [attempts_binds (Registry.arity_of_searched? hg) ha, ih hb₁, or_assoc, Triple.boundVariables, hg]
      exact or_congr_right or_comm
    | none =>
      rw [solutions_cons_pattern hg] at h
      obtain ⟨b₁, hb₁, hs⟩ := List.mem_flatMap.1 h
      obtain ⟨t, -, hm⟩ := List.mem_filterMap.1 hb₁
      rw [ih hs, Triple.match?_binds hm, or_assoc, Triple.boundVariables, hg]

/-- **The shape of solutions.** Solving never ends in a conflict. Every solution extends the bindings that it starts from;
it binds their variables and those that the patterns bind, and no others; and what it gives to a variable that had no
value is a term of some fact, or an item of a list in one. -/
theorem solve_shape (data : List Triple) (registry : Registry) (ps : List Triple) {b : Bindings} (hb : b.Distinct) :
    ∃ found, solve data registry ps b = .ok found ∧ ∀ s ∈ found, s.Extends b ∧
      (∀ name, s.Binds name ↔ b.Binds name ∨ name ∈ boundVariables registry ps) ∧
      ∀ name value, ¬ b.Binds name → s.find? name = some value → IsPartOf data value := by
  refine ⟨solutions data registry ps b, solve_eq data registry ps hb, ?_⟩
  intro s hs
  refine ⟨(solutions_grow hs).extends, solutions_binds hs, ?_⟩
  intro name value hn hv
  rw [Bindings.not_binds] at hn
  rcases (solutions_grow hs).find? hv with hold | hpart
  · rw [hn] at hold
    cases hold
  · exact hpart

/-- of an unknown IRI, of what ann is known to know, and of a statement: the builtin of one argument binds its subject and
not its object, the one of two arguments finds both bound, the one of three is matched, and its formula binds nothing -/
theorem known_shape :
    let statement : Term := .formula ⟨[⟨.var "f", .iri "p", .iri "o"⟩], []⟩
    let data : List Triple := [⟨.iri "ann", .iri "knows", .list [.iri "bob", .iri "cy"]⟩,
      ⟨.iri "cy", .iri "states", statement⟩]
    let registry : Registry := ({} : Registry).register ⟨"states", .ternary, none, fun _ => none⟩
    let ps : List Triple := [⟨.var "u", .iri (typeNamespace ++ "isIri"), .var "v"⟩,
      ⟨.var "x", .iri "knows", .list [.var "y", .var "z"]⟩, ⟨.var "y", .iri (logNamespace ++ "notEqualTo"), .var "z"⟩,
      ⟨.var "z", .iri "states", statement⟩]
    let b : Bindings := ⟨[("x", .iri "ann")]⟩
    b.Distinct ∧ ∃ found, solve data registry ps b = .ok found ∧ found.length = 2 ∧
      ∀ s ∈ found, s.Extends b ∧ (∀ name, s.Binds name ↔ name ∈ ["x", "u", "y", "z"]) ∧
        ∀ name value, ¬ b.Binds name → s.find? name = some value → IsPartOf data value := by
  intro statement data registry ps b
  have hb : b.Distinct := List.nodup_singleton "x"
  obtain ⟨found, hfound, hshape⟩ := solve_shape data registry ps hb
  have hlength : (solve data registry ps b).map List.length = .ok 2 := by decide +kernel
  have hbound : boundVariables registry ps = ["u", "x", "y", "z", "y", "z", "z"] := by decide +kernel
  rw [hfound] at hlength
  refine ⟨hb, found, hfound, Except.ok.inj hlength, ?_⟩
  intro s hs
  obtain ⟨hextends, hbinds, hparts⟩ := hshape s hs
  refine ⟨hextends, ?_, hparts⟩
  intro name
  have hinitial : b.Binds name ↔ name = "x" := by
    have hbind : b = ({} : Bindings).bind "x" (.iri "ann") := rfl
    rw [hbind, Bindings.binds_bind, or_iff_right (Bindings.not_binds.2 rfl)]
  rw [hbinds, hinitial, hbound]
  simp only [List.mem_cons, List.not_mem_nil, or_false]
  tauto

end N3Rules
