/-
What matching and instantiating do to bindings and terms.

- `Term.parts`: a term and, if it is a list, the parts of its items; `Triple.parts`: the parts of its three terms;
- `Triple.isGround_of_mem_parts`: no variable occurs in the parts of a ground fact;
- `Triple.match?_grows`: matching gives parts of the fact to variables, and nothing else;
- `Triple.passes_of_match?`: a match succeeds again, and gives nothing, under all bindings that extend its result;
- `Triple.instantiate_of_isGround`: instantiating changes nothing where there is no variable.
-/
import N3Rules.Match
import N3Rules.Proofs.Bindings

namespace N3Rules

/-! ## Parts -/

mutual

/-- the term, and if it is a list all parts of its items -/
def Term.parts : Term → List Term
  | .list items => .list items :: Term.allParts items
  | .var name => [.var name]
  | .literal value datatype language => [.literal value datatype language]
  | .blank id => [.blank id]
  | .iri value => [.iri value]
  | .formula body => [.formula body]

/-- the parts of the terms -/
def Term.allParts : List Term → List Term
  | [] => []
  | t :: ts => t.parts ++ Term.allParts ts

end

theorem Term.mem_parts_self (t : Term) : t ∈ t.parts := by
  cases t <;> simp [Term.parts]

theorem Term.mem_allParts {u : Term} {ts : List Term} : u ∈ Term.allParts ts ↔ ∃ t ∈ ts, u ∈ t.parts := by
  induction ts with
  | nil => simp [Term.allParts]
  | cons t ts ih => simp [Term.allParts, ih]

mutual

theorem Term.parts_trans (t u v : Term) (hu : u ∈ t.parts) (hv : v ∈ u.parts) : v ∈ t.parts := by
  cases t with
  | list items =>
    rcases List.mem_cons.1 hu with rfl | hu
    · exact hv
    · exact List.mem_cons_of_mem _ (Term.allParts_trans items u v hu hv)
  | _ =>
    simp only [Term.parts, List.mem_singleton] at hu
    subst hu
    exact hv

theorem Term.allParts_trans (ts : List Term) (u v : Term) (hu : u ∈ Term.allParts ts) (hv : v ∈ u.parts) :
    v ∈ Term.allParts ts := by
  cases ts with
  | nil => cases hu
  | cons t ts =>
    rcases List.mem_append.1 hu with hu | hu
    · exact List.mem_append_left _ (Term.parts_trans t u v hu hv)
    · exact List.mem_append_right _ (Term.allParts_trans ts u v hu hv)

end

/-- the terms of a triple -/
def Triple.terms (t : Triple) : List Term :=
  [t.subject, t.predicate, t.object]

/-- the parts of the terms of a triple -/
def Triple.parts (t : Triple) : List Term :=
  Term.allParts t.terms

theorem Triple.mem_parts_of_term {t : Triple} {u v : Term} (hu : u ∈ t.terms) (hv : v ∈ u.parts) : v ∈ t.parts :=
  Term.mem_allParts.2 ⟨u, hu, hv⟩

/-! ## Groundness of parts -/

theorem Triple.isGround_iff {t : Triple} : t.isGround = true ↔ ∀ u ∈ t.terms, u.isGround = true := by
  obtain ⟨s, q, o⟩ := t
  simp [Triple.isGround, Triple.terms, and_assoc]

mutual

theorem Term.isGround_of_mem_parts (t v : Term) (ht : t.isGround = true) (hv : v ∈ t.parts) : v.isGround = true := by
  cases t with
  | list items =>
    rcases List.mem_cons.1 hv with rfl | hv
    · exact ht
    · exact Term.isGround_of_mem_allParts items v ht hv
  | _ =>
    rw [Term.parts, List.mem_singleton] at hv
    rw [hv]
    exact ht

theorem Term.isGround_of_mem_allParts (ts : List Term) (v : Term) (ht : Term.allGround ts = true)
    (hv : v ∈ Term.allParts ts) : v.isGround = true := by
  cases ts with
  | nil => cases hv
  | cons t ts =>
    rw [Term.allGround, Bool.and_eq_true] at ht
    rcases List.mem_append.1 hv with hv | hv
    · exact Term.isGround_of_mem_parts t v ht.1 hv
    · exact Term.isGround_of_mem_allParts ts v ht.2 hv

end

/-- no variable occurs in the parts of a ground fact -/
theorem Triple.isGround_of_mem_parts {t : Triple} (ht : t.isGround = true) {v : Term} (hv : v ∈ t.parts) :
    v.isGround = true := by
  obtain ⟨u, hu, hv⟩ := Term.mem_allParts.1 hv
  exact Term.isGround_of_mem_parts u v (Triple.isGround_iff.1 ht u hu) hv

/-! ## Matching gives parts of the fact to variables -/

mutual

theorem Term.match?_grows (b : Bindings) (p t : Term) (b' : Bindings) (h : Term.match? b p t = some b') :
    Bindings.Grows (· ∈ t.parts) b b' := by
  cases p with
  | var name =>
    simp only [Term.match?] at h
    cases hf : b.find? name with
    | some value =>
      simp only [hf] at h
      split at h
      · cases h
        exact .refl
      · cases h
    | none =>
      simp only [hf] at h
      cases h
      exact Bindings.Grows.refl.bind hf t.mem_parts_self
  | list ps =>
    cases t with
    | list ts =>
      simp only [Term.match?] at h
      refine (Term.matchAll?_grows b ps ts b' h).mono ?_
      intro u hu
      exact List.mem_cons_of_mem _ hu
    | _ => simp [Term.match?] at h
  | _ =>
    simp only [Term.match?] at h
    split at h
    · cases h
      exact .refl
    · cases h

theorem Term.matchAll?_grows (b : Bindings) (ps ts : List Term) (b' : Bindings)
    (h : Term.matchAll? b ps ts = some b') : Bindings.Grows (· ∈ Term.allParts ts) b b' := by
  cases ps with
  | nil =>
    cases ts with
    | nil => cases h; exact .refl
    | cons t ts => simp [Term.matchAll?] at h
  | cons p ps =>
    cases ts with
    | nil => simp [Term.matchAll?] at h
    | cons t ts =>
      simp only [Term.matchAll?] at h
      split at h
      · rename_i b₁ h₁
        have g₁ := (Term.match?_grows b p t b₁ h₁).mono fun u hu => List.mem_append_left (Term.allParts ts) hu
        have g₂ := (Term.matchAll?_grows b₁ ps ts b' h).mono fun u hu => List.mem_append_right t.parts hu
        exact g₁.trans g₂
      · cases h

end

mutual

theorem Term.match?_stable (b : Bindings) (p t : Term) (b' b'' : Bindings) (h : Term.match? b p t = some b')
    (he : b''.Extends b') : Term.match? b'' p t = some b'' := by
  cases p with
  | var name =>
    have hv : b''.find? name = some t := by
      apply he
      simp only [Term.match?] at h
      split at h
      · rename_i value hf
        split at h
        · rename_i hvt
          cases h
          rw [hf, hvt]
        · cases h
      · rename_i hf
        cases h
        simp [Bindings.find?_bind, hf]
    simp [Term.match?, hv]
  | list ps =>
    cases t with
    | list ts =>
      simp only [Term.match?] at h ⊢
      exact Term.matchAll?_stable b ps ts b' b'' h he
    | _ => simp [Term.match?] at h
  | _ =>
    simp only [Term.match?] at h ⊢
    split at h
    · rename_i hpt
      simp [hpt]
    · cases h

theorem Term.matchAll?_stable (b : Bindings) (ps ts : List Term) (b' b'' : Bindings)
    (h : Term.matchAll? b ps ts = some b') (he : b''.Extends b') : Term.matchAll? b'' ps ts = some b'' := by
  cases ps with
  | nil =>
    cases ts with
    | nil => rfl
    | cons t ts => simp [Term.matchAll?] at h
  | cons p ps =>
    cases ts with
    | nil => simp [Term.matchAll?] at h
    | cons t ts =>
      simp only [Term.matchAll?] at h
      split at h
      · rename_i b₁ h₁
        have he₁ : b''.Extends b₁ := he.trans (Term.matchAll?_grows b₁ ps ts b' h).extends
        have hp := Term.match?_stable b p t b₁ b'' h₁ he₁
        have hps := Term.matchAll?_stable b₁ ps ts b' b'' h he
        simp only [Term.matchAll?, hp, hps]
      · cases h

end

theorem Triple.match?_eq_some_iff {b b' : Bindings} {p t : Triple} :
    Triple.match? b p t = some b' ↔ ∃ b₁ b₂, Term.match? b p.subject t.subject = some b₁ ∧
      Term.match? b₁ p.predicate t.predicate = some b₂ ∧ Term.match? b₂ p.object t.object = some b' := by
  simp [Triple.match?, Option.bind_eq_some_iff]

/-- matching gives parts of the fact to variables that have no value -/
theorem Triple.match?_grows {b b' : Bindings} {p t : Triple} (h : Triple.match? b p t = some b') :
    Bindings.Grows (· ∈ t.parts) b b' := by
  obtain ⟨b₁, b₂, h₁, h₂, h₃⟩ := Triple.match?_eq_some_iff.1 h
  have g₁ := (Term.match?_grows _ _ _ _ h₁).mono fun u hu => t.mem_parts_of_term (by simp [Triple.terms]) hu
  have g₂ := (Term.match?_grows _ _ _ _ h₂).mono fun u hu => t.mem_parts_of_term (by simp [Triple.terms]) hu
  have g₃ := (Term.match?_grows _ _ _ _ h₃).mono fun u hu => t.mem_parts_of_term (by simp [Triple.terms]) hu
  exact (g₁.trans g₂).trans g₃

/-- a triple passes a pattern under bindings: its three terms match, and no variable gets a value -/
structure Triple.Passes (b : Bindings) (p t : Triple) : Prop where
  subject : Term.match? b p.subject t.subject = some b
  predicate : Term.match? b p.predicate t.predicate = some b
  object : Term.match? b p.object t.object = some b

/-- after a match, the triple passes under all bindings that extend the result -/
theorem Triple.passes_of_match? {b b' b'' : Bindings} {p t : Triple} (h : Triple.match? b p t = some b')
    (he : b''.Extends b') : Triple.Passes b'' p t := by
  obtain ⟨b₁, b₂, h₁, h₂, h₃⟩ := Triple.match?_eq_some_iff.1 h
  have he₂ : b''.Extends b₂ := he.trans (Term.match?_grows _ _ _ _ h₃).extends
  have he₁ : b''.Extends b₁ := he₂.trans (Term.match?_grows _ _ _ _ h₂).extends
  exact ⟨Term.match?_stable _ _ _ _ _ h₁ he₁, Term.match?_stable _ _ _ _ _ h₂ he₂, Term.match?_stable _ _ _ _ _ h₃ he⟩

theorem Triple.Passes.mono {b b' : Bindings} {p t : Triple} (h : Triple.Passes b p t) (he : b'.Extends b) :
    Triple.Passes b' p t :=
  ⟨Term.match?_stable _ _ _ _ _ h.subject he, Term.match?_stable _ _ _ _ _ h.predicate he,
    Term.match?_stable _ _ _ _ _ h.object he⟩

/-! ## Instantiating where there is no variable -/

mutual

theorem Term.instantiate_of_isGround (b : Bindings) (t : Term) (h : t.isGround = true) : t.instantiate b = t := by
  cases t with
  | var name => simp [Term.isGround] at h
  | list items =>
    simp only [Term.isGround] at h
    simp only [Term.instantiate, Term.instantiateAll_of_allGround b items h]
  | formula body =>
    simp only [Term.isGround] at h
    simp only [Term.instantiate, Formula.instantiate_of_isGround b body h]
  | _ => rfl

theorem Term.instantiateAll_of_allGround (b : Bindings) (ts : List Term) (h : Term.allGround ts = true) :
    Term.instantiateAll b ts = ts := by
  cases ts with
  | nil => rfl
  | cons t ts =>
    simp only [Term.allGround, Bool.and_eq_true] at h
    simp only [Term.instantiateAll, Term.instantiate_of_isGround b t h.1, Term.instantiateAll_of_allGround b ts h.2]

theorem Triple.instantiate_of_isGround (b : Bindings) (t : Triple) (h : t.isGround = true) :
    t.instantiate b = t := by
  obtain ⟨s, p, o⟩ := t
  simp only [Triple.isGround, Bool.and_eq_true] at h
  simp only [Triple.instantiate, Term.instantiate_of_isGround b s h.1.1, Term.instantiate_of_isGround b p h.1.2,
    Term.instantiate_of_isGround b o h.2]

theorem Triple.instantiateAll_of_allGround (b : Bindings) (ts : List Triple) (h : Triple.allGround ts = true) :
    Triple.instantiateAll b ts = ts := by
  cases ts with
  | nil => rfl
  | cons t ts =>
    simp only [Triple.allGround, Bool.and_eq_true] at h
    simp only [Triple.instantiateAll, Triple.instantiate_of_isGround b t h.1,
      Triple.instantiateAll_of_allGround b ts h.2]

theorem Formula.instantiate_of_isGround (b : Bindings) (f : Formula) (h : f.isGround = true) :
    f.instantiate b = f := by
  obtain ⟨triples, quantifiers⟩ := f
  simp only [Formula.isGround] at h
  simp only [Formula.instantiate, Triple.instantiateAll_of_allGround b triples h]

end

end N3Rules
