/-
Without builtins, solving is a join of the facts.

The solutions come in the lexicographic order of the places of the facts that the patterns match at, one solution for
each list of places at which any bindings make the patterns match, and the solution is the least of these bindings.

- `Term.value?`: what a pattern becomes when every variable outside formulas is replaced by its value;
- `Term.value?_eq_some_iff`: matching gives the least bindings under which the value of a pattern is a given term;
- `MatchesAt`: bindings under which patterns match the facts at given places;
- `matchAt?`, `matchAt?_spec`: the least of these, by matching at one place after another;
- `trails`: all places at which that works, in the order of the search;
- `solve_join`: solving gives the least bindings for these places, in their order.
-/
import N3Rules.Proofs.Solutions

namespace N3Rules

/-! ## The value of a pattern -/

mutual

/-- the term with every variable outside formulas replaced by its value, or none if one of them has no value -/
def Term.value? (b : Bindings) : Term → Option Term
  | .var name => b.find? name
  | .list items => (Term.allValues? b items).map .list
  | .literal value datatype language => some (.literal value datatype language)
  | .blank id => some (.blank id)
  | .iri value => some (.iri value)
  | .formula body => some (.formula body)

/-- the values of the terms, if all of them have one -/
def Term.allValues? (b : Bindings) : List Term → Option (List Term)
  | [] => some []
  | t :: ts =>
    match Term.value? b t, Term.allValues? b ts with
    | some u, some us => some (u :: us)
    | _, _ => none

end

/-- a pattern matches a fact under bindings when its value is the fact -/
structure Triple.Matches (b : Bindings) (p t : Triple) : Prop where
  subject : Term.value? b p.subject = some t.subject
  predicate : Term.value? b p.predicate = some t.predicate
  object : Term.value? b p.object = some t.object

/-! ## Matching is most general -/

theorem Bindings.extends_bind_iff {m b : Bindings} {name : String} {value : Term} (hf : b.find? name = none) :
    m.Extends (b.bind name value) ↔ m.Extends b ∧ m.find? name = some value := by
  constructor
  · intro h
    refine ⟨h.trans (Bindings.extends_bind hf value), h name value ?_⟩
    simp [Bindings.find?_bind, hf]
  · rintro ⟨h, hv⟩ other u hu
    rw [Bindings.find?_bind] at hu
    by_cases ho : other = name
    · rw [if_pos ho, hf] at hu
      cases hu
      rw [ho]
      exact hv
    · rw [if_neg ho] at hu
      exact h other u hu

mutual

/-- bindings that extend `b` give a pattern the value `t` exactly when they extend what matching the two gives -/
theorem Term.value?_eq_some_iff {m b : Bindings} (hm : m.Extends b) (p t : Term) :
    Term.value? m p = some t ↔ ∃ b', Term.match? b p t = some b' ∧ m.Extends b' := by
  cases p with
  | var name =>
    simp only [Term.value?, Term.match?]
    cases hf : b.find? name with
    | some value =>
      rw [hm name value hf]
      by_cases hv : value = t
      · simp [hv, hm]
      · simp [hv]
    | none => simp [Bindings.extends_bind_iff hf, hm]
  | list ps =>
    cases t with
    | list ts =>
      simp only [Term.value?, Term.match?, Option.map_eq_some_iff, Term.list.injEq, exists_eq_right]
      exact Term.allValues?_eq_some_iff hm ps ts
    | _ => simp [Term.value?, Term.match?]
  | _ => simp [Term.value?, Term.match?, hm]

theorem Term.allValues?_eq_some_iff {m b : Bindings} (hm : m.Extends b) (ps ts : List Term) :
    Term.allValues? m ps = some ts ↔ ∃ b', Term.matchAll? b ps ts = some b' ∧ m.Extends b' := by
  cases ps with
  | nil => cases ts <;> simp [Term.allValues?, Term.matchAll?, hm]
  | cons p ps =>
    cases ts with
    | nil =>
      simp only [Term.allValues?, Term.matchAll?]
      split <;> simp
    | cons t ts =>
      have hcons : Term.allValues? m (p :: ps) = some (t :: ts) ↔
          Term.value? m p = some t ∧ Term.allValues? m ps = some ts := by
        simp only [Term.allValues?]
        split
        · simp_all
        · rename_i h
          simp only [reduceCtorEq, false_iff, not_and]
          intro hp hps
          exact h t ts hp hps
      rw [hcons, Term.value?_eq_some_iff hm p t]
      simp only [Term.matchAll?]
      constructor
      · rintro ⟨⟨b₁, h₁, he₁⟩, hps⟩
        obtain ⟨b₂, h₂, he₂⟩ := (Term.allValues?_eq_some_iff he₁ ps ts).1 hps
        exact ⟨b₂, by rw [h₁]; exact h₂, he₂⟩
      · rintro ⟨b₂, h₂, he₂⟩
        cases h₁ : Term.match? b p t with
        | none => simp [h₁] at h₂
        | some b₁ =>
          rw [h₁] at h₂
          have he₁ : m.Extends b₁ := he₂.trans (Term.matchAll?_grows b₁ ps ts b₂ h₂).extends
          exact ⟨⟨b₁, rfl, he₁⟩, (Term.allValues?_eq_some_iff he₁ ps ts).2 ⟨b₂, h₂, he₂⟩⟩

end

/-- bindings that extend `b` make a pattern match a fact exactly when they extend what matching the two gives -/
theorem Triple.matches_iff {m b : Bindings} (hm : m.Extends b) (p t : Triple) :
    Triple.Matches m p t ↔ ∃ b', Triple.match? b p t = some b' ∧ m.Extends b' := by
  constructor
  · intro h
    obtain ⟨b₁, h₁, he₁⟩ := (Term.value?_eq_some_iff hm _ _).1 h.subject
    obtain ⟨b₂, h₂, he₂⟩ := (Term.value?_eq_some_iff he₁ _ _).1 h.predicate
    obtain ⟨b₃, h₃, he₃⟩ := (Term.value?_eq_some_iff he₂ _ _).1 h.object
    exact ⟨b₃, Triple.match?_eq_some_iff.2 ⟨b₁, b₂, h₁, h₂, h₃⟩, he₃⟩
  · rintro ⟨b₃, h, he₃⟩
    obtain ⟨b₁, b₂, h₁, h₂, h₃⟩ := Triple.match?_eq_some_iff.1 h
    have he₂ : m.Extends b₂ := he₃.trans (Term.match?_grows _ _ _ _ h₃).extends
    have he₁ : m.Extends b₁ := he₂.trans (Term.match?_grows _ _ _ _ h₂).extends
    exact ⟨(Term.value?_eq_some_iff hm _ _).2 ⟨b₁, h₁, he₁⟩, (Term.value?_eq_some_iff he₁ _ _).2 ⟨b₂, h₂, he₂⟩,
      (Term.value?_eq_some_iff he₂ _ _).2 ⟨b₃, h₃, he₃⟩⟩

/-! ## Matching at places -/

/-- under bindings, each pattern matches the fact at its place -/
def MatchesAt (data : List Triple) (m : Bindings) (ps : List Triple) (places : List Nat) : Prop :=
  List.Forall₂ (fun p i => ∃ t, data[i]? = some t ∧ Triple.Matches m p t) ps places

/-- the bindings, extended by matching each pattern with the fact at its place -/
def matchAt? (data : List Triple) : Bindings → List Triple → List Nat → Option Bindings
  | b, [], [] => some b
  | b, p :: ps, i :: is => data[i]?.bind fun t => (Triple.match? b p t).bind fun b' => matchAt? data b' ps is
  | _, _, _ => none

theorem matchAt?_cons_eq_some_iff {data : List Triple} {b s : Bindings} {p : Triple} {ps : List Triple} {i : Nat}
    {is : List Nat} : matchAt? data b (p :: ps) (i :: is) = some s ↔
      ∃ t, data[i]? = some t ∧ ∃ b', Triple.match? b p t = some b' ∧ matchAt? data b' ps is = some s := by
  simp [matchAt?, Option.bind_eq_some_iff]

theorem matchAt?_grows {data : List Triple} {b s : Bindings} {ps : List Triple} {is : List Nat}
    (h : matchAt? data b ps is = some s) : Bindings.Grows (fun _ => True) b s := by
  induction ps generalizing b is with
  | nil =>
    cases is with
    | nil => cases h; exact .refl
    | cons i is => simp [matchAt?] at h
  | cons p ps ih =>
    cases is with
    | nil => simp [matchAt?] at h
    | cons i is =>
      obtain ⟨t, -, b', hp, hps⟩ := matchAt?_cons_eq_some_iff.1 h
      exact ((Triple.match?_grows hp).mono fun _ _ => trivial).trans (ih hps)

/-- bindings that extend `b` make patterns match at places exactly when they extend what matching there gives -/
theorem matchesAt_iff {data : List Triple} {m b : Bindings} (hm : m.Extends b) (ps : List Triple) (is : List Nat) :
    MatchesAt data m ps is ↔ ∃ s, matchAt? data b ps is = some s ∧ m.Extends s := by
  induction ps generalizing b is with
  | nil => cases is <;> simp [MatchesAt, matchAt?, hm]
  | cons p ps ih =>
    cases is with
    | nil => simp [MatchesAt, matchAt?]
    | cons i is =>
      unfold MatchesAt
      rw [List.forall₂_cons]
      constructor
      · rintro ⟨⟨t, ht, hp⟩, hps⟩
        obtain ⟨b', hb', he'⟩ := (Triple.matches_iff hm p t).1 hp
        obtain ⟨s, hs, hes⟩ := (ih he' is).1 hps
        exact ⟨s, matchAt?_cons_eq_some_iff.2 ⟨t, ht, b', hb', hs⟩, hes⟩
      · rintro ⟨s, hs, hes⟩
        obtain ⟨t, ht, b', hb', hrest⟩ := matchAt?_cons_eq_some_iff.1 hs
        have he' : m.Extends b' := hes.trans (matchAt?_grows hrest).extends
        exact ⟨⟨t, ht, (Triple.matches_iff hm p t).2 ⟨b', hb', he'⟩⟩, (ih he' is).2 ⟨s, hrest, hes⟩⟩

/-- `m` is the least map that extends `b` and under which patterns match at places -/
structure IsLeastMatch (data : List Triple) (b : Bindings) (ps : List Triple) (places : List Nat) (m : Bindings) :
    Prop where
  distinct : m.Distinct
  extends_initial : m.Extends b
  matchesAt : MatchesAt data m ps places
  least : ∀ m', m'.Extends b → MatchesAt data m' ps places → m'.Extends m

theorem matchAt?_spec {data : List Triple} {b s : Bindings} {ps : List Triple} {is : List Nat} (hb : b.Distinct)
    (h : matchAt? data b ps is = some s) : IsLeastMatch data b ps is s := by
  have hgrows := matchAt?_grows h
  refine ⟨hgrows.distinct hb, hgrows.extends, ?_, ?_⟩
  · exact (matchesAt_iff hgrows.extends ps is).2 ⟨s, h, .refl s⟩
  · intro m' hm' hmatches
    obtain ⟨s', hs', he⟩ := (matchesAt_iff hm' ps is).1 hmatches
    rw [h] at hs'
    cases hs'
    exact he

/-! ## The search, with places -/

/-- the places at which patterns match one after another, with the bindings that this gives, in the order of the
search -/
def trails (data : List Triple) : List Triple → Bindings → List (List Nat × Bindings)
  | [], b => [([], b)]
  | p :: ps, b => data.zipIdx.flatMap fun f =>
      ((Triple.match? b p f.1).toList.flatMap (trails data ps)).map fun r => (f.2 :: r.1, r.2)

theorem mem_trails {data : List Triple} {ps : List Triple} {b s : Bindings} {is : List Nat} :
    (is, s) ∈ trails data ps b ↔ matchAt? data b ps is = some s := by
  induction ps generalizing b is with
  | nil => cases is <;> simp [trails, matchAt?, eq_comm]
  | cons p ps ih =>
    cases is with
    | nil => simp [trails, matchAt?]
    | cons i is =>
      rw [matchAt?_cons_eq_some_iff]
      simp only [trails, List.mem_flatMap, List.mem_map, Option.mem_toList, Prod.exists,
        List.mem_zipIdx_iff_getElem?, Prod.mk.injEq, List.cons.injEq]
      constructor
      · rintro ⟨t, j, ht, is', s', ⟨b', hb', hr⟩, ⟨rfl, rfl⟩, rfl⟩
        exact ⟨t, ht, b', hb', ih.1 hr⟩
      · rintro ⟨t, ht, b', hb', hr⟩
        exact ⟨t, i, ht, is, s, ⟨b', hb', ih.2 hr⟩, ⟨rfl, rfl⟩, rfl⟩

/-- the search comes by places in lexicographic order, and by no list of places twice -/
theorem pairwise_trails (data ps : List Triple) (b : Bindings) :
    (trails data ps b).Pairwise fun r r' => r.1 < r'.1 := by
  induction ps generalizing b with
  | nil => simp [trails]
  | cons p ps ih =>
    simp only [trails]
    rw [List.pairwise_flatMap]
    constructor
    · intro f _
      rw [List.pairwise_map]
      cases Triple.match? b p f.1 with
      | none => simp
      | some b' =>
        simp only [Option.toList_some, List.flatMap_singleton]
        refine (ih b').imp ?_
        intro r r' hr
        exact List.cons_lt_cons_iff.2 (Or.inr ⟨rfl, hr⟩)
    · have hplaces : (data.zipIdx.map Prod.snd).Pairwise (· < ·) := by
        rw [List.zipIdx_map_snd]
        exact List.pairwise_lt_range'
      refine (List.pairwise_map.1 hplaces).imp ?_
      intro f g hfg r hr r' hr'
      obtain ⟨-, -, rfl⟩ := List.mem_map.1 hr
      obtain ⟨-, -, rfl⟩ := List.mem_map.1 hr'
      exact List.cons_lt_cons_iff.2 (Or.inl hfg)

theorem zipIdx_flatMap_fst {α β : Type} (f : α → List β) (l : List α) (n : Nat) :
    (l.zipIdx n).flatMap (fun x => f x.1) = l.flatMap f := by
  rw [← List.flatMap_map, List.zipIdx_map_fst]

/-- where no pattern names a searched builtin, the solutions are those of the trails -/
theorem solutions_eq_trails {data : List Triple} {registry : Registry} {ps : List Triple}
    (hps : ∀ p ∈ ps, registry.searched? p.predicate = none) (b : Bindings) :
    solutions data registry ps b = (trails data ps b).map Prod.snd := by
  induction ps generalizing b with
  | nil => rfl
  | cons p ps ih =>
    have hrest : solutions data registry ps = fun b' => (trails data ps b').map Prod.snd :=
      funext (ih fun q hq => hps q (List.mem_cons_of_mem p hq))
    rw [solutions_cons_pattern (hps p List.mem_cons_self), hrest, List.filterMap_eq_flatMap_toList,
      List.flatMap_assoc]
    simp only [trails, List.map_flatMap, List.map_map, Function.comp_def]
    rw [zipIdx_flatMap_fst fun t => (Triple.match? b p t).toList.flatMap fun b' => (trails data ps b').map Prod.snd]

/-- **The join.** Where no pattern names a searched builtin, solving succeeds. Its solutions go with the lists of places
at which some map that extends the initial one makes the patterns match, in lexicographic order and one for each; and
each is the least such map. -/
theorem solve_join {data : List Triple} {registry : Registry} {ps : List Triple}
    (hps : ∀ p ∈ ps, registry.searched? p.predicate = none) {b : Bindings} (hb : b.Distinct) :
    ∃ places found, solve data registry ps b = .ok found ∧ places.Pairwise (· < ·) ∧
      (∀ is, is ∈ places ↔ ∃ m, m.Extends b ∧ MatchesAt data m ps is) ∧
      List.Forall₂ (IsLeastMatch data b ps) places found := by
  refine ⟨(trails data ps b).map Prod.fst, (trails data ps b).map Prod.snd, ?_, ?_, ?_, ?_⟩
  · rw [solve_eq data registry ps hb, solutions_eq_trails hps]
  · exact List.pairwise_map.2 (pairwise_trails data ps b)
  · intro is
    simp only [List.mem_map, Prod.exists, exists_and_right, exists_eq_right, mem_trails]
    constructor
    · rintro ⟨s, hs⟩
      have hspec := matchAt?_spec hb hs
      exact ⟨s, hspec.extends_initial, hspec.matchesAt⟩
    · rintro ⟨m, hm, hmatches⟩
      obtain ⟨s, hs, -⟩ := (matchesAt_iff hm ps is).1 hmatches
      exact ⟨s, hs⟩
  · rw [List.forall₂_map_left_iff, List.forall₂_map_right_iff, List.forall₂_same]
    rintro ⟨is, s⟩ hs
    exact matchAt?_spec hb (mem_trails.1 hs)

/-- of a ride of two legs, the second is found inside a list and joined with where it stops -/
theorem rides_join :
    let data : List Triple := [⟨.iri "bus", .iri "stops", .iri "north"⟩,
      ⟨.iri "ann", .iri "rides", .list [.iri "bus", .iri "tram"]⟩, ⟨.iri "tram", .iri "stops", .iri "south"⟩]
    let ps : List Triple := [⟨.var "who", .iri "rides", .list [.var "first", .var "second"]⟩,
      ⟨.var "second", .iri "stops", .var "where"⟩]
    let ride : Bindings := ⟨[("where", .iri "south"), ("second", .iri "tram"), ("first", .iri "bus"),
      ("who", .iri "ann")]⟩
    (∀ p ∈ ps, ({} : Registry).searched? p.predicate = none) ∧ ({} : Bindings).Distinct ∧
      solve data {} ps {} = .ok [ride] ∧ ∃ places, [1, 2] ∈ places ∧
        List.Forall₂ (IsLeastMatch data {} ps) places [ride] := by
  intro data ps ride
  have hps : ∀ p ∈ ps, ({} : Registry).searched? p.predicate = none := by
    simp only [ps, List.mem_cons, List.not_mem_nil, or_false, forall_eq_or_imp, forall_eq]
    decide +kernel
  have hride : solve data {} ps {} = .ok [ride] := by decide +kernel
  obtain ⟨places, found, hfound, -, hplaces, hleast⟩ := @solve_join data {} ps hps {} Bindings.distinct_empty
  rw [hride] at hfound
  cases hfound
  refine ⟨hps, Bindings.distinct_empty, hride, places, ?_, hleast⟩
  refine (hplaces [1, 2]).2 ⟨ride, ?_, .cons ⟨_, rfl, ?_⟩ (.cons ⟨_, rfl, ?_⟩ .nil)⟩
  · intro name value h
    cases h
  · exact ⟨by decide +kernel, by decide +kernel, by decide +kernel⟩
  · exact ⟨by decide +kernel, by decide +kernel, by decide +kernel⟩

end N3Rules
