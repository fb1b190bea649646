/-
How bindings grow.

Whatever solves an antecedent changes bindings in one way only: it gives a value to a variable that has none. `Grows`
is that relation, with a condition on the values given, and what is true of bindings along a search is read off it.

- `Bindings.Grows.extends`, `Bindings.Grows.distinct`: no value is lost, and no variable gets two entries;
- `Bindings.Grows.find?`: a value was there before, or it meets the condition;
- `Bindings.combine_of_extends`: bindings combined with some that they extend stay as they are, so no conflict arises.
-/
import Mathlib.Tactic
import N3Rules.Bindings

namespace N3Rules

/-! ## Extension -/

/-- every value in `b` is a value in `b'` -/
def Bindings.Extends (b' b : Bindings) : Prop :=
  ∀ name value, b.find? name = some value → b'.find? name = some value

theorem Bindings.Extends.refl (b : Bindings) : b.Extends b := by
  intro name value hv
  exact hv

theorem Bindings.Extends.trans {b b' b'' : Bindings} (h' : b''.Extends b') (h : b'.Extends b) : b''.Extends b := by
  intro name value hv
  exact h' name value (h name value hv)

theorem Bindings.extends_bind {b : Bindings} {name : String} (h : b.find? name = none) (value : Term) :
    (b.bind name value).Extends b := by
  intro other v hv
  rw [Bindings.find?_bind]
  by_cases ho : other = name
  · subst ho
    rw [h] at hv
    cases hv
  · rw [if_neg ho]
    exact hv

/-- no variable has two entries -/
def Bindings.Distinct (b : Bindings) : Prop := (b.entries.map Prod.fst).Nodup

theorem Bindings.distinct_empty : ({} : Bindings).Distinct := List.nodup_nil

theorem Bindings.entries_bind {b : Bindings} {name : String} (h : b.find? name = none) (value : Term) :
    (b.bind name value).entries = (name, value) :: b.entries := by
  simp only [Bindings.bind, h]

theorem Bindings.Distinct.bind {b : Bindings} {name : String} (hb : b.Distinct) (h : b.find? name = none)
    (value : Term) : (b.bind name value).Distinct := by
  unfold Bindings.Distinct
  rw [Bindings.entries_bind h, List.map_cons, List.nodup_cons]
  refine ⟨?_, hb⟩
  intro hm
  obtain ⟨e, he, hn⟩ := List.mem_map.1 hm
  have hne := List.lookup_eq_none_iff.1 h e he
  simp [hn] at hne

theorem Bindings.Distinct.find?_of_mem {b : Bindings} (hb : b.Distinct) {e : String × Term} (he : e ∈ b.entries) :
    b.find? e.1 = some e.2 := by
  obtain ⟨l₁, l₂, hl⟩ := List.append_of_mem he
  refine List.lookup_eq_some_iff.2 ⟨l₁, l₂, hl, ?_⟩
  intro p hp
  unfold Bindings.Distinct at hb
  rw [hl, List.map_append, List.map_cons] at hb
  have hne := (List.nodup_append.1 hb).2.2 p.1 (List.mem_map_of_mem hp) e.1 List.mem_cons_self
  simpa using hne.symm

/-- combining bindings with some that they extend changes nothing -/
theorem Bindings.combine_of_extends {s b : Bindings} (hb : b.Distinct) (h : s.Extends b) : s.combine b = .ok s := by
  have hall : ∀ l : List (String × Term), (∀ e ∈ l, s.find? e.1 = some e.2) →
      l.foldlM (fun s e => s.add e.1 e.2) s = .ok s := by
    intro l hl
    induction l with
    | nil => rfl
    | cons e l ih =>
      have he : s.add e.1 e.2 = .ok s := by simp [Bindings.add, hl e List.mem_cons_self]
      rw [List.foldlM_cons, he]
      refine ih ?_
      intro e' he'
      exact hl e' (List.mem_cons_of_mem e he')
  refine hall b.entries ?_
  intro e he
  exact h e.1 e.2 (hb.find?_of_mem he)

/-! ## Growth -/

/-- `b'` comes from `b` by giving values of which `P` holds to variables that have none -/
inductive Bindings.Grows (P : Term → Prop) (b : Bindings) : Bindings → Prop where
  | refl : Grows P b b
  | bind {b' : Bindings} {name : String} {value : Term} : Grows P b b' → b'.find? name = none → P value →
      Grows P b (b'.bind name value)

theorem Bindings.Grows.trans {P : Term → Prop} {b b' b'' : Bindings} (h : Grows P b b') (h' : Grows P b' b'') :
    Grows P b b'' := by
  induction h' with
  | refl => exact h
  | bind _ hn hp ih => exact ih.bind hn hp

theorem Bindings.Grows.mono {P Q : Term → Prop} (hpq : ∀ t, P t → Q t) {b b' : Bindings} (h : Grows P b b') :
    Grows Q b b' := by
  induction h with
  | refl => exact .refl
  | bind _ hn hp ih => exact ih.bind hn (hpq _ hp)

theorem Bindings.Grows.extends {P : Term → Prop} {b b' : Bindings} (h : Grows P b b') : b'.Extends b := by
  induction h with
  | refl => exact .refl b
  | bind _ hn _ ih => exact (Bindings.extends_bind hn _).trans ih

theorem Bindings.Grows.distinct {P : Term → Prop} {b b' : Bindings} (h : Grows P b b') (hb : b.Distinct) :
    b'.Distinct := by
  induction h with
  | refl => exact hb
  | bind _ hn _ ih => exact ih.bind hn _

theorem Bindings.Grows.find? {P : Term → Prop} {b b' : Bindings} (h : Grows P b b') {name : String} {value : Term}
    (hv : b'.find? name = some value) : b.find? name = some value ∨ P value := by
  induction h with
  | refl => exact Or.inl hv
  | @bind b' bound given _ hn hp ih =>
    rw [Bindings.find?_bind] at hv
    by_cases hbound : name = bound
    · rw [if_pos hbound, hn] at hv
      cases hv
      exact Or.inr hp
    · rw [if_neg hbound] at hv
      exact ih hv

end N3Rules
