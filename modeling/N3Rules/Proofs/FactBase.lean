/-
What insertions make of a fact base.

- `FactBase.WellFormed`: facts are numbered by their places, and the keys are those of the facts, each once;
- `FactBase.insert?_eq_some_iff`: a triple is taken exactly when its key is new, and then it comes last;
- `FactBase.wellFormed_insert?`: a base stays well formed;
- `FactBase.triples_foldl_insert`: of triples with one key that come one after the other, the first is taken.
-/
import Mathlib.Tactic
import N3Rules.FactBase

namespace N3Rules

/-- a base that insertions made -/
structure FactBase.WellFormed (s : FactBase) : Prop where
  numbered : s.facts.toList.map (·.id) = List.range s.size
  keyed : ∀ k, s.keys.contains k = true ↔ k ∈ s.triples.map Triple.key
  distinct : (s.triples.map Triple.key).Nodup

theorem FactBase.length_triples (s : FactBase) : s.triples.length = s.size := by
  simp [FactBase.triples, FactBase.size]

theorem FactBase.mem_triples {s : FactBase} {t : Triple} : t ∈ s.triples ↔ ∃ f ∈ s.facts, f.triple = t := by
  simp [FactBase.triples]

theorem FactBase.WellFormed.id_lt {s : FactBase} (h : s.WellFormed) {f : Fact} (hf : f ∈ s.facts) : f.id < s.size := by
  have hid : f.id ∈ s.facts.toList.map (·.id) := List.mem_map_of_mem hf.val
  rw [h.numbered] at hid
  exact List.mem_range.1 hid

theorem FactBase.WellFormed.contains_iff {s : FactBase} (h : s.WellFormed) {t : Triple} :
    s.contains t = true ↔ ∃ u ∈ s.triples, u.key = t.key := by
  rw [FactBase.contains, h.keyed, List.mem_map]

theorem FactBase.WellFormed.nodup {s : FactBase} (h : s.WellFormed) : s.triples.Nodup := h.distinct.of_map

/-! ## Insertion -/

theorem FactBase.insert?_eq_some_iff {s s' : FactBase} {t : Triple} {origin : Origin} :
    s.insert? t origin = some s' ↔
      s.contains t = false ∧ s' = ⟨s.facts.push ⟨t, s.size, origin⟩, s.keys.insert t.key⟩ := by
  unfold FactBase.insert?
  split
  · rename_i hc
    simp [hc]
  · rename_i hc
    simp [hc, FactBase.size, eq_comm]

theorem FactBase.insert?_eq_none_iff {s : FactBase} {t : Triple} {origin : Origin} :
    s.insert? t origin = none ↔ s.contains t = true := by
  unfold FactBase.insert?
  split <;> simp_all

theorem FactBase.facts_of_insert? {s s' : FactBase} {t : Triple} {origin : Origin}
    (h : s.insert? t origin = some s') : s'.facts = s.facts.push ⟨t, s.size, origin⟩ := by
  rw [(FactBase.insert?_eq_some_iff.1 h).2]

theorem FactBase.contains_of_insert? {s s' : FactBase} {t : Triple} {origin : Origin}
    (h : s.insert? t origin = some s') (u : Triple) :
    s'.contains u = true ↔ t.key = u.key ∨ s.contains u = true := by
  rw [(FactBase.insert?_eq_some_iff.1 h).2]
  simp [FactBase.contains, Std.TreeSet.contains_insert]

theorem FactBase.insert_cases (s : FactBase) (t : Triple) (origin : Origin) :
    s.contains t = true ∧ s.insert t origin = s ∨ s.insert? t origin = some (s.insert t origin) := by
  unfold FactBase.insert
  cases h : s.insert? t origin with
  | none => exact Or.inl ⟨FactBase.insert?_eq_none_iff.1 h, rfl⟩
  | some s' => exact Or.inr rfl

theorem FactBase.wellFormed_empty : ({} : FactBase).WellFormed :=
  ⟨rfl, by simp [FactBase.triples], List.nodup_nil⟩

theorem FactBase.wellFormed_insert? {s s' : FactBase} {t : Triple} {origin : Origin} (hs : s.WellFormed)
    (h : s.insert? t origin = some s') : s'.WellFormed := by
  have hnew : t.key ∉ s.triples.map Triple.key := by
    rw [← hs.keyed, ← FactBase.contains, (FactBase.insert?_eq_some_iff.1 h).1]
    simp
  refine ⟨?_, fun k => ?_, ?_⟩
  · rw [FactBase.facts_of_insert? h, Array.toList_push, List.map_append, hs.numbered, FactBase.size_of_insert? h,
      List.range_succ]
    rfl
  · rw [FactBase.triples_of_insert? h, (FactBase.insert?_eq_some_iff.1 h).2]
    rw [Std.TreeSet.contains_insert, Bool.or_eq_true, hs.keyed, List.map_append, List.mem_append, List.map_singleton,
      List.mem_singleton, beq_iff_eq, Std.LawfulEqCmp.compare_eq_iff_eq, or_comm, @eq_comm _ t.key k]
  · rw [FactBase.triples_of_insert? h, List.map_append, List.nodup_append]
    refine ⟨hs.distinct, List.nodup_singleton _, ?_⟩
    intro k hk k' hk' he
    rw [List.map_cons, List.map_nil, List.mem_singleton] at hk'
    rw [he, hk'] at hk
    exact hnew hk

theorem FactBase.triples_foldl_insert (ts : List Triple) (s : FactBase) (origin : Origin) :
    (ts.foldl (·.insert · origin) s).triples =
      s.triples ++ (ts.filter fun t => !s.contains t).eraseDupsBy fun t u => t.key == u.key := by
  induction ts generalizing s with
  | nil => simp
  | cons t ts ih =>
    rw [List.foldl_cons, ih]
    rcases FactBase.insert_cases s t origin with ⟨hc, hs⟩ | hi
    · rw [hs, List.filter_cons_of_neg (by simp [hc])]
    · have hnew : s.contains t = false := (FactBase.insert?_eq_some_iff.1 hi).1
      have hcontains : ∀ u, (s.insert t origin).contains u = (u.key == t.key || s.contains u) := by
        intro u
        rw [Bool.eq_iff_iff, FactBase.contains_of_insert? hi, Bool.or_eq_true, beq_iff_eq, @eq_comm _ u.key]
      rw [List.filter_cons_of_pos (by simp [hnew]), List.eraseDupsBy_cons, FactBase.triples_of_insert? hi,
        List.append_assoc, List.singleton_append, List.filter_filter]
      simp only [hcontains, Bool.not_or, Bool.decide_eq_false]

end N3Rules
