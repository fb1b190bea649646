/-
What one step of a run does: concluding a triple, firing a rule, applying a rule, a sweep.

Concluding is the only step that stores anything; the others are folds over it.

- `foldlM_reaches`, `foldlM_stops`, `foldlM_split`, `foldlM_total`: folds that may stop, step by step;
- `conclude_cases`: the four things that concluding a triple can do;
- `Run.Before`: a later run has all facts of an earlier one, and if it has no more, it has the same registry;
- `sweep_before`: a sweep goes on in that sense, as do all steps in it;
- `apply_eq`: applying a rule is firing it under every solution, for solving ends in no conflict.
-/
import N3Rules.Run
import N3Rules.Proofs.Insertions
import N3Rules.Proofs.Solutions

namespace N3Rules

/-! ## Folds that may stop -/

section Folds

variable {σ α ε : Type} {f : σ → α → Except ε σ}

theorem foldlM_cons_ok {x : α} {xs : List α} {s s' : σ} (h : (x :: xs).foldlM f s = .ok s') :
    ∃ mid, f s x = .ok mid ∧ xs.foldlM f mid = .ok s' := by
  rw [List.foldlM_cons] at h
  cases hx : f s x with
  | error e => simp [hx, bind, Except.bind] at h
  | ok mid =>
    have hxs : xs.foldlM f mid = .ok s' := by simpa [hx, bind, Except.bind] using h
    exact ⟨mid, rfl, hxs⟩

/-- what every step hands on from the items before it to the items after it, a fold hands on -/
theorem foldlM_reaches (P : List α → σ → Prop) (step : ∀ x xs s s', P (x :: xs) s → f s x = .ok s' → P xs s')
    {done : List α} (left : List α) {s s' : σ} (h : P (done ++ left) s) (hf : done.foldlM f s = .ok s') :
    P left s' := by
  induction done generalizing s with
  | nil => cases hf; exact h
  | cons x done ih =>
    obtain ⟨mid, hx, hf⟩ := foldlM_cons_ok hf
    exact ih (step x (done ++ left) s mid h hx) hf

/-- a fold that stops does so at an item that is reached -/
theorem foldlM_stops (P : List α → σ → Prop) (step : ∀ x xs s s', P (x :: xs) s → f s x = .ok s' → P xs s')
    {xs : List α} {s : σ} {e : ε} (h : P xs s) (hf : xs.foldlM f s = .error e) :
    ∃ x left s', P (x :: left) s' ∧ f s' x = .error e := by
  induction xs generalizing s with
  | nil => cases hf
  | cons x xs ih =>
    cases hx : f s x with
    | error e' =>
      simp only [List.foldlM_cons, hx, bind, Except.bind] at hf
      cases hf
      exact ⟨x, xs, s, h, hx⟩
    | ok mid =>
      simp only [List.foldlM_cons, hx, bind, Except.bind] at hf
      exact ih (step x xs s mid h hx) hf

/-- a fold that does not stop comes by each of its items -/
theorem foldlM_split {xs : List α} {s s' : σ} (h : xs.foldlM f s = .ok s') {x : α} (hx : x ∈ xs) :
    ∃ done left mid next, xs = done ++ x :: left ∧ done.foldlM f s = .ok mid ∧ f mid x = .ok next ∧
      left.foldlM f next = .ok s' := by
  obtain ⟨done, left, rfl⟩ := List.append_of_mem hx
  rw [List.foldlM_append] at h
  cases hd : done.foldlM f s with
  | error e => simp [hd, bind, Except.bind] at h
  | ok mid =>
    simp only [hd, bind, Except.bind] at h
    obtain ⟨next, hn, hl⟩ := foldlM_cons_ok h
    exact ⟨done, left, mid, next, rfl, hd, hn, hl⟩

/-- a fold does not stop where no step does, given what the steps keep -/
theorem foldlM_total {P : σ → Prop} {xs : List α} (step : ∀ x ∈ xs, ∀ s, P s → ∃ s', f s x = .ok s' ∧ P s')
    {s : σ} (h : P s) : ∃ s', xs.foldlM f s = .ok s' ∧ P s' := by
  induction xs generalizing s with
  | nil => exact ⟨s, rfl, h⟩
  | cons x xs ih =>
    obtain ⟨mid, hx, hm⟩ := step x List.mem_cons_self s h
    have hrest : ∀ y ∈ xs, ∀ s, P s → ∃ s', f s y = .ok s' ∧ P s' := by
      intro y hy
      exact step y (List.mem_cons_of_mem x hy)
    obtain ⟨s', hs', hp⟩ := ih hrest hm
    refine ⟨s', ?_, hp⟩
    simpa [List.foldlM_cons, hx, bind, Except.bind] using hs'

end Folds

/-! ## Before and after -/

/-- `next` comes after `run`: all facts are kept, and where none is added, nothing that steps go by has changed -/
structure Run.Before (run next : Run) : Prop where
  kept : run.store.facts.toList <+: next.store.facts.toList
  idle : next.store.size = run.store.size →
    next.store = run.store ∧ next.context.registry = run.context.registry

theorem Run.Before.refl (run : Run) : run.Before run := by
  refine ⟨List.prefix_refl _, ?_⟩
  intro _
  exact ⟨rfl, rfl⟩

theorem Run.Before.size_le {run next : Run} (h : run.Before next) : run.store.size ≤ next.store.size := by
  simpa [FactBase.size] using h.kept.length_le

theorem Run.Before.trans {run mid next : Run} (h : run.Before mid) (h' : mid.Before next) : run.Before next := by
  refine ⟨h.kept.trans h'.kept, ?_⟩
  intro hsize
  have hm := h.size_le
  have hn := h'.size_le
  obtain ⟨hs, hr⟩ := h.idle (by omega)
  obtain ⟨hs', hr'⟩ := h'.idle (by omega)
  exact ⟨hs'.trans hs, hr'.trans hr⟩

theorem Run.Before.triples {run next : Run} (h : run.Before next) : run.store.triples ⊆ next.store.triples := by
  intro t ht
  obtain ⟨f, hf, rfl⟩ := List.mem_map.1 ht
  exact List.mem_map_of_mem (h.kept.subset hf)

theorem foldlM_before {α : Type} {f : Run → α → Except Stopped Run}
    (step : ∀ run x next, f run x = .ok next → run.Before next) {xs : List α} {run next : Run}
    (h : xs.foldlM f run = .ok next) : run.Before next := by
  refine foldlM_reaches (fun _ s => run.Before s) ?_ [] (Run.Before.refl run) h
  intro x _ s s' hs hx
  exact hs.trans (step s x s' hx)

/-- where a fold adds no fact, every step of it starts from the same facts and registry, and adds none -/
theorem foldlM_idle {α : Type} {f : Run → α → Except Stopped Run}
    (step : ∀ run x next, f run x = .ok next → run.Before next) {xs : List α} {run last : Run}
    (h : xs.foldlM f run = .ok last) (hsize : last.store.size = run.store.size) {x : α} (hx : x ∈ xs) :
    ∃ done left mid next, xs = done ++ x :: left ∧ done.foldlM f run = .ok mid ∧ f mid x = .ok next ∧
      mid.store = run.store ∧ mid.context.registry = run.context.registry ∧ next.store.size = mid.store.size := by
  obtain ⟨done, left, mid, next, hxs, hd, hn, hl⟩ := foldlM_split h hx
  have hb := foldlM_before step hd
  have hm := hb.size_le
  have hmn := (step mid x next hn).size_le
  have hnl := (foldlM_before step hl).size_le
  obtain ⟨hs, hr⟩ := hb.idle (by omega)
  exact ⟨done, left, mid, next, hxs, hd, hn, hs, hr, by omega⟩

/-! ## The steps -/

/-- what concluding a triple can do -/
inductive Run.Concluded (bus : Bus) (index : Nat) (rule : Rule) (b : Bindings) (run : Run) (t : Triple) :
    Except Stopped Run → Prop where
  /-- a variable is left in the triple -/
  | skipped : t.isGround = false → Concluded bus index rule b run t (.ok run)
  | refused : t.isGround = true → t.predicate.canBePredicate = false →
      Concluded bus index rule b run t (.error ⟨run, .predicate index t.predicate⟩)
  | known : t.isGround = true → t.predicate.canBePredicate = true → run.store.contains t = true →
      Concluded bus index rule b run t (.ok run)
  | stored {store : FactBase} : t.isGround = true → t.predicate.canBePredicate = true →
      run.store.insert? t .inferred = some store →
      Concluded bus index rule b run t (.ok ⟨store, bus.announce (.afterRuleApplied rule t b) run.context⟩)

theorem conclude_cases (bus : Bus) (index : Nat) (rule : Rule) (b : Bindings) (run : Run) (t : Triple) :
    Run.Concluded bus index rule b run t (run.conclude bus index rule b t) := by
  unfold Run.conclude
  cases hg : t.isGround with
  | false => exact .skipped hg
  | true =>
    cases hp : t.predicate.canBePredicate with
    | false => exact .refused hg hp
    | true =>
      simp only [Bool.not_true, Bool.false_eq_true, if_false]
      cases hi : run.store.insert? t .inferred with
      | none => exact .known hg hp (FactBase.insert?_eq_none_iff.1 hi)
      | some store => exact .stored hg hp hi

theorem conclude_before (bus : Bus) (index : Nat) (rule : Rule) (b : Bindings) (run : Run) (t : Triple) (next : Run)
    (h : run.conclude bus index rule b t = .ok next) : run.Before next := by
  have hc := conclude_cases bus index rule b run t
  rw [h] at hc
  cases hc with
  | skipped => exact .refl run
  | known => exact .refl run
  | stored _ _ hi =>
    constructor
    · rw [FactBase.facts_of_insert? hi, Array.toList_push]
      exact List.prefix_append _ _
    · intro hsize
      have := FactBase.size_of_insert? hi
      simp only at hsize
      omega

theorem recordCalls_before (run : Run) (calls : List Call) : run.Before (run.recordCalls calls) := by
  refine ⟨List.prefix_refl _, ?_⟩
  intro _
  exact ⟨rfl, rfl⟩

theorem fire_before (bus : Bus) (index : Nat) (rule : Rule) (registry : Registry) (run : Run) (b : Bindings)
    (next : Run) (h : run.fire bus index rule registry b = .ok next) : run.Before next := by
  unfold Run.fire at h
  refine (recordCalls_before run (confirmCalls registry rule.antecedent.triples b)).trans ?_
  simp only at h
  split at h
  · exact foldlM_before (conclude_before bus index rule b) h
  · cases h
    exact .refl _

/-- applying a rule is firing it under every solution: solving ends in no conflict -/
theorem apply_eq (bus : Bus) (index : Nat) (rule : Rule) (run : Run) :
    run.apply bus index rule =
      (solutions run.store.triples run.context.registry rule.antecedent.triples {}).foldlM
        (Run.fire bus index rule run.context.registry)
        (run.recordCalls (solveCalls run.store.triples run.context.registry rule.antecedent.triples {})) := by
  simp only [Run.apply, solve_eq _ _ _ Bindings.distinct_empty]

theorem apply_before (bus : Bus) (run : Run) (r : Rule × Nat) (next : Run) (h : run.apply bus r.2 r.1 = .ok next) :
    run.Before next := by
  rw [apply_eq] at h
  exact (recordCalls_before run _).trans (foldlM_before (fire_before bus r.2 r.1 run.context.registry) h)

theorem sweep_before {bus : Bus} {rules : List Rule} {run next : Run} (h : run.sweep bus rules = .ok next) :
    run.Before next :=
  foldlM_before (apply_before bus) h

end N3Rules
