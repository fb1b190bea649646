/-
Every point of a run of rules.

`Reached` lists the points that a run comes by, one constructor for each thing that it does, with what it is about to do
at each. The functions that carry a run out stay on it (`Reached.fires`, `Reached.applies`, `Reached.sweeps`), so every
result of a run is a point of it, and what holds at every point holds of every result.

- `Reached.ofDocument?_ok`, `Reached.ofDocument?_error`: how a run ends;
- `Reached.fits`: what is known of an application of a rule at every point inside it;
- `Reached.store_induct`: what holds of the asserted facts and survives the storing of a conclusion holds throughout;
- `Reached.idle`: the last sweep comes by every conclusion that the rules draw from the final facts.
-/
import N3Rules.Proofs.Run.Step

namespace N3Rules

/-! ## Points of a run -/

/-- an application of a rule: the rule, its number, and the run as it was when the application began -/
structure Application where
  rule : Rule
  index : Nat
  before : Run

/-- the registry that an application goes by -/
def Application.registry (a : Application) : Registry :=
  a.before.context.registry

/-- the solutions under which an application fires its rule -/
def Application.solutions (a : Application) : List Bindings :=
  N3Rules.solutions a.before.store.triples a.registry a.rule.antecedent.triples {}

/-- what a run is about to do -/
inductive Stage where
  /-- start a sweep, if nothing says that the last one was the last -/
  | sweep
  /-- apply the rules that are left of a sweep, which began with `size` facts -/
  | apply (size : Nat) (rules : List (Rule × Nat))
  /-- fire the rule of an application under the solutions that are left, and then apply the other rules -/
  | fire (size : Nat) (rules : List (Rule × Nat)) (a : Application) (found : List Bindings)
  /-- conclude triples that a rule gives under bindings, and then fire it under the other solutions -/
  | conclude (size : Nat) (rules : List (Rule × Nat)) (a : Application) (found : List Bindings) (b : Bindings)
    (ts : List Triple)

/-- the points of the run of a document's rules -/
inductive Reached (bus : Bus) (d : Document) (c : Context) : Stage → Run → Prop where
  | start : Reached bus d c .sweep (Run.start bus d c)
  | sweep {run : Run} : Reached bus d c .sweep run → Reached bus d c (.apply run.store.size d.rules.zipIdx) run
  | apply {size : Nat} {r : Rule × Nat} {rules : List (Rule × Nat)} {run : Run} {found : List Bindings} :
      Reached bus d c (.apply size (r :: rules)) run →
      solve run.store.triples run.context.registry r.1.antecedent.triples {} = .ok found →
      Reached bus d c (.fire size rules ⟨r.1, r.2, run⟩ found)
        (run.recordCalls (solveCalls run.store.triples run.context.registry r.1.antecedent.triples {}))
  | reject {size : Nat} {rules : List (Rule × Nat)} {a : Application} {b : Bindings} {found : List Bindings}
      {run : Run} : Reached bus d c (.fire size rules a (b :: found)) run →
      confirmed a.registry a.rule.antecedent.triples b = false →
      Reached bus d c (.fire size rules a found)
        (run.recordCalls (confirmCalls a.registry a.rule.antecedent.triples b))
  | confirm {size : Nat} {rules : List (Rule × Nat)} {a : Application} {b : Bindings} {found : List Bindings}
      {run : Run} : Reached bus d c (.fire size rules a (b :: found)) run →
      confirmed a.registry a.rule.antecedent.triples b = true →
      Reached bus d c (.conclude size rules a found b (a.rule.consequent.triples.map (Triple.instantiate b)))
        (run.recordCalls (confirmCalls a.registry a.rule.antecedent.triples b))
  | conclude {size : Nat} {rules : List (Rule × Nat)} {a : Application} {found : List Bindings} {b : Bindings}
      {t : Triple} {ts : List Triple} {run next : Run} :
      Reached bus d c (.conclude size rules a found b (t :: ts)) run →
      run.conclude bus a.index a.rule b t = .ok next → Reached bus d c (.conclude size rules a found b ts) next
  | fired {size : Nat} {rules : List (Rule × Nat)} {a : Application} {found : List Bindings} {b : Bindings}
      {run : Run} : Reached bus d c (.conclude size rules a found b []) run →
      Reached bus d c (.fire size rules a found) run
  | applied {size : Nat} {rules : List (Rule × Nat)} {a : Application} {run : Run} :
      Reached bus d c (.fire size rules a []) run → Reached bus d c (.apply size rules) run
  | again {size : Nat} {run : Run} : Reached bus d c (.apply size []) run → run.store.size ≠ size →
      Reached bus d c .sweep run

/-- an application begins at a point of the run -/
def Application.Begins (bus : Bus) (d : Document) (c : Context) (a : Application) : Prop :=
  ∃ size rules, Reached bus d c (.apply size ((a.rule, a.index) :: rules)) a.before

/-- an application is about to conclude a triple, under bindings, at a point of the run -/
def Application.Concludes (bus : Bus) (d : Document) (c : Context) (a : Application) (b : Bindings) (t : Triple)
    (run : Run) : Prop :=
  ∃ size rules found ts, Reached bus d c (.conclude size rules a found b (t :: ts)) run

/-- the run stopped at a conclusion whose predicate no fact can have -/
def Stopped.AtConclusion (bus : Bus) (d : Document) (c : Context) (s : Stopped) : Prop :=
  ∃ (a : Application) (b : Bindings) (t : Triple), a.Concludes bus d c b t s.run ∧ t.isGround = true ∧
    t.predicate.canBePredicate = false ∧ s.failure = .predicate a.index t.predicate

section Points

variable {bus : Bus} {d : Document} {c : Context}

/-! ## The functions of a run stay on its points -/

theorem Reached.concludes {size : Nat} {rules : List (Rule × Nat)} {a : Application} {found : List Bindings}
    {b : Bindings} {done : List Triple} (left : List Triple) {run next : Run}
    (h : Reached bus d c (.conclude size rules a found b (done ++ left)) run)
    (hf : done.foldlM (Run.conclude bus a.index a.rule b) run = .ok next) :
    Reached bus d c (.conclude size rules a found b left) next := by
  refine foldlM_reaches (fun ts run => Reached bus d c (.conclude size rules a found b ts) run) ?_ left h hf
  intro t ts s s' hs hconclude
  exact hs.conclude hconclude

theorem Reached.fire {size : Nat} {rules : List (Rule × Nat)} {a : Application} {b : Bindings}
    {found : List Bindings} {run next : Run} (h : Reached bus d c (.fire size rules a (b :: found)) run)
    (hf : run.fire bus a.index a.rule a.registry b = .ok next) : Reached bus d c (.fire size rules a found) next := by
  unfold Run.fire at hf
  cases hc : confirmed a.registry a.rule.antecedent.triples b with
  | false =>
    simp only [hc, Bool.false_eq_true, if_false] at hf
    cases hf
    exact h.reject hc
  | true =>
    simp only [hc, if_true] at hf
    refine (Reached.concludes [] ?_ hf).fired
    rw [List.append_nil]
    exact h.confirm hc

theorem Reached.fires {size : Nat} {rules : List (Rule × Nat)} {a : Application} {done : List Bindings}
    (left : List Bindings) {run next : Run} (h : Reached bus d c (.fire size rules a (done ++ left)) run)
    (hf : done.foldlM (Run.fire bus a.index a.rule a.registry) run = .ok next) :
    Reached bus d c (.fire size rules a left) next := by
  refine foldlM_reaches (fun found run => Reached bus d c (.fire size rules a found) run) ?_ left h hf
  intro b found s s' hs hfire
  exact hs.fire hfire

theorem Reached.solutions {size : Nat} {r : Rule × Nat} {rules : List (Rule × Nat)} {run : Run}
    (h : Reached bus d c (.apply size (r :: rules)) run) :
    Reached bus d c (.fire size rules ⟨r.1, r.2, run⟩ (Application.solutions ⟨r.1, r.2, run⟩))
      (run.recordCalls (solveCalls run.store.triples run.context.registry r.1.antecedent.triples {})) :=
  h.apply (solve_eq _ _ _ Bindings.distinct_empty)

theorem Reached.applyRule {size : Nat} {r : Rule × Nat} {rules : List (Rule × Nat)} {run next : Run}
    (h : Reached bus d c (.apply size (r :: rules)) run) (hf : run.apply bus r.2 r.1 = .ok next) :
    Reached bus d c (.apply size rules) next := by
  rw [apply_eq] at hf
  have hs := h.solutions
  rw [← List.append_nil (Application.solutions ⟨r.1, r.2, run⟩)] at hs
  exact (Reached.fires [] hs hf).applied

theorem Reached.applies {size : Nat} {done : List (Rule × Nat)} (left : List (Rule × Nat)) {run next : Run}
    (h : Reached bus d c (.apply size (done ++ left)) run)
    (hf : done.foldlM (fun run r => run.apply bus r.2 r.1) run = .ok next) :
    Reached bus d c (.apply size left) next := by
  refine foldlM_reaches (fun rules run => Reached bus d c (.apply size rules) run) ?_ left h hf
  intro r rules s s' hs happly
  exact hs.applyRule happly

theorem Reached.sweeps {run next : Run} (h : Reached bus d c .sweep run) (hs : run.sweep bus d.rules = .ok next) :
    Reached bus d c (.apply run.store.size []) next := by
  refine Reached.applies [] ?_ hs
  rw [List.append_nil]
  exact h.sweep

/-! ## How a run ends -/

theorem Reached.stops {run : Run} {s : Stopped} (h : Reached bus d c .sweep run)
    (hs : run.sweep bus d.rules = .error s) : s.AtConclusion bus d c := by
  obtain ⟨r, rules, mid, hr, happly⟩ := foldlM_stops
    (fun rules now => Reached bus d c (.apply run.store.size rules) now) (fun _ _ _ _ h hf => h.applyRule hf) h.sweep hs
  rw [apply_eq] at happly
  obtain ⟨b, found, now, hb, hfire⟩ := foldlM_stops
    (fun found now => Reached bus d c (.fire run.store.size rules ⟨r.1, r.2, mid⟩ found) now)
    (fun _ _ _ _ h hf => h.fire hf) hr.solutions happly
  unfold Run.fire at hfire
  cases hc : confirmed mid.context.registry r.1.antecedent.triples b with
  | false => simp [Application.registry, hc] at hfire
  | true =>
    simp only [Application.registry, hc, if_true] at hfire
    obtain ⟨t, ts, last, ht, hconclude⟩ := foldlM_stops
      (fun ts now => Reached bus d c (.conclude run.store.size rules ⟨r.1, r.2, mid⟩ found b ts) now)
      (fun _ _ _ _ h hf => h.conclude hf) (hb.confirm hc) hfire
    have hcases := conclude_cases bus r.2 r.1 b last t
    rw [hconclude] at hcases
    cases hcases with
    | refused hg hp => exact ⟨_, b, t, ⟨_, _, _, _, ht⟩, hg, hp, rfl⟩

theorem Reached.saturate?_ok {limit n : Nat} {run last : Run} (h : Reached bus d c .sweep run)
    (hs : saturate? bus d.rules limit run = some (.ok (last, n))) :
    n ≤ limit ∧ ∃ prev, Reached bus d c .sweep prev ∧ prev.sweep bus d.rules = .ok last ∧
      last.store.size = prev.store.size := by
  induction limit generalizing run n with
  | zero => cases hs
  | succ limit ih =>
    simp only [saturate?] at hs
    split at hs
    · cases hs
    · rename_i next hsweep
      split at hs
      · rename_i hsize
        cases hs
        exact ⟨by omega, run, h, hsweep, hsize⟩
      · rename_i hsize
        obtain ⟨r, hr, hmap⟩ := Option.map_eq_some_iff.1 hs
        cases r with
        | error s => cases hmap
        | ok r =>
          cases hmap
          obtain ⟨hn, hprev⟩ := ih ((h.sweeps hsweep).again hsize) hr
          exact ⟨by omega, hprev⟩

theorem Reached.saturate?_error {limit : Nat} {run : Run} {s : Stopped} (h : Reached bus d c .sweep run)
    (hs : saturate? bus d.rules limit run = some (.error s)) :
    ∃ prev, Reached bus d c .sweep prev ∧ prev.sweep bus d.rules = .error s := by
  induction limit generalizing run with
  | zero => cases hs
  | succ limit ih =>
    simp only [saturate?] at hs
    split at hs
    · rename_i hsweep
      cases hs
      exact ⟨run, h, hsweep⟩
    · rename_i next hsweep
      split at hs
      · cases hs
      · rename_i hsize
        obtain ⟨r, hr, hmap⟩ := Option.map_eq_some_iff.1 hs
        cases r with
        | error s' =>
          cases hmap
          exact ih ((h.sweeps hsweep).again hsize) hr
        | ok r => cases hmap

/-- a run whose facts are never more than `bound` ends, for every sweep but the last adds one -/
theorem Reached.saturate?_bounded {bound : Nat} (hb : ∀ run, Reached bus d c .sweep run → run.store.size ≤ bound)
    {limit : Nat} {run : Run} (h : Reached bus d c .sweep run) (hl : bound < run.store.size + limit) :
    ∃ r, saturate? bus d.rules limit run = some r := by
  induction limit generalizing run with
  | zero =>
    have := hb run h
    omega
  | succ limit ih =>
    simp only [saturate?]
    split
    · exact ⟨_, rfl⟩
    · rename_i next hsweep
      split
      · exact ⟨_, rfl⟩
      · rename_i hsize
        have hle := (sweep_before hsweep).size_le
        obtain ⟨r, hr⟩ := ih ((h.sweeps hsweep).again hsize) (by omega)
        exact ⟨_, by rw [hr]; rfl⟩

/-- a run whose facts are never more than `bound` ends after one sweep more at most -/
theorem Reached.ofDocument?_bounded {bound : Nat} (hb : ∀ run, Reached bus d c .sweep run → run.store.size ≤ bound) :
    ∃ r, Run.ofDocument? bus (1 + bound) d c = some r := by
  obtain ⟨r, hr⟩ := Reached.start.saturate?_bounded hb (show bound < _ + (1 + bound) by omega)
  exact ⟨_, by rw [Run.ofDocument?, hr]; rfl⟩

/-- a run that ends within a limit ends in the same way within a higher one -/
theorem saturate?_mono {rules : List Rule} {limit limit' : Nat} (hle : limit ≤ limit') {run : Run}
    {r : Except Stopped (Run × Nat)} (h : saturate? bus rules limit run = some r) :
    saturate? bus rules limit' run = some r := by
  induction limit generalizing limit' run r with
  | zero => cases h
  | succ limit ih =>
    obtain ⟨more, rfl⟩ : ∃ more, limit' = more + 1 := ⟨limit' - 1, by omega⟩
    unfold saturate? at h ⊢
    cases hsweep : run.sweep bus rules with
    | error s =>
      rw [hsweep] at h
      exact h
    | ok next =>
      simp only [hsweep] at h ⊢
      by_cases hsize : next.store.size = run.store.size
      · rw [if_pos hsize] at h ⊢
        exact h
      · rw [if_neg hsize] at h ⊢
        obtain ⟨r', hr', hmap⟩ := Option.map_eq_some_iff.1 h
        rw [ih (Nat.le_of_succ_le_succ hle) hr', Option.map_some, hmap]

theorem Run.ofDocument?_mono {limit limit' : Nat} (hle : limit ≤ limit') {r : Except Stopped (Run × Nat)}
    (h : Run.ofDocument? bus limit d c = some r) : Run.ofDocument? bus limit' d c = some r := by
  obtain ⟨r', hr', hmap⟩ := Option.map_eq_some_iff.1 h
  rw [Run.ofDocument?, saturate?_mono hle hr', Option.map_some, hmap]

theorem Reached.ofDocument?_ok {limit n : Nat} {run : Run}
    (h : Run.ofDocument? bus limit d c = some (.ok (run, n))) :
    n ≤ limit ∧ ∃ prev last, Reached bus d c .sweep prev ∧ prev.sweep bus d.rules = .ok last ∧
      last.store.size = prev.store.size ∧ run = last.finish bus := by
  obtain ⟨r, hr, hmap⟩ := Option.map_eq_some_iff.1 h
  cases r with
  | error s => cases hmap
  | ok r =>
    cases hmap
    obtain ⟨hn, prev, hprev, hsweep, hsize⟩ := Reached.start.saturate?_ok hr
    exact ⟨hn, prev, r.1, hprev, hsweep, hsize, rfl⟩

theorem Reached.ofDocument?_error {limit : Nat} {s : Stopped} (h : Run.ofDocument? bus limit d c = some (.error s)) :
    s.AtConclusion bus d c := by
  obtain ⟨r, hr, hmap⟩ := Option.map_eq_some_iff.1 h
  cases r with
  | error s' =>
    cases hmap
    obtain ⟨prev, hprev, hsweep⟩ := Reached.start.saturate?_error hr
    exact hprev.stops hsweep
  | ok r => cases hmap

/-- whether a run ends within a limit, and with something of which `P` holds -/
def Run.endsIn (bus : Bus) (limit : Nat) (d : Document) (c : Context) (P : Run → Bool) : Bool :=
  match Run.ofDocument? bus limit d c with
  | some (.ok (run, _)) => P run
  | _ => false

theorem Run.of_endsIn {limit : Nat} {P : Run → Bool} (h : Run.endsIn bus limit d c P = true) :
    ∃ run n, Run.ofDocument? bus limit d c = some (.ok (run, n)) ∧ P run = true := by
  unfold Run.endsIn at h
  split at h
  · rename_i run n hrun
    exact ⟨run, n, hrun, h⟩
  · cases h

/-! ## Inside an application -/

/-- what is known of an application while it is under way -/
structure Application.UnderWay (bus : Bus) (d : Document) (c : Context) (a : Application) (size : Nat)
    (rules : List (Rule × Nat)) (found : List Bindings) (run : Run) : Prop where
  begins : Reached bus d c (.apply size ((a.rule, a.index) :: rules)) a.before
  listed : (a.rule, a.index) :: rules ⊆ d.rules.zipIdx
  since : a.before.Before run
  found : found ⊆ a.solutions

/-- what is known at a point of the run, besides the run itself -/
def Stage.Fits (bus : Bus) (d : Document) (c : Context) : Stage → Run → Prop
  | .sweep, _ => True
  | .apply _ rules, _ => rules ⊆ d.rules.zipIdx
  | .fire size rules a found, run => a.UnderWay bus d c size rules found run
  | .conclude size rules a found b ts, run => a.UnderWay bus d c size rules found run ∧ b ∈ a.solutions ∧
      confirmed a.registry a.rule.antecedent.triples b = true ∧
      ∀ t ∈ ts, ∃ p ∈ a.rule.consequent.triples, t = p.instantiate b

theorem Reached.fits {stage : Stage} {run : Run} (h : Reached bus d c stage run) : stage.Fits bus d c run := by
  induction h with
  | start => trivial
  | sweep =>
    intro r hr
    exact hr
  | @apply size r rules run found hreached hsolve ih =>
    rw [solve_eq _ _ _ Bindings.distinct_empty] at hsolve
    cases hsolve
    exact ⟨hreached, ih, recordCalls_before run _, List.Subset.refl _⟩
  | @reject _ _ _ _ _ run _ _ ih =>
    exact { ih with
      since := ih.since.trans (recordCalls_before run _), found := fun _ hb => ih.found (List.mem_cons_of_mem _ hb) }
  | @confirm _ _ _ _ _ run _ hc ih =>
    refine ⟨{ ih with
      since := ih.since.trans (recordCalls_before run _), found := fun _ hb => ih.found (List.mem_cons_of_mem _ hb) },
      ih.found List.mem_cons_self, hc, ?_⟩
    intro t ht
    obtain ⟨p, hp, rfl⟩ := List.mem_map.1 ht
    exact ⟨p, hp, rfl⟩
  | conclude _ hconclude ih =>
    obtain ⟨hu, hb, hc, ht⟩ := ih
    refine ⟨{ hu with since := hu.since.trans (conclude_before _ _ _ _ _ _ _ hconclude) }, hb, hc, ?_⟩
    intro t hm
    exact ht t (List.mem_cons_of_mem _ hm)
  | fired _ ih => exact ih.1
  | applied _ ih =>
    intro r hr
    exact ih.listed (List.mem_cons_of_mem _ hr)
  | again => trivial

theorem mem_of_mem_zipIdx {rules : List Rule} {r : Rule × Nat} (h : r ∈ rules.zipIdx) : r.1 ∈ rules := by
  rw [← List.zipIdx_map_fst 0 rules]
  exact List.mem_map_of_mem h

/-- what is known when an application is about to conclude a triple -/
structure Application.Concluding (bus : Bus) (d : Document) (c : Context) (a : Application) (b : Bindings) (t : Triple)
    (run : Run) : Prop where
  reached : ∃ stage, Reached bus d c stage run
  begins : a.Begins bus d c
  listed : a.rule ∈ d.rules
  since : a.before.Before run
  solution : b ∈ a.solutions
  confirmed : confirmed a.registry a.rule.antecedent.triples b = true
  given : ∃ p ∈ a.rule.consequent.triples, t = p.instantiate b

theorem Application.Concludes.concluding {a : Application} {b : Bindings} {t : Triple} {run : Run}
    (h : a.Concludes bus d c b t run) : a.Concluding bus d c b t run := by
  obtain ⟨size, rules, found, ts, h⟩ := h
  obtain ⟨hu, hb, hc, ht⟩ := h.fits
  exact ⟨⟨_, h⟩, ⟨size, rules, hu.begins⟩, mem_of_mem_zipIdx (hu.listed List.mem_cons_self), hu.since, hb, hc,
    ht t List.mem_cons_self⟩

theorem Application.Concludes.mem_consequences {a : Application} {b : Bindings} {t : Triple} {run : Run}
    (h : a.Concludes bus d c b t run) : t ∈ consequences a.registry d.rules a.before.store.triples := by
  have hc := h.concluding
  exact N3Rules.mem_consequences.2 ⟨a.rule, hc.listed, b, hc.solution, hc.confirmed, hc.given⟩

/-- what holds of the facts that a document states, and still holds when a conclusion is stored, holds at every point -/
theorem Reached.store_induct {P : FactBase → Prop} (start : P (.ofAsserted d.triples))
    (stored : ∀ (a : Application) (b : Bindings) (t : Triple) (run : Run) (store : FactBase),
      a.Concludes bus d c b t run → t.isGround = true → t.predicate.canBePredicate = true →
      run.store.insert? t .inferred = some store → P run.store → P store)
    {stage : Stage} {run : Run} (h : Reached bus d c stage run) : P run.store := by
  induction h with
  | start => exact start
  | @conclude _ _ a _ b t _ run next hreached hconclude ih =>
    have hcases := conclude_cases bus a.index a.rule b run t
    rw [hconclude] at hcases
    cases hcases with
    | skipped => exact ih
    | known => exact ih
    | stored hg hp hi => exact stored a b t run _ ⟨_, _, _, _, hreached⟩ hg hp hi ih
  | _ => assumption

theorem Reached.wellFormed {stage : Stage} {run : Run} (h : Reached bus d c stage run) : run.store.WellFormed := by
  refine h.store_induct (FactBase.wellFormed_ofAsserted d.triples) ?_
  intro a b t now store _ _ _ hi hw
  exact FactBase.wellFormed_insert? hw hi

/-! ## The last sweep -/

/-- a sweep that adds no fact applies every rule to the same facts -/
theorem Reached.idle_apply {run last : Run} (h : Reached bus d c .sweep run) (hs : run.sweep bus d.rules = .ok last)
    (hsize : last.store.size = run.store.size) {r : Rule × Nat} (hr : r ∈ d.rules.zipIdx) :
    ∃ size rules now next, Reached bus d c (.apply size (r :: rules)) now ∧ now.store = run.store ∧
      now.context.registry = run.context.registry ∧ now.apply bus r.2 r.1 = .ok next ∧
      next.store.size = now.store.size := by
  obtain ⟨done, left, now, next, hrules, hdone, happly, hstore, hregistry, hnext⟩ :=
    foldlM_idle (apply_before bus) hs hsize hr
  have hsweep := h.sweep
  rw [hrules] at hsweep
  exact ⟨_, left, now, next, hsweep.applies _ hdone, hstore, hregistry, happly, hnext⟩

/-- an application that adds no fact fires its rule under every solution with the same facts -/
theorem Reached.idle_fire {size : Nat} {r : Rule × Nat} {rules : List (Rule × Nat)} {run last : Run}
    (h : Reached bus d c (.apply size (r :: rules)) run) (hs : run.apply bus r.2 r.1 = .ok last)
    (hsize : last.store.size = run.store.size) {b : Bindings} (hb : b ∈ Application.solutions ⟨r.1, r.2, run⟩) :
    ∃ found now next, Reached bus d c (.fire size rules ⟨r.1, r.2, run⟩ (b :: found)) now ∧ now.store = run.store ∧
      now.fire bus r.2 r.1 run.context.registry b = .ok next ∧ next.store.size = now.store.size := by
  rw [apply_eq] at hs
  obtain ⟨done, left, now, next, hfound, hdone, hfire, hstore, -, hnext⟩ :=
    foldlM_idle (fire_before bus r.2 r.1 run.context.registry) hs hsize hb
  have hsolutions := h.solutions
  simp only [Application.solutions, Application.registry, hfound] at hsolutions
  exact ⟨left, now, next, hsolutions.fires _ hdone, hstore, hfire, hnext⟩

/-- firing a rule without adding a fact comes by every conclusion with the same facts -/
theorem Reached.idle_conclude {size : Nat} {rules : List (Rule × Nat)} {a : Application} {b : Bindings}
    {found : List Bindings} {run last : Run} (h : Reached bus d c (.fire size rules a (b :: found)) run)
    (hs : run.fire bus a.index a.rule a.registry b = .ok last) (hsize : last.store.size = run.store.size)
    (hc : confirmed a.registry a.rule.antecedent.triples b = true) {p : Triple}
    (hp : p ∈ a.rule.consequent.triples) :
    ∃ now next, a.Concludes bus d c b (p.instantiate b) now ∧ now.store = run.store ∧
      now.conclude bus a.index a.rule b (p.instantiate b) = .ok next ∧ next.store.size = now.store.size := by
  simp only [Run.fire, hc, if_true] at hs
  obtain ⟨done, left, now, next, hts, hdone, hconclude, hstore, -, hnext⟩ :=
    foldlM_idle (conclude_before bus a.index a.rule b) hs hsize (List.mem_map_of_mem hp)
  have hconfirm := h.confirm hc
  rw [hts] at hconfirm
  exact ⟨now, next, ⟨_, _, _, _, hconfirm.concludes _ hdone⟩, hstore, hconclude, hnext⟩

/-- a sweep that adds no fact comes by all consequences of the facts, and by each with those facts in store -/
theorem Reached.idle {run last : Run} (h : Reached bus d c .sweep run) (hs : run.sweep bus d.rules = .ok last)
    (hsize : last.store.size = run.store.size) {t : Triple}
    (ht : t ∈ consequences run.context.registry d.rules run.store.triples) :
    ∃ (a : Application) (b : Bindings) (now next : Run), a.Concludes bus d c b t now ∧ now.store = run.store ∧
      now.conclude bus a.index a.rule b t = .ok next ∧ next.store.size = now.store.size := by
  obtain ⟨r, hr, b, hb, hc, p, hp, rfl⟩ := mem_consequences.1 ht
  rw [← List.zipIdx_map_fst 0 d.rules] at hr
  obtain ⟨r, hlisted, rfl⟩ := List.mem_map.1 hr
  obtain ⟨size, rules, start, done, hstart, hstore, hregistry, happly, hdone⟩ := h.idle_apply hs hsize hlisted
  rw [← hstore, ← hregistry] at hb
  rw [← hregistry] at hc
  obtain ⟨found, mid, next, hmid, hmidstore, hfire, hnext⟩ := hstart.idle_fire happly hdone hb
  obtain ⟨now, next, hconcludes, hnowstore, hconclude, hnext⟩ := hmid.idle_conclude hfire hnext hc hp
  have hnow : now.store = run.store := by rw [hnowstore, hmidstore, hstore]
  exact ⟨⟨r.1, r.2, start⟩, b, now, next, hconcludes, hnow, hconclude, hnext⟩

end Points

/-! ## A small document -/

/-- who knows somebody else is known by them -/
def Document.acquaintances : Document where
  triples := [⟨.iri "ann", .iri "knows", .iri "bob"⟩, ⟨.iri "ann", .iri "knows", .iri "ann"⟩]
  rules := [⟨⟨[⟨.var "x", .iri "knows", .var "y"⟩, ⟨.var "x", .iri (logNamespace ++ "notEqualTo"), .var "y"⟩], []⟩,
    ⟨[⟨.var "y", .iri "knows", .var "x"⟩], []⟩⟩]

end N3Rules
