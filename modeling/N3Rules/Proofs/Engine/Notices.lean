/-
What subscribers are told of a run, and how it accords with what the run stores and reports.

A run gives a notice at its start, one for each fact that it concludes, in the order in which they are stored, and one
at its end if it comes to it. Each notice reaches all subscribers to its occasion, in the order in which they
subscribed, whatever they do and however they end.

- `Bus.delivery`: what a notice leaves in the log;
- `Log.Tells`: a log goes on with the deliveries of some notices, and with calls of builtins in between;
- `Tally`: facts are what a document states, and after it some conclusions from its rules, each new when it came;
- `Reached.tally`: at every point of a run the conclusions told of are those that are stored;
- `reason_notices`: what an engine tells and reports when it runs its rules.
-/
import N3Rules.Proofs.Engine.Held

namespace N3Rules

/-! ## Deliveries -/

/-- whether an entry is a notice, given or received -/
def Entry.isNotice : Entry → Bool
  | .announced _ | .heard .. => true
  | _ => false

/-- what a notice leaves in the log: that it is given, and that each subscriber to its occasion receives it -/
def Bus.delivery (bus : Bus) (notice : Notice) : List Entry :=
  .announced notice :: (bus.audience notice.occasion).map fun s => .heard s.name notice

/-- what a log has more than another of notices are the deliveries of these, one after the other -/
def Log.Tells (bus : Bus) (before after : Log) (notices : List Notice) : Prop :=
  ∃ entries, after.toList = before.toList ++ entries ∧
    entries.filter Entry.isNotice = notices.flatMap bus.delivery

section Deliveries

variable {bus : Bus}

theorem Log.Tells.trans {log log' log'' : Log} {ns ns' : List Notice} (h : log.Tells bus log' ns)
    (h' : log'.Tells bus log'' ns') : log.Tells bus log'' (ns ++ ns') := by
  obtain ⟨entries, hlog, hns⟩ := h
  obtain ⟨entries', hlog', hns'⟩ := h'
  refine ⟨entries ++ entries', ?_, ?_⟩
  · rw [hlog', hlog, List.append_assoc]
  · rw [List.filter_append, hns, hns', List.flatMap_append]

/-- subscribers note nothing but that they received the notice, whatever they do -/
theorem Context.log_foldl_hear (notice : Notice) (audience : List Subscriber) (c : Context) :
    (audience.foldl (Context.hear notice) c).log.toList =
      c.log.toList ++ audience.map fun s => .heard s.name notice := by
  induction audience generalizing c with
  | nil => simp
  | cons s audience ih =>
    rw [List.foldl_cons, ih]
    simp [Context.hear, Context.record]

theorem Bus.log_announce (bus : Bus) (notice : Notice) (c : Context) :
    (bus.announce notice c).log.toList = c.log.toList ++ bus.delivery notice := by
  rw [Bus.announce, Context.log_foldl_hear]
  simp [Context.record, Bus.delivery]

theorem Bus.announce_tells (bus : Bus) (notice : Notice) (c : Context) :
    c.log.Tells bus (bus.announce notice c).log [notice] := by
  refine ⟨bus.delivery notice, bus.log_announce notice c, ?_⟩
  rw [List.flatMap_singleton, List.filter_eq_self]
  intro entry hentry
  rcases List.mem_cons.1 hentry with rfl | hentry
  · rfl
  · obtain ⟨s, -, rfl⟩ := List.mem_map.1 hentry
    rfl

/-- calls of builtins are no notices -/
theorem Run.recordCalls_tells (run : Run) (calls : List Call) :
    run.context.log.Tells bus (run.recordCalls calls).context.log [] := by
  refine ⟨calls.map .called, by simp [Run.recordCalls, Context.record], ?_⟩
  rw [List.flatMap_nil, List.filter_eq_nil_iff]
  intro entry hentry
  obtain ⟨call, -, rfl⟩ := List.mem_map.1 hentry
  simp [Entry.isNotice]

end Deliveries

/-! ## Conclusions -/

/-- a triple that a rule gives under bindings -/
structure Conclusion where
  rule : Rule
  triple : Triple
  bindings : Bindings

def Conclusion.notice (c : Conclusion) : Notice :=
  .afterRuleApplied c.rule c.triple c.bindings

/-- the rule is one of a document's, and the triple is an instance of a pattern in its consequent, without variables -/
structure Conclusion.DrawnFrom (d : Document) (c : Conclusion) : Prop where
  listed : c.rule ∈ d.rules
  given : ∃ p ∈ c.rule.consequent.triples, c.triple = p.instantiate c.bindings
  ground : c.triple.isGround = true

/-- facts are the first triple of each key that a document states, and after them conclusions from its rules, in order;
and each of them was new when it came -/
structure Tally (d : Document) (facts : FactBase) (cs : List Conclusion) : Prop where
  stored : facts.triples = (d.triples.eraseDupsBy fun t u => t.key == u.key) ++ cs.map (·.triple)
  inferred : facts.inferred = cs.map (·.triple)
  distinct : (facts.triples.map Triple.key).Nodup
  drawn : ∀ c ∈ cs, c.DrawnFrom d

theorem FactBase.inferred_of_insert? {s s' : FactBase} {t : Triple} (h : s.insert? t .inferred = some s') :
    s'.inferred = s.inferred ++ [t] := by
  rw [FactBase.inferred, FactBase.facts_of_insert? h]
  simp [FactBase.inferred]

theorem Tally.ofAsserted (d : Document) : Tally d (.ofAsserted d.triples) [] := by
  refine ⟨?_, FactBase.inferred_ofAsserted d.triples, (FactBase.wellFormed_ofAsserted d.triples).distinct, ?_⟩
  · rw [FactBase.ofAsserted_firsts, List.map_nil, List.append_nil]
  · simp

/-- one more conclusion that is stored, and drawn from the document -/
theorem Tally.insert? {d : Document} {facts facts' : FactBase} {cs : List Conclusion} {c : Conclusion}
    (h : Tally d facts cs) (hw : facts.WellFormed) (hi : facts.insert? c.triple .inferred = some facts')
    (hc : c.DrawnFrom d) : Tally d facts' (cs ++ [c]) := by
  refine ⟨?_, ?_, (FactBase.wellFormed_insert? hw hi).distinct, ?_⟩
  · rw [FactBase.triples_of_insert? hi, h.stored, List.map_append, List.append_assoc]
    rfl
  · rw [FactBase.inferred_of_insert? hi, h.inferred, List.map_append]
    rfl
  · intro c' hc'
    rcases List.mem_append.1 hc' with hc' | hc'
    · exact h.drawn c' hc'
    · rwa [List.mem_singleton.1 hc']

theorem Tally.size_eq {d : Document} {facts : FactBase} {cs : List Conclusion} (h : Tally d facts cs) :
    facts.size = (FactBase.ofAsserted d.triples).size + cs.length := by
  rw [← FactBase.length_triples, ← FactBase.length_triples, h.stored, FactBase.ofAsserted_firsts, List.length_append,
    List.length_map]

/-! ## Runs -/

section Run

variable {bus : Bus} {d : Document} {c : Context}

/-- what a run stored and told: as many conclusions in the facts as in the log -/
structure Run.Accounts (bus : Bus) (d : Document) (c : Context) (run : Run) (cs : List Conclusion) : Prop where
  tally : Tally d run.store cs
  told : c.log.Tells bus run.context.log (.beforeReason d :: cs.map Conclusion.notice)

theorem Run.Accounts.recordCalls {run : Run} {cs : List Conclusion} (h : run.Accounts bus d c cs)
    (calls : List Call) : (run.recordCalls calls).Accounts bus d c cs := by
  refine ⟨h.tally, ?_⟩
  have htold := h.told.trans (run.recordCalls_tells calls)
  rwa [List.append_nil] at htold

/-- a conclusion is stored and told, or neither -/
theorem Reached.accounts {stage : Stage} {run : Run} (h : Reached bus d c stage run) :
    ∃ cs, run.Accounts bus d c cs := by
  induction h with
  | start => exact ⟨[], Tally.ofAsserted d, bus.announce_tells _ c⟩
  | apply _ _ ih =>
    obtain ⟨cs, hcs⟩ := ih
    exact ⟨cs, hcs.recordCalls _⟩
  | reject _ _ ih =>
    obtain ⟨cs, hcs⟩ := ih
    exact ⟨cs, hcs.recordCalls _⟩
  | confirm _ _ ih =>
    obtain ⟨cs, hcs⟩ := ih
    exact ⟨cs, hcs.recordCalls _⟩
  | @conclude _ _ a _ b t _ run next hreached hconclude ih =>
    obtain ⟨cs, hcs⟩ := ih
    have hcases := conclude_cases bus a.index a.rule b run t
    rw [hconclude] at hcases
    cases hcases with
    | skipped => exact ⟨cs, hcs⟩
    | known => exact ⟨cs, hcs⟩
    | stored hg _ hi =>
      have hc : a.Concluding bus d c b t run := Application.Concludes.concluding ⟨_, _, _, _, hreached⟩
      refine ⟨cs ++ [⟨a.rule, t, b⟩], hcs.tally.insert? hreached.wellFormed hi ⟨hc.listed, hc.given, hg⟩, ?_⟩
      have htold := hcs.told.trans (bus.announce_tells (.afterRuleApplied a.rule t b) run.context)
      simpa [Conclusion.notice] using htold
  | _ => assumption

/-- every sweep but the last stores something -/
theorem saturate?_sweeps {rules : List Rule} {limit n : Nat} {run last : Run}
    (h : saturate? bus rules limit run = some (.ok (last, n))) :
    1 ≤ n ∧ n + run.store.size ≤ last.store.size + 1 := by
  induction limit generalizing run n with
  | zero => cases h
  | succ limit ih =>
    simp only [saturate?] at h
    split at h
    · cases h
    · rename_i next hsweep
      have hle := (sweep_before hsweep).size_le
      split at h
      · cases h
        omega
      · obtain ⟨r, hr, hmap⟩ := Option.map_eq_some_iff.1 h
        cases r with
        | error s => cases hmap
        | ok r =>
          cases hmap
          have := ih hr
          omega

theorem Run.ofDocument?_sweeps {limit n : Nat} {run : Run}
    (h : Run.ofDocument? bus limit d c = some (.ok (run, n))) :
    1 ≤ n ∧ n + (FactBase.ofAsserted d.triples).size ≤ run.store.size + 1 := by
  obtain ⟨r, hr, hmap⟩ := Option.map_eq_some_iff.1 h
  cases r with
  | error s => cases hmap
  | ok r =>
    cases hmap
    exact saturate?_sweeps hr

/-- a run that comes to its end tells of it after all conclusions, and has at most one sweep more than these -/
theorem Run.ofDocument?_accounts {limit n : Nat} {run : Run}
    (h : Run.ofDocument? bus limit d c = some (.ok (run, n))) :
    ∃ cs, Tally d run.store cs ∧ c.log.Tells bus run.context.log
      (.beforeReason d :: cs.map Conclusion.notice ++ [.afterReason run.store]) ∧ 1 ≤ n ∧ n ≤ cs.length + 1 := by
  obtain ⟨hpos, hle⟩ := Run.ofDocument?_sweeps h
  obtain ⟨-, prev, last, hprev, hsweep, -, rfl⟩ := Reached.ofDocument?_ok h
  obtain ⟨cs, hcs⟩ := (hprev.sweeps hsweep).accounts
  refine ⟨cs, hcs.tally, hcs.told.trans (bus.announce_tells _ last.context), hpos, ?_⟩
  have hsize : (last.finish bus).store.size = _ := hcs.tally.size_eq
  omega

theorem Run.ofDocument?_accounts_error {limit : Nat} {s : Stopped}
    (h : Run.ofDocument? bus limit d c = some (.error s)) : ∃ cs, s.run.Accounts bus d c cs := by
  obtain ⟨a, b, t, hconcludes, -⟩ := Reached.ofDocument?_error h
  obtain ⟨stage, hreached⟩ := hconcludes.concluding.reached
  exact hreached.accounts

end Run

/-! ## Reports -/

/-- triples with different keys are all reported -/
theorem unrepeated_of_nodup {ts : List Triple} (h : (ts.map Triple.key).Nodup) {seen : Std.TreeSet String}
    (hseen : ∀ t ∈ ts, seen.contains t.key = false) : unrepeated seen ts = ts := by
  induction ts generalizing seen with
  | nil => rfl
  | cons t ts ih =>
    rw [List.map_cons, List.nodup_cons] at h
    rw [unrepeated, hseen t List.mem_cons_self, if_neg Bool.false_ne_true, ih h.2]
    intro u hu
    have hne : t.key ≠ u.key := fun heq => h.1 (heq ▸ List.mem_map_of_mem hu)
    rw [Std.TreeSet.contains_insert, hseen u (List.mem_cons_of_mem t hu)]
    simpa using hne

/-- the written form of a triple gives its key away -/
theorem Triple.key_eq_of_text {t u : Triple} (h : t.text = u.text) : t.key = u.key := by
  have hchars : t.chars = u.chars := String.ofList_injective h
  rw [Triple.key, Triple.key, List.append_cancel_right hchars]

theorem Triple.nodup_texts {ts : List Triple} (h : (ts.map Triple.key).Nodup) : (ts.map Triple.text).Nodup := by
  rw [List.Nodup, List.pairwise_map] at h ⊢
  exact h.imp fun hne htext => hne (Triple.key_eq_of_text htext)

theorem Tally.report {d : Document} {run : Run} {cs : List Conclusion} (h : Tally d run.store cs) (n : Nat) :
    (Report.ofRun d run n).triples = run.store.triples.map Triple.text ∧
      (Report.ofRun d run n).triples.Nodup ∧ (Report.ofRun d run n).inferred = cs.length := by
  have htriples : (Report.ofRun d run n).triples = run.store.triples.map Triple.text := by
    rw [Report.ofRun, unrepeated_of_nodup h.distinct (by simp)]
  refine ⟨htriples, ?_, ?_⟩
  · rw [htriples]
    exact Triple.nodup_texts h.distinct
  · simp [Report.ofRun, h.inferred]

/-! ## Engines -/

/-- **Notices.** An engine that runs its rules to the end tells that it starts, then each conclusion in the order in
which they are stored, each new and drawn from the document, and then all facts. It reports just these facts, each once,
the stated ones first, with the number of the conclusions, and it has at most one sweep more than these. An engine that
stops before tells the conclusions that it came to, and no end. -/
theorem reason_notices (limit : Nat) (e : Engine) :
    (∀ e' r, e.reason? limit = some (e', .report r) →
      ∃ d facts cs, e.state.runnable?.map e.rebuild.equip = some d ∧ e'.state = .done d ∧ Tally d facts cs ∧
        e.context.log.Tells e.bus e'.context.log
          (.beforeReason d :: cs.map Conclusion.notice ++ [.afterReason facts]) ∧
        r.triples = facts.triples.map Triple.text ∧ r.triples.Nodup ∧ r.inferred = cs.length ∧
        1 ≤ r.sweeps ∧ r.sweeps ≤ cs.length + 1) ∧
    ∀ e' f, e.reason? limit = some (e', .failure (.stopped f)) →
      ∃ d facts cs, e.state.runnable?.map e.rebuild.equip = some d ∧ e'.state = .failed d ∧ Tally d facts cs ∧
        e.context.log.Tells e.bus e'.context.log (.beforeReason d :: cs.map Conclusion.notice) := by
  constructor
  · intro e' r h
    cases reason?_cases h with
    | @finished d run n hrunnable hrun =>
      obtain ⟨cs, htally, htold, hpos, hle⟩ := Run.ofDocument?_accounts hrun
      obtain ⟨htriples, hnodup, hinferred⟩ := htally.report n
      exact ⟨_, run.store, cs, by rw [hrunnable]; rfl, rfl, htally, htold, htriples, hnodup, hinferred, hpos, hle⟩
  · intro e' f h
    cases reason?_cases h with
    | refused hr => cases hr
    | @stopped d s hrunnable hrun =>
      obtain ⟨cs, haccounts⟩ := Run.ofDocument?_accounts_error hrun
      exact ⟨_, s.run.store, cs, by rw [hrunnable]; rfl, rfl, haccounts.tally, haccounts.told⟩

/-- an engine with subscribers of which one registers a builtin and fails, and another breaks down -/
def Engine.restless (d : Document) : Engine where
  state := .ready d
  bus := ⟨[⟨.afterRuleApplied, "first", fun _ _ _ => ⟨[⟨"late", .unary, none, fun _ => none⟩], .failed⟩⟩,
    ⟨.afterReason, "last", fun _ _ _ => {}⟩, ⟨.afterRuleApplied, "second", fun _ _ _ => ⟨[], .crashed⟩⟩]⟩

/-- the acquaintances, and a rule whose conclusions have a literal where a predicate should be -/
def Document.misworded : Document :=
  { Document.acquaintances with
    rules := Document.acquaintances.rules ++
      [⟨⟨[⟨.var "x", .iri "knows", .var "y"⟩], []⟩,
        ⟨[⟨.var "x", .literal "meets" none none, .var "y"⟩], []⟩⟩] }

/-- how many conclusions a reply reports -/
def Reply.inferred? : Reply → Option Nat
  | .report r => some r.inferred
  | _ => none

/-- whether a reply tells that a run stopped -/
def Reply.isStop : Reply → Bool
  | .failure (.stopped _) => true
  | _ => false

/-- one acquaintance is concluded and told of, also where the next rule stops the run -/
theorem acquaintances_noticed :
    (∃ e' r d facts cs, (Engine.restless .acquaintances).reason? 2 = some (e', .report r) ∧ Tally d facts cs ∧
      Log.Tells (Engine.restless .acquaintances).bus #[] e'.context.log
        (.beforeReason d :: cs.map Conclusion.notice ++ [.afterReason facts]) ∧
      cs.length = 1 ∧ r.sweeps ≤ 2) ∧
    ∃ e' f d facts cs, (Engine.restless .misworded).reason? 2 = some (e', .failure (.stopped f)) ∧ Tally d facts cs ∧
      Log.Tells (Engine.restless .misworded).bus #[] e'.context.log (.beforeReason d :: cs.map Conclusion.notice) := by
  have hends : ((Engine.restless .acquaintances).reason? 2).any (fun r => r.2.inferred? = some 1) = true := by
    decide +kernel
  have hstops : ((Engine.restless .misworded).reason? 2).any (fun r => r.2.isStop) = true := by
    decide +kernel
  constructor
  · obtain ⟨⟨e', reply⟩, hreason, hone⟩ := (Option.any_eq_true _ _).1 hends
    have hone : reply.inferred? = some 1 := of_decide_eq_true hone
    cases reply with
    | report r =>
      obtain ⟨d, facts, cs, -, -, htally, htold, -, -, hinferred, -, hle⟩ := (reason_notices 2 _).1 _ _ hreason
      have hlength : cs.length = 1 := hinferred.symm.trans (Option.some.inj hone)
      exact ⟨_, _, d, facts, cs, hreason, htally, htold, hlength, by omega⟩
    | _ => cases hone
  · obtain ⟨⟨e', reply⟩, hreason, hstop⟩ := (Option.any_eq_true _ _).1 hstops
    simp only [Reply.isStop] at hstop
    split at hstop
    · obtain ⟨d, facts, cs, -, -, htally, htold⟩ := (reason_notices 2 _).2 _ _ hreason
      exact ⟨_, _, d, facts, cs, hreason, htally, htold⟩
    · cases hstop

end N3Rules
