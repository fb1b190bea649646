/-
The lines of a report: how they come to be more than the facts.

A fact is written on one line if no name in it, no datatype and no language has a line feed. Names are not escaped, so
the number of lines that are printed is the number of facts just where no fact has such a name. Rules make up no names,
and reading keeps line feeds only in quotes and references. So a fact that is broken over lines goes back to a line feed
there.

- `Reached.verbatim`: at every point of a run, what is written of the facts as it stands is there in the document;
- `Report.count_newline_lines`: how many lines are printed;
- `Report.Lined`, `report_lined`: when each fact is on a line of its own, and where other line feeds come from.
-/
import N3Rules.CommandLine
import N3Rules.Proofs.Engine.Notices
import N3Rules.Proofs.Notation.Verbatim
import N3Rules.Proofs.Run.Monotone
import N3Rules.Proofs.Run.Termination

namespace N3Rules

open Text

/-! ## Runs make up no names -/

/-- the values of a solution have what the facts have -/
theorem verbatim_of_isPartOf {d : Document} {data : List Triple} (h : ∀ t ∈ data, t.verbatim ⊆ d.verbatim) {v : Term}
    (hv : IsPartOf data v) : v.verbatim ⊆ d.verbatim := by
  obtain ⟨t, ht, hv⟩ := hv
  exact List.Subset.trans (Triple.verbatim_of_mem_parts hv) (h t ht)

/-- what a rule concludes has what the rule has, and what the facts have -/
theorem verbatim_of_solution {d : Document} {data : List Triple} (h : ∀ t ∈ data, t.verbatim ⊆ d.verbatim) {r : Rule}
    (hr : r ∈ d.rules) {registry : Registry} {b : Bindings} (hb : b ∈ solutions data registry r.antecedent.triples {})
    {p : Triple} (hp : p ∈ r.consequent.triples) : (p.instantiate b).verbatim ⊆ d.verbatim := by
  intro c hc
  rcases Triple.verbatim_instantiate b c p hc with hc | ⟨name, value, hv, hc⟩
  · refine List.mem_append_right _ (List.mem_flatMap.2 ⟨r, hr, ?_⟩)
    rw [Formula.verbatim_eq]
    exact Triple.mem_allVerbatim.2 ⟨p, hp, hc⟩
  · rcases (solutions_grow hb).find? hv with hempty | hpart
    · cases hempty
    · exact verbatim_of_isPartOf h hpart hc

/-- at every point of a run, all that is written of the facts as it stands is there in the document -/
theorem Reached.verbatim {bus : Bus} {d : Document} {c : Context} {stage : Stage} {run : Run}
    (h : Reached bus d c stage run) : ∀ t ∈ run.store.triples, t.verbatim ⊆ d.verbatim := by
  refine h.store_induct (P := fun s => ∀ t ∈ s.triples, t.verbatim ⊆ d.verbatim) ?_ ?_
  · intro t ht
    obtain ⟨f, hf, rfl⟩ := FactBase.mem_triples.1 ht
    intro c hc
    exact List.mem_append_left _ (Triple.mem_allVerbatim.2 ⟨f.triple, (FactBase.mem_ofAsserted hf).2, hc⟩)
  · intro a b t now s hc _ _ hi hnow u hu
    rw [FactBase.triples_of_insert? hi, List.mem_append, List.mem_singleton] at hu
    rcases hu with hu | rfl
    · exact hnow u hu
    · have hconcluding := hc.concluding
      obtain ⟨p, hp, rfl⟩ := hconcluding.given
      refine verbatim_of_solution ?_ hconcluding.listed hconcluding.solution hp
      intro v hv
      exact hnow v (hconcluding.since.triples hv)

/-! ## Lines -/

/-- there are as many lines as facts, and one more for each line feed inside a fact -/
theorem Report.count_newline_lines (r : Report) :
    r.lines.toList.count '\n' = r.triples.length + (r.triples.map fun line => line.toList.count '\n').sum := by
  unfold Report.lines
  induction r.triples with
  | nil => rfl
  | cons line lines ih =>
    rw [String.toList_join] at ih ⊢
    simp only [List.map_cons, List.flatMap_cons, List.count_append, String.toList_append, ih, List.length_cons,
      List.sum_cons]
    have hend : "\n".toList.count '\n' = 1 := by decide
    omega

theorem Report.count_lines_eq_iff (r : Report) :
    r.lines.toList.count '\n' = r.triples.length ↔ ∀ line ∈ r.triples, '\n' ∉ line.toList := by
  rw [Report.count_newline_lines, Nat.add_eq_left, List.sum_eq_zero_iff]
  simp [List.count_eq_zero]

/-- what is printed of a document whose facts are these: when there is a line for each of them, and where line feeds in
them come from -/
structure Report.Lined (d : Document) (facts : List Triple) (r : Report) : Prop where
  triples : r.triples = facts.map Triple.text
  /-- a fact is broken over lines if a name has a line feed -/
  whole : (∀ line ∈ r.triples, '\n' ∉ line.toList) ↔ ∀ t ∈ facts, '\n' ∉ t.verbatim
  /-- and only then are there more lines than facts -/
  counted : ∀ q : Request, q.json = false →
    ((q.outcome (.report r)).output.toList.count '\n' = facts.length ↔ ∀ t ∈ facts, '\n' ∉ t.verbatim)
  /-- a line feed in a name of a stated fact is always printed -/
  stated : '\n' ∈ Triple.allVerbatim d.triples → ∃ t ∈ facts, '\n' ∈ t.verbatim
  /-- rules make up no names -/
  drawn : ∀ t ∈ facts, t.verbatim ⊆ d.verbatim
  /-- reading makes up none, and keeps line feeds only in quotes and references -/
  read : ∀ text, Document.ofText text = .ok { d with builtins := [] } → ∀ t ∈ facts, '\n' ∈ t.verbatim →
    ∃ u v, text.toList = u ++ '\n' :: v ∧ (Layout.plain.after (some '\n') u).keepsBlanks = true

/-- a line feed in a document that was read was kept in a quote or a reference of the text -/
theorem Document.newline_of_ofText {d : Document} {text : String}
    (h : Document.ofText text = .ok { d with builtins := [] }) (hd : '\n' ∈ d.verbatim) :
    ∃ u v, text.toList = u ++ '\n' :: v ∧ (Layout.plain.after (some '\n') u).keepsBlanks = true := by
  rcases List.mem_append.1 (Document.verbatim_of_ofText h hd) with hcompact | hstop
  · exact blank_of_mem_compact (by decide) (by decide) hcompact
  · exact absurd hstop (by decide)

/-- **A line for each fact.** When an engine has run its rules, it prints a line for each fact just where no fact has a
name with a line feed in it, and else more lines than facts. Such a name is one of the document, and stands in a quote or
a reference of its text. -/
theorem report_lined {limit : Nat} {e e' : Engine} {r : Report} (h : e.reason? limit = some (e', .report r)) :
    ∃ d facts, e.state.runnable? = some d ∧ r.Lined d facts := by
  cases reason?_cases h with
  | @finished d run n hrunnable hrun =>
    obtain ⟨cs, htally, -⟩ := Run.ofDocument?_accounts hrun
    obtain ⟨-, prev, last, hprev, hsweep, -, rfl⟩ := Reached.ofDocument?_ok hrun
    have hreached := hprev.sweeps hsweep
    have htriples := (htally.report n).1
    have hwhole : (∀ line ∈ (Report.ofRun (e.rebuild.equip d) (last.finish e.bus) n).triples, '\n' ∉ line.toList) ↔
        ∀ t ∈ last.store.triples, '\n' ∉ t.verbatim := by
      rw [htriples]
      simp [Triple.text, Triple.newline_mem_chars, Run.finish]
    refine ⟨d, last.store.triples, hrunnable, htriples, hwhole, ?_, ?_, hreached.verbatim, ?_⟩
    · intro q hq
      have hlength := congrArg List.length htriples
      rw [List.length_map] at hlength
      rw [Request.outcome, hq, ← hwhole, ← Report.count_lines_eq_iff, hlength]
      rfl
    · intro hstated
      obtain ⟨t, ht, hnewline⟩ := Triple.mem_allVerbatim.1 hstated
      have hcontains := hreached.contains (t := t) ht
      obtain ⟨u, hu, hkey⟩ := hreached.wellFormed.contains_iff.1 hcontains
      have hkeys : u.keyChars = t.keyChars := String.ofList_injective hkey
      rw [← Triple.newline_mem_keyChars, ← hkeys, Triple.newline_mem_keyChars] at hnewline
      exact ⟨u, hu, hnewline⟩
    · intro text htext t ht hnewline
      exact Document.newline_of_ofText htext (hreached.verbatim t ht hnewline)

/-! ## Broken lines -/

/-- an engine that has loaded a text, if the text is a document -/
def Engine.holding (text : String) : Engine :=
  ((({} : Engine).perform? 0 (.load text)).map Prod.fst).getD {}

/-- the lines that a reply reports -/
def Reply.lines? : Reply → Option (List String)
  | .report r => some r.triples
  | _ => none

theorem Engine.report_of_lines (e : Engine) (limit : Nat) (lines : List String)
    (h : (e.reason? limit).any (fun reply => reply.2.lines? = some lines) = true) :
    ∃ e' r, e.reason? limit = some (e', .report r) ∧ r.triples = lines := by
  obtain ⟨⟨e', reply⟩, hreason, hlines⟩ := (Option.any_eq_true _ _).1 h
  have hlines : reply.lines? = some lines := of_decide_eq_true hlines
  cases reply with
  | report r => exact ⟨e', r, hreason, Option.some.inj hlines⟩
  | _ => cases hlines

/-- a namespace with a line feed in its IRI, which a rule has in its conclusion -/
def brokenNamespaceText : String :=
  "@prefix e: <e\nf#> . <a> <p> \"x\ny\" .\n\x7b?s <p> ?o\x7d => \x7b(?s) e:q ?o\x7d ."

/-- the line feed of the literal is escaped, and that of the namespace breaks the line of the conclusion -/
theorem broken_conclusion_lined : ∃ e' r d facts,
    (Engine.holding brokenNamespaceText).reason? 3 = some (e', .report r) ∧
    r.triples = ["<a> <p> \"x\\ny\" .", "(<a>) <e\nf#q> \"x\\ny\" ."] ∧
    (Engine.holding brokenNamespaceText).state.runnable? = some d ∧ r.Lined d facts := by
  obtain ⟨e', r, hreason, hlines⟩ := Engine.report_of_lines (.holding brokenNamespaceText) 3
    ["<a> <p> \"x\\ny\" .", "(<a>) <e\nf#q> \"x\\ny\" ."] (by decide +kernel)
  obtain ⟨d, facts, hd, hlined⟩ := report_lined hreason
  exact ⟨e', r, d, facts, hreason, hlines, hd, hlined⟩

/-- a fact with a line feed in its subject -/
def brokenText : String :=
  "<a\nb> <p> <o> ."

/-- the one fact of the text is reported with a line feed in it, and two lines are printed -/
theorem fact_on_two_lines :
    (∃ e' r, (Engine.holding brokenText).reason? 1 = some (e', .report r) ∧ r.triples = ["<a\nb> <p> <o> ."] ∧
      (∃ line ∈ r.triples, '\n' ∈ line.toList) ∧ r.lines.toList.count '\n' = 2 ∧ r.triples.length = 1) ∧
    answer? 1 ["facts.n3"] (fun _ => some (brokenText.toList.map fun c => c.toNat.toUInt8)) = some
      ⟨.success, "<a\nb> <p> <o> .\n", "Reasoning complete: 1 triples (0 inferred) after 1 sweeps"⟩ := by
  obtain ⟨e', r, hreason, hlines⟩ := Engine.report_of_lines (.holding brokenText) 1 ["<a\nb> <p> <o> ."] (by decide +kernel)
  refine ⟨⟨e', r, hreason, hlines, ?_, ?_, ?_⟩, by decide +kernel⟩
  · rw [hlines]
    exact ⟨_, List.mem_singleton_self _, by decide⟩
  · rw [Report.lines, hlines]
    decide
  · rw [hlines]
    rfl

end N3Rules
