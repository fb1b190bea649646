/-
What is read in a scope depends on what the scope says, and not on how it came to say it.

Two scopes are alike when they have the same base and the same namespaces, whatever the order of their entries. All that
is read in one is then read alike in the other. Declarations of different subjects may be made in any order, so one of
them may be moved past the others.

- `Directive.subject`, `Scope.Alike`: what a directive is about, and scopes that say the same;
- `Scope.alike_moved`: a directive whose subject no other has may stand anywhere among them;
- `Term.read_alike`, `Item.read_alike`, `RuleText.read_alike`: reading in scopes that are alike;
- `Document.ofParts`: the document of statements and rules, from which the text is gone;
- `Document.ofParts_moved`: in it a directive may stand anywhere among the statements.
-/
import N3Rules.Proofs.Notation.Documents

namespace N3Rules

open Text

/-! ## Scopes -/

/-- what a directive is about: a label, or none for the base -/
def Directive.subject : Directive → Option String
  | .label name _ => some name
  | .base _ => none

/-- two scopes say the same -/
structure Scope.Alike (s s' : Scope) : Prop where
  base : s.base = s'.base
  namespaces : ∀ label, s.namespace? label = s'.namespace? label

theorem Scope.Alike.refl (s : Scope) : s.Alike s := ⟨rfl, fun _ => rfl⟩

theorem Scope.Alike.symm {s s' : Scope} (h : s.Alike s') : s'.Alike s :=
  ⟨h.base.symm, fun label => (h.namespaces label).symm⟩

theorem Scope.Alike.trans {s s' s'' : Scope} (h : s.Alike s') (h' : s'.Alike s'') : s.Alike s'' :=
  ⟨h.base.trans h'.base, fun label => (h.namespaces label).trans (h'.namespaces label)⟩

/-- a label has the namespace that was declared last for it -/
theorem Scope.namespace?_declare (s : Scope) (label iri name : String) :
    (s.declare (.label label iri)).namespace? name = if name = label then some iri else s.namespace? name := by
  have hothers : name ≠ label →
      (s.labels.filter (·.1 != label)).lookup name = s.labels.lookup name := by
    intro hname
    induction s.labels with
    | nil => rfl
    | cons entry entries ih =>
      obtain ⟨key, value⟩ := entry
      by_cases hkey : key = label
      · have hdiffer : (name == key) = false := by simpa [hkey] using hname
        rw [List.filter_cons_of_neg (by simp [hkey]), ih, List.lookup_cons, hdiffer]
      · rw [List.filter_cons_of_pos (by simp [hkey]), List.lookup_cons, List.lookup_cons, ih]
  by_cases hname : name = label
  · simp [Scope.namespace?, Scope.declare, hname]
  · have hdiffer : (name == label) = false := by simpa using hname
    rw [if_neg hname, Scope.namespace?, Scope.declare, List.lookup_cons, hdiffer, hothers hname]
    rfl

theorem Scope.Alike.declare {s s' : Scope} (h : s.Alike s') (d : Directive) : (s.declare d).Alike (s'.declare d) := by
  cases d with
  | base iri => exact ⟨rfl, h.namespaces⟩
  | label label iri =>
    refine ⟨h.base, ?_⟩
    intro name
    rw [Scope.namespace?_declare, Scope.namespace?_declare, h.namespaces]

theorem Scope.Alike.declareAll {s s' : Scope} (h : s.Alike s') (ds : List Directive) :
    (ds.foldl Scope.declare s).Alike (ds.foldl Scope.declare s') := by
  induction ds generalizing s s' with
  | nil => exact h
  | cons d ds ih => exact ih (h.declare d)

/-- declarations of different subjects may be made in any order -/
theorem Scope.declare_declare {d d' : Directive} (h : d.subject ≠ d'.subject) (s : Scope) :
    ((s.declare d).declare d').Alike ((s.declare d').declare d) := by
  cases d with
  | base iri =>
    cases d' with
    | base iri' => exact absurd rfl h
    | label label iri' => exact .refl _
  | label label iri =>
    cases d' with
    | base iri' => exact .refl _
    | label label' iri' =>
      have hlabel : label ≠ label' := fun heq => h (congrArg some heq : some label = some label')
      refine ⟨rfl, ?_⟩
      intro name
      simp only [Scope.namespace?_declare]
      split_ifs with hname hname'
      · exact absurd (hname'.symm.trans hname) hlabel
      all_goals rfl

/-- a directive whose subject no other has may stand anywhere among them -/
theorem Scope.alike_moved {d : Directive} {ds : List Directive} (h : ∀ d' ∈ ds, d'.subject ≠ d.subject)
    (ds' : List Directive) :
    (Scope.ofDirectives (ds ++ d :: ds')).Alike (Scope.ofDirectives (d :: (ds ++ ds'))) := by
  suffices hmoved : ∀ s : Scope, (ds.foldl Scope.declare (s.declare d)).Alike ((ds.foldl Scope.declare s).declare d) by
    simp only [Scope.ofDirectives, List.foldl_append, List.foldl_cons]
    exact (hmoved {}).symm.declareAll ds'
  induction ds with
  | nil => exact fun s => .refl _
  | cons d' ds ih =>
    rw [List.forall_mem_cons] at h
    intro s
    exact ((Scope.declare_declare h.1.symm s).declareAll ds).trans (ih h.2 (s.declare d'))

/-! ## Reading -/

theorem mapM_congr {α β ε : Type} {f g : α → Except ε β} {l : List α} (hfg : ∀ a ∈ l, f a = g a) :
    l.mapM f = l.mapM g := by
  induction l with
  | nil => rfl
  | cons a l ih =>
    rw [List.forall_mem_cons] at hfg
    rw [List.mapM_cons, List.mapM_cons, hfg.1, ih hfg.2]

theorem ok_of_mapM {α β ε : Type} {f : α → Except ε β} {l : List α} {bs : List β} (hl : l.mapM f = .ok bs) :
    ∀ a ∈ l, ∃ b, f a = .ok b := by
  rw [mapM_eq_ok_iff] at hl
  induction hl with
  | nil => simp
  | cons hb _ ih =>
    rw [List.forall_mem_cons]
    exact ⟨⟨_, hb⟩, ih⟩

/-- a statement is read by its terms, none of which is longer -/
theorem Item.read_congr {s s' : Scope} {statement : List Char}
    (hterm : ∀ token : List Char, token.length ≤ statement.length → Term.read s token = Term.read s' token) :
    Item.read s statement = Item.read s' statement := by
  cases hclause : Clause.ofStatement statement with
  | declaration kind names =>
    rw [Item.read_declaration hclause, Item.read_declaration hclause,
      mapM_congr fun name hname => hterm name (length_le_of_declaration hclause hname)]
  | triple a b c =>
    obtain ⟨ha, hb, hc⟩ := length_le_of_triple hclause
    rw [Item.read_clause hclause, Item.read_clause hclause, hterm a ha, hterm b hb, hterm c hc]
  | other found => rw [Item.read_other hclause, Item.read_other hclause]

section Alike

variable {s s' : Scope} (h : s.Alike s')

include h

theorem Scope.Alike.iriOfName (name : List Char) : s.iriOfName name = s'.iriOfName name := by
  simp only [Scope.iriOfName, h.namespaces]

theorem Scope.Alike.iriOfReference (reference : List Char) : s.iriOfReference reference = s'.iriOfReference reference := by
  simp only [Scope.iriOfReference, h.base]

theorem readLiteral?_alike (rest : List Char) : readLiteral? s rest = readLiteral? s' rest := by
  have hdatatype : ∀ w, readDatatype? s w = readDatatype? s' w := by
    intro w
    simp only [readDatatype?, h.iriOfName, h.iriOfReference]
  have hsuffix : ∀ w, readSuffix? s w = readSuffix? s' w := by
    intro w
    unfold readSuffix?
    split <;> simp only [hdatatype]
  simp only [readLiteral?, hsuffix]

/-- what is inside of a token is shorter, so the induction is on its length -/
theorem Term.read_alike (token : List Char) : Term.read s token = Term.read s' token := by
  induction hn : token.length using Nat.strong_induction_on generalizing token with
  | _ n ih =>
    subst hn
    have hinside : ∀ u : List Char, u.length < (trim token).length → Term.read s u = Term.read s' u :=
      fun u hu => ih u.length (Nat.lt_of_lt_of_le hu (length_trim_le token)) u rfl
    cases hshape : Shape.ofToken (trim token) with
    | list inside =>
      have hlength := length_of_list_shape hshape
      rw [Term.read_list hshape, Term.read_list hshape, mapM_congr fun t ht =>
        hinside t (Nat.lt_of_le_of_lt (length_le_of_mem_tokens ht) hlength)]
    | formula inside =>
      have hlength := length_of_formula_shape hshape
      have hitems : Item.readAll s inside = Item.readAll s' inside := by
        rw [Item.readAll_eq, Item.readAll_eq]
        refine mapM_congr fun statement hstatement => Item.read_congr fun t ht => hinside t ?_
        exact Nat.lt_of_le_of_lt (Nat.le_trans ht (length_le_of_mem_statements hstatement)) hlength
      rw [Term.read_formula hshape, Term.read_formula hshape, hitems]
    | _ =>
      rw [Term.read, Term.read]
      split <;> simp_all [h.iriOfName, h.iriOfReference, readLiteral?_alike h]

theorem Item.read_alike (statement : List Char) : Item.read s statement = Item.read s' statement :=
  Item.read_congr fun token _ => Term.read_alike h token

theorem RuleText.read_alike (r : RuleText) : RuleText.read s r = RuleText.read s' r := by
  have hall : ∀ text, Item.readAll s text = Item.readAll s' text := by
    intro text
    rw [Item.readAll_eq, Item.readAll_eq, mapM_congr fun statement _ => Item.read_alike h statement]
  rw [RuleText.read, RuleText.read, hall, hall]

end Alike

/-! ## Documents -/

/-- the document of sentences and rules that stand in a scope -/
def Document.ofSentences (scope : Scope) (sentences : List (List Char)) (rules : List RuleText) :
    Except SyntaxError Document := do
  let items ← sentences.mapM (Item.read scope)
  let rules ← rules.mapM (RuleText.read scope)
  let (triples, rules') := liftRules (Item.triples items) (rules.map (·.1))
  let quantifiers := Item.quantifiers items ++ rules.flatMap (·.2)
  return { triples, rules := rules'.map (Rule.quantify quantifiers) }

/-- the document of statements and rules: the directives among the statements make the scope of the others -/
def Document.ofParts (statements : List (List Char)) (rules : List RuleText) : Except SyntaxError Document := do
  let lines ← statements.mapM fun s => (Directive.ofTokens (tokens s)).map fun d => (s, d)
  Document.ofSentences (Scope.ofDirectives (lines.filterMap (·.2))) ((lines.filter (·.2.isNone)).map (·.1)) rules

/-- a text is read by the statements and the rules that it is taken apart into -/
theorem Document.ofText_eq_ofParts (text : String) : Document.ofText text =
    takeRules (compact text.toList) >>= fun e => Document.ofParts (statements e.remainder) e.rules := by
  simp only [Document.ofText, Document.ofParts, Document.ofSentences, List.mapM_map]
  rfl

/-- a statement that begins like a directive and goes on in another way -/
def IsMalformed (statement : List Char) : Prop :=
  ∃ err, Directive.ofTokens (tokens statement) = .error err

/-- a document without malformed directives -/
theorem Document.ofParts_eq {ss : List (List Char)} (h : ∀ s ∈ ss, ¬IsMalformed s) (rules : List RuleText) :
    Document.ofParts ss rules = Document.ofSentences (Scope.ofDirectives (ss.filterMap directive?))
      (ss.filter fun s => (directive? s).isNone) rules := by
  have hlines : ss.mapM (fun s => (Directive.ofTokens (tokens s)).map fun d => (s, d)) =
      .ok (ss.map fun s => (s, directive? s)) := by
    rw [mapM_eq_ok_iff, List.forall₂_map_right_iff, List.forall₂_same]
    intro s hs
    cases hd : Directive.ofTokens (tokens s) with
    | error err => exact absurd ⟨err, hd⟩ (h s hs)
    | ok d =>
      rw [directive?, hd]
      rfl
  rw [Document.ofParts, hlines]
  change Document.ofSentences _ _ rules = _
  rw [List.filterMap_map, List.filter_map, List.map_map]
  exact congrArg (fun l => Document.ofSentences _ l rules) (List.map_id _)

/-- a malformed directive is refused wherever it stands -/
theorem Document.ofParts_malformed {ss : List (List Char)} {s : List Char} (hs : s ∈ ss) (h : IsMalformed s)
    (rules : List RuleText) : (Document.ofParts ss rules).toOption = none := by
  obtain ⟨err, herr⟩ := h
  cases hlines : ss.mapM (fun s => (Directive.ofTokens (tokens s)).map fun d => (s, d)) with
  | error err' =>
    rw [Document.ofParts, hlines]
    rfl
  | ok lines =>
    obtain ⟨line, hline⟩ := ok_of_mapM hlines s hs
    rw [herr] at hline
    cases hline

/-- sentences and rules are read alike in scopes that are alike -/
theorem Document.ofSentences_alike {s s' : Scope} (h : s.Alike s') (sentences : List (List Char))
    (rules : List RuleText) : Document.ofSentences s sentences rules = Document.ofSentences s' sentences rules := by
  simp only [Document.ofSentences, mapM_congr fun statement _ => Item.read_alike h statement,
    mapM_congr fun r _ => RuleText.read_alike h r]

/-- a directive whose subject no statement before it declares may stand before them all -/
theorem Document.ofParts_moved {s : List Char} {d : Directive} (hs : directive? s = some d) {ss : List (List Char)}
    (h : ∀ s' ∈ ss, ∀ d' ∈ directive? s', d'.subject ≠ d.subject) (ss' : List (List Char)) (rules : List RuleText) :
    (Document.ofParts (ss ++ s :: ss') rules).toOption = (Document.ofParts (s :: (ss ++ ss')) rules).toOption := by
  have hperm : ∀ s', s' ∈ ss ++ s :: ss' ↔ s' ∈ s :: (ss ++ ss') := by
    intro s'
    simp only [List.mem_append, List.mem_cons, or_left_comm]
  by_cases hall : ∀ s' ∈ ss ++ s :: ss', ¬IsMalformed s'
  · have hscope : (Scope.ofDirectives ((ss ++ s :: ss').filterMap directive?)).Alike
        (Scope.ofDirectives ((s :: (ss ++ ss')).filterMap directive?)) := by
      rw [List.filterMap_append, List.filterMap_cons_some hs, List.filterMap_cons_some hs, List.filterMap_append]
      refine Scope.alike_moved ?_ _
      intro d' hd'
      obtain ⟨s', hs', hd'⟩ := List.mem_filterMap.1 hd'
      exact h s' hs' d' hd'
    have hsentences : (ss ++ s :: ss').filter (fun s => (directive? s).isNone) =
        (s :: (ss ++ ss')).filter fun s => (directive? s).isNone := by
      simp [hs]
    rw [Document.ofParts_eq hall, Document.ofParts_eq fun s' hs' => hall s' ((hperm s').2 hs'),
      Document.ofSentences_alike hscope, hsentences]
  · push Not at hall
    obtain ⟨s', hs', hmalformed⟩ := hall
    rw [Document.ofParts_malformed hs' hmalformed, Document.ofParts_malformed ((hperm s').1 hs') hmalformed]

end N3Rules
