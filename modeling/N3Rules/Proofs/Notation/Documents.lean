/-
What a document that is read can hold.

Whatever the text, its rules have one list of quantifier declarations on both sides, those of the whole text; no formula
inside a term has any; names are not empty and end in no blank; a literal has a datatype or a language or neither; and no
fact is a rule. What uses documents need not check any of this.

- `Term.Within`: a term stands in another one, at any depth;
- `Term.AsRead`: what holds of all that stands in a term that is read;
- `declared`: the quantifier declarations of a whole text, in order;
- `Document.ofText_eq_ok`: how a text was read, step by step;
- `Document.ReadFrom`, `ofText_readFrom`: what a document that is read can hold.
-/
import N3Rules.Document
import N3Rules.Proofs.Match
import N3Rules.Proofs.Notation.Sentences
import N3Rules.Proofs.Notation.Spelling

namespace N3Rules

open Text

/-! ## Terms at every depth -/

/-- the terms in a formula, those that it quantifies included -/
def Formula.components (f : Formula) : List Term :=
  f.triples.flatMap Triple.terms ++ f.quantifiers.flatMap Quantifier.vars

/-- a term stands in another one, at any depth -/
inductive Term.Within (u : Term) : Term → Prop where
  | self : Within u u
  | item {items : List Term} {t : Term} : t ∈ items → Within u t → Within u (.list items)
  | component {body : Formula} {t : Term} : t ∈ body.components → Within u t → Within u (.formula body)

/-- what holds of all that stands in a term that is read -/
structure Term.AsRead (t : Term) : Prop where
  var : ∀ name, Term.Within (.var name) t → IsReadName name
  blank : ∀ id, Term.Within (.blank id) t → IsReadName id
  literal : ∀ value datatype language, Term.Within (.literal value datatype language) t →
    (datatype = none ∨ language = none) ∧ ∀ tag ∈ language, IsLanguage tag.toList
  formula : ∀ body, Term.Within (.formula body) t → body.quantifiers = []

theorem Triple.keeps_iff {l : Lettering} {t : Triple} :
    t.keeps l = true ↔ ∀ u ∈ t.terms, u.keeps l = true := by
  obtain ⟨s, p, o⟩ := t
  simp [Triple.keeps, Triple.terms, and_assoc]

theorem Term.Within.keeps {l : Lettering} {u t : Term} (h : u.Within t) (ht : t.keeps l = true) :
    u.keeps l = true := by
  induction h with
  | self => exact ht
  | item hmem _ ih => exact ih (Term.allKeep_iff.1 ht _ hmem)
  | @component body v hmem _ ih =>
    obtain ⟨hquantifiers, htriples⟩ := Formula.keeps_iff.1 ht
    rw [Formula.components, hquantifiers, List.flatMap_nil, List.append_nil, List.mem_flatMap] at hmem
    obtain ⟨tr, htr, hv⟩ := hmem
    exact ih (Triple.keeps_iff.1 (htriples tr htr) v hv)

/-- what keeps to the lettering of what is read is as what is read -/
theorem Term.asRead_of_keeps {t : Term} (h : t.keeps .scoped = true) : t.AsRead where
  var := fun _ hu => isClosedName_iff.1 (hu.keeps h)
  blank := fun _ hu => isClosedName_iff.1 (hu.keeps h)
  literal := by
    intro value d language hu
    have hsuffix : Lettering.suffix .scoped d language = true := hu.keeps h
    cases d with
    | none =>
      refine ⟨.inl rfl, ?_⟩
      cases language with
      | none => simp
      | some tag =>
        intro tag' htag
        cases htag
        exact isLanguageTag_iff.1 hsuffix
    | some d =>
      cases language with
      | none => exact ⟨.inr rfl, by simp⟩
      | some tag => cases hsuffix
  formula := fun _ hu => (Formula.keeps_iff.1 (hu.keeps h)).1

/-! ## Declarations -/

/-- the quantifier declaration that a statement is: its keyword, and the terms after it in order -/
def declaration? (scope : Scope) (statement : List Char) : Option Quantifier :=
  match Clause.ofStatement statement with
  | .declaration kind names => (names.mapM (Term.read scope)).toOption.map fun vars => ⟨kind, vars⟩
  | _ => none

/-- the quantifier declarations among the statements of a text, in order -/
def declarations (scope : Scope) (text : List Char) : List Quantifier :=
  (statements text).filterMap (declaration? scope)

/-- the directive that a statement is -/
def directive? (statement : List Char) : Option Directive :=
  match Directive.ofTokens (tokens statement) with
  | .ok d => d
  | .error _ => none

/-- the scope that the directives among the statements of a text make -/
def scopeOf (text : List Char) : Scope :=
  Scope.ofDirectives ((statements text).filterMap directive?)

/-- the quantifier declarations on the two sides of a rule, in order -/
def sideDeclarations (scope : Scope) (r : RuleText) : List Quantifier :=
  declarations scope r.antecedent ++ declarations scope r.consequent

/-- the quantifier declarations in a text that its rules were taken out of, in order: those that remain, and then those
in the rules -/
def declared (e : Extract) : List Quantifier :=
  declarations (scopeOf e.remainder) e.remainder ++ e.rules.flatMap (sideDeclarations (scopeOf e.remainder))

/-- the quantifiers that are read are those that are declared -/
theorem Item.quantifiers_eq {scope : Scope} {l : List (List Char)} {items : List Item}
    (h : l.mapM (Item.read scope) = .ok items) : Item.quantifiers items = l.filterMap (declaration? scope) := by
  rw [mapM_eq_ok_iff] at h
  induction h with
  | nil => rfl
  | cons hread _ ih =>
    cases Item.spelled_of_read hread with
    | triple hclause _ _ _ =>
      rw [List.filterMap_cons_none (by rw [declaration?, hclause])]
      exact ih
    | quantifier hclause hvars =>
      rw [List.filterMap_cons_some (by rw [declaration?, hclause]; simp only [hvars]; rfl)]
      exact congrArg _ ih

/-- a declaration is no directive -/
theorem Directive.ofTokens_of_declaration {head : List Char} {rest : List (List Char)}
    (h : head = "@forAll".toList ∨ head = "@forSome".toList) : Directive.ofTokens (head :: rest) = .ok none := by
  have hword : ∀ w : String, w ≠ "@forAll" ∧ w ≠ "@forSome" → String.ofList head ≠ w := by
    rintro w ⟨hall, hsome⟩ rfl
    rcases h with rfl | rfl
    · exact hall (String.ofList_toList)
    · exact hsome (String.ofList_toList)
  simp only [Directive.ofTokens]
  split
  case h_7 => rfl
  all_goals exact absurd ‹_› (hword _ (by decide))

/-- a directive declares no quantifier -/
theorem declaration?_of_directive {scope : Scope} {statement : List Char} (h : (directive? statement).isSome = true) :
    declaration? scope statement = none := by
  unfold declaration?
  split
  · rename_i hclause
    obtain ⟨head, rest, htokens, hhead⟩ := Clause.head_of_declaration hclause
    rw [directive?, htokens, Directive.ofTokens_of_declaration hhead] at h
    cases h
  · rfl

/-! ## Documents -/

/-- reading several texts gives what a function gives, if reading one of them does -/
theorem eq_map_of_mapM {α β ε : Type} {f : α → Except ε β} {g : α → β} (hf : ∀ a b, f a = .ok b → b = g a)
    {l : List α} {bs : List β} (h : l.mapM f = .ok bs) : bs = l.map g := by
  rw [mapM_eq_ok_iff] at h
  induction h with
  | nil => rfl
  | cons hb _ ih => rw [List.map_cons, ← hf _ _ hb, ih]

/-- the statements of a text that are no directives -/
def sentences (text : List Char) : List (List Char) :=
  (statements text).filter fun s => (directive? s).isNone

/-- all that a text says: the directives among its statements hold for it and for its rules, and the quantifiers that are
declared anywhere hold for all rules -/
theorem Document.ofText_eq_ok {text : String} {d : Document} (h : Document.ofText text = .ok d) :
    ∃ e items rules, takeRules (compact text.toList) = .ok e ∧
      (sentences e.remainder).mapM (Item.read (scopeOf e.remainder)) = .ok items ∧
      e.rules.mapM (RuleText.read (scopeOf e.remainder)) = .ok rules ∧
      d = { triples := (Item.triples items).filter fun t => t.rule?.isNone
            rules := (rules.map (·.1) ++ (Item.triples items).filterMap Triple.rule?).map
              (Rule.quantify (Item.quantifiers items ++ rules.flatMap (·.2))) } := by
  rw [Document.ofText] at h
  obtain ⟨e, he, h⟩ := bind_eq_ok_iff.1 h
  obtain ⟨lines, hlines, h⟩ := bind_eq_ok_iff.1 h
  obtain ⟨items, hitems, h⟩ := bind_eq_ok_iff.1 h
  obtain ⟨rules, hrules, h⟩ := bind_eq_ok_iff.1 h
  have hdirectives : lines = (statements e.remainder).map fun s => (s, directive? s) := by
    refine eq_map_of_mapM ?_ hlines
    intro s line hline
    obtain ⟨directive, hdirective, rfl⟩ := map_eq_ok_iff.1 hline
    rw [directive?, hdirective]
  have hscope : Scope.ofDirectives (lines.filterMap (·.2)) = scopeOf e.remainder := by
    rw [hdirectives, List.filterMap_map]
    rfl
  have hsentences : (lines.filter (·.2.isNone)).map (·.1) = sentences e.remainder := by
    rw [hdirectives, List.filter_map, List.map_map]
    exact List.map_id _
  rw [hscope] at hitems hrules
  refine ⟨e, items, rules, he, ?_, hrules, ?_⟩
  · rw [← hsentences, List.mapM_map]
    exact hitems
  · cases h
    rfl

/-- the declarations among all statements are those among the ones that are no directives -/
theorem declarations_eq (scope : Scope) (text : List Char) :
    declarations scope text = (sentences text).filterMap (declaration? scope) := by
  unfold declarations sentences
  induction statements text with
  | nil => rfl
  | cons s l ih =>
    cases hs : directive? s with
    | some directive =>
      have hnone : declaration? scope s = none := declaration?_of_directive (by rw [hs, Option.isSome_some])
      rw [List.filterMap_cons_none hnone, List.filter_cons_of_neg (by simp [hs]), ih]
    | none =>
      rw [List.filter_cons_of_pos (by simp [hs]), List.filterMap_cons, List.filterMap_cons, ih]

section Read

variable {scope : Scope}

/-- what is read of statements is as all that is read -/
theorem Item.keeps_mapM {l : List (List Char)} {items : List Item} (h : l.mapM (Item.read scope) = .ok items) :
    (∀ t ∈ Item.triples items, t.keeps .scoped = true) ∧
      ∀ q ∈ Item.quantifiers items, Term.allKeep .scoped q.vars = true := by
  have hitems : ∀ i ∈ items, i.keeps .scoped = true := by
    intro i hi
    obtain ⟨statement, -, hread⟩ := mem_of_mapM h i hi
    exact Item.keeps_of_read (Lettering.admits_scoped scope) hread
  exact ⟨fun t ht => hitems _ (Item.mem_triples.1 ht), fun q hq => hitems _ (Item.mem_quantifiers.1 hq)⟩

/-- a rule that is read has no quantifiers of its own: those that are declared in it are handed on -/
theorem RuleText.read_eq_ok {r : RuleText} {rule : Rule} {qs : List Quantifier}
    (h : RuleText.read scope r = .ok (rule, qs)) :
    rule.keeps .scoped = true ∧ qs = sideDeclarations scope r ∧
      ∀ q ∈ qs, Term.allKeep .scoped q.vars = true := by
  obtain ⟨antecedent, hantecedent, h⟩ := bind_eq_ok_iff.1 h
  obtain ⟨consequent, hconsequent, h⟩ := bind_eq_ok_iff.1 h
  rw [Item.readAll_eq] at hantecedent hconsequent
  obtain ⟨htriples, hvars⟩ := Item.keeps_mapM hantecedent
  obtain ⟨htriples', hvars'⟩ := Item.keeps_mapM hconsequent
  cases h
  refine ⟨?_, ?_, ?_⟩
  · rw [Rule.keeps, Bool.and_eq_true, Formula.keeps_iff, Formula.keeps_iff]
    exact ⟨⟨rfl, htriples⟩, rfl, htriples'⟩
  · rw [Item.quantifiers_eq hantecedent, Item.quantifiers_eq hconsequent]
    rfl
  · intro q hq
    exact (List.mem_append.1 hq).elim (hvars q) (hvars' q)

theorem RuleText.mapM_eq_ok {l : List RuleText} {rules : List (Rule × List Quantifier)}
    (h : l.mapM (RuleText.read scope) = .ok rules) :
    (∀ r ∈ rules.map (·.1), r.keeps .scoped = true) ∧
      rules.flatMap (·.2) = l.flatMap (sideDeclarations scope) ∧
      ∀ q ∈ rules.flatMap (·.2), Term.allKeep .scoped q.vars = true := by
  rw [mapM_eq_ok_iff] at h
  induction h with
  | nil => simp
  | @cons r rule l rules hread _ ih =>
    obtain ⟨hkeeps, hdeclared, hvars⟩ := ih
    obtain ⟨hkeeps', hdeclared', hvars'⟩ := RuleText.read_eq_ok hread
    refine ⟨?_, ?_, ?_⟩
    · rw [List.map_cons, List.forall_mem_cons]
      exact ⟨hkeeps', hkeeps⟩
    · rw [List.flatMap_cons, List.flatMap_cons, hdeclared, hdeclared']
    · rw [List.flatMap_cons]
      intro q hq
      exact (List.mem_append.1 hq).elim (hvars' q) (hvars q)

end Read

/-- the rule that a triple is keeps to what its triple keeps to -/
theorem Rule.keeps_of_rule? {l : Lettering} {t : Triple} {r : Rule} (ht : t.keeps l = true) (h : t.rule? = some r) :
    r.keeps l = true := by
  unfold Triple.rule? at h
  split at h
  · split at h
    · cases h
      simp only [Triple.keeps, Bool.and_eq_true] at ht
      rw [Rule.keeps, Bool.and_eq_true]
      exact ⟨ht.1.1, ht.2⟩
    · cases h
  · cases h

/-- a rule without quantifiers of its own has the given ones on both sides, and is else as it was -/
theorem Rule.quantify_of_keeps {l : Lettering} {r : Rule} (h : r.keeps l = true) (qs : List Quantifier) :
    ∃ a c, r.quantify qs = ⟨⟨a, qs⟩, ⟨c, qs⟩⟩ ∧ (∀ t ∈ a, t.keeps l = true) ∧ ∀ t ∈ c, t.keeps l = true := by
  rw [Rule.keeps, Bool.and_eq_true, Formula.keeps_iff, Formula.keeps_iff] at h
  obtain ⟨⟨ts, qs'⟩, ⟨us, rs⟩⟩ := r
  obtain ⟨⟨rfl, hts⟩, rfl, hus⟩ := h
  refine ⟨ts, us, ?_, hts, hus⟩
  unfold Rule.quantify
  split
  · rename_i hnil
    rw [List.isEmpty_iff.1 hnil]
  · rfl

theorem Triple.rule?_eq_none_iff {t : Triple} :
    t.rule? = none ↔ ∀ a c, t ≠ ⟨.formula a, .iri impliesIri, .formula c⟩ := by
  unfold Triple.rule?
  split
  · rename_i a p c
    split
    · rename_i hp
      subst hp
      simp
    · rename_i hp
      simp [hp]
  · rename_i hother
    simp only [true_iff]
    exact fun a c ht => hother a impliesIri c ht

/-- what a document holds that was read from a text taken apart -/
structure Document.ReadFrom (e : Extract) (d : Document) : Prop where
  quantifiers : ∀ r ∈ d.rules, r.antecedent.quantifiers = declared e ∧ r.consequent.quantifiers = declared e
  facts : ∀ t ∈ d.triples, ∀ a c, t ≠ ⟨.formula a, .iri impliesIri, .formula c⟩
  triples : ∀ t ∈ d.triples, ∀ u ∈ t.terms, u.AsRead
  rules : ∀ r ∈ d.rules, ∀ u ∈ r.antecedent.components ++ r.consequent.components, u.AsRead
  builtins : d.builtins = []

/-- the terms of a formula that is put together of what is read -/
theorem Formula.asRead {ts : List Triple} {qs : List Quantifier}
    (hts : ∀ t ∈ ts, t.keeps .scoped = true)
    (hqs : ∀ q ∈ qs, Term.allKeep .scoped q.vars = true) :
    ∀ u ∈ Formula.components ⟨ts, qs⟩, u.AsRead := by
  intro u hu
  rcases List.mem_append.1 hu with hu | hu
  · obtain ⟨t, ht, hu⟩ := List.mem_flatMap.1 hu
    exact Term.asRead_of_keeps (Triple.keeps_iff.1 (hts t ht) u hu)
  · obtain ⟨q, hq, hu⟩ := List.mem_flatMap.1 hu
    exact Term.asRead_of_keeps (Term.allKeep_iff.1 (hqs q hq) u hu)

/-- **What can be read.** Whatever text is read as a document, all its rules have one list of quantifiers on both sides:
those declared outside of its rules, in order, and then those declared inside of them. Its facts are no rules. All that
stands in its terms, at any depth, is as what is read: names are not empty and end in no blank, literals have a datatype
or a language tag or neither, and formulas have no quantifiers. And it has no builtins. -/
theorem ofText_readFrom {text : String} {d : Document} (h : Document.ofText text = .ok d) :
    ∃ e, takeRules (compact text.toList) = .ok e ∧ d.ReadFrom e := by
  obtain ⟨e, items, rules, he, hitems, hrules, rfl⟩ := Document.ofText_eq_ok h
  obtain ⟨htriples, hvars⟩ := Item.keeps_mapM hitems
  obtain ⟨hkeeps, hinside, hvars'⟩ := RuleText.mapM_eq_ok hrules
  have hdeclared : Item.quantifiers items ++ rules.flatMap (·.2) = declared e := by
    rw [Item.quantifiers_eq hitems, ← declarations_eq, hinside]
    rfl
  have hquantifiers : ∀ q ∈ declared e, Term.allKeep .scoped q.vars = true := by
    rw [← hdeclared]
    intro q hq
    exact (List.mem_append.1 hq).elim (hvars q) (hvars' q)
  -- before the quantifiers are added, all rules are as what is read
  have hunquantified : ∀ r ∈ rules.map (·.1) ++ (Item.triples items).filterMap Triple.rule?,
      r.keeps .scoped = true := by
    intro r hr
    rcases List.mem_append.1 hr with hr | hr
    · exact hkeeps r hr
    · obtain ⟨t, ht, hrule⟩ := List.mem_filterMap.1 hr
      exact Rule.keeps_of_rule? (htriples t ht) hrule
  have hrule : ∀ r ∈ (rules.map (·.1) ++ (Item.triples items).filterMap Triple.rule?).map (Rule.quantify (declared e)),
      ∃ a c, r = ⟨⟨a, declared e⟩, ⟨c, declared e⟩⟩ ∧ (∀ t ∈ a, t.keeps .scoped = true) ∧
        ∀ t ∈ c, t.keeps .scoped = true := by
    intro r hr
    obtain ⟨source, hsource, rfl⟩ := List.mem_map.1 hr
    exact Rule.quantify_of_keeps (hunquantified source hsource) _
  rw [hdeclared]
  refine ⟨e, he, ?_, ?_, ?_, ?_, rfl⟩
  · intro r hr
    obtain ⟨a, c, rfl, -⟩ := hrule r hr
    exact ⟨rfl, rfl⟩
  · intro t ht
    rw [← Triple.rule?_eq_none_iff]
    simpa using (List.mem_filter.1 ht).2
  · intro t ht u hu
    exact Term.asRead_of_keeps (Triple.keeps_iff.1 (htriples t (List.mem_filter.1 ht).1) u hu)
  · intro r hr u hu
    obtain ⟨a, c, rfl, ha, hc⟩ := hrule r hr
    rcases List.mem_append.1 hu with hu | hu
    · exact Formula.asRead ha hquantifiers u hu
    · exact Formula.asRead hc hquantifiers u hu

/-- a text with declarations before, inside and after its rules -/
def scatteredText : String :=
  "@prefix e: <e#> . @forAll ?x . ?x e:p \"a\"@en-GB .
  \x7b@forSome ?y, _:z . ?x <q> \x7b_:z <p> (\"1\"^^e:i)\x7d\x7d => \x7b?x <r> ?y\x7d
  \x7b?x <s> <t>\x7d <http://www.w3.org/2000/10/swap/log#implies> \x7b\x7d . @forSome ?v"

/-- all rules of the text have all of its declarations, those outside of the rules first -/
theorem scattered_readFrom : ∃ d, Document.ofText scatteredText = .ok d ∧
    d.rules.map (·.consequent.quantifiers) = List.replicate 2
      [⟨.forAll, [.var "x"]⟩, ⟨.forSome, [.var "v"]⟩, ⟨.forSome, [.var "y", .blank "z"]⟩] ∧
    ∃ e, takeRules (compact scatteredText.toList) = .ok e ∧ d.ReadFrom e := by
  have hread : (Document.ofText scatteredText).toOption.any (fun d => d.rules.map (·.consequent.quantifiers) =
      List.replicate 2 [⟨.forAll, [.var "x"]⟩, ⟨.forSome, [.var "v"]⟩, ⟨.forSome, [.var "y", .blank "z"]⟩]) = true := by
    decide +kernel
  obtain ⟨d, hd, hrules⟩ := Document.of_toOption_any hread
  exact ⟨d, hd, of_decide_eq_true hrules, ofText_readFrom hd⟩

end N3Rules
