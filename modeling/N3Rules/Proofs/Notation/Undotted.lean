/-
Directives that no full stop ends.

A directive may be written `PREFIX label: <iri>`, with nothing after it. Its line feed does not end the statement: in the
compact form it is a space like any other, and the statement runs on to the next place where a statement ends. If anything
stands before that place, the statement has more words than a directive and is refused, as a triple of too many terms. So
the undotted form is a directive only where the text goes on with a full stop, with a semicolon or with a rule, of which a
full stop is left, or is over.

- `GoesOn`: something stands in a text before the first place where a statement ends, when its rules are out;
- `parts?_undotted`: the statements of a text that starts with an undotted directive;
- `undotted_alike_iff`: the undotted form means what the dotted form means if and only if the text does not go on, or the
  dotted form is refused as well.
-/
import N3Rules.Proofs.Notation.Directives
import N3Rules.Proofs.Text.Conserved

namespace N3Rules

open Text

namespace Text

/-- something else than blanks stands in a text before the first place where a statement ends -/
def goesOn (s : List Char) : Bool :=
  (cut statementCut {} s).1.any fun c => !isBlank c

theorem goesOn_eq_false_iff {s : List Char} : goesOn s = false ↔ ∀ c ∈ (cut statementCut {} s).1, isBlank c = true := by
  simp [goesOn]

theorem trimEnd_eq_nil_iff {s : List Char} : trimEnd s = [] ↔ ∀ c ∈ s, isBlank c = true := by
  obtain ⟨b, hb, hblanks⟩ := trimEnd_split s
  constructor
  · intro hnil
    rw [hnil, List.nil_append] at hb
    rwa [hb]
  · intro hs
    have hlast := getLast?_trimEnd s
    cases hend : (trimEnd s).getLast? with
    | none => exact List.getLast?_eq_none_iff.1 hend
    | some c =>
      have hmem : c ∈ s := by
        rw [hb]
        exact List.mem_append_left b (List.mem_of_getLast? hend)
      have hblank := hlast c hend
      rw [hs c hmem] at hblank
      cases hblank

/-- what comes after a bare text and a blank, trimmed -/
theorem trimEnd_space (s : List Char) : trimEnd (' ' :: s) = if trimEnd s = [] then [] else ' ' :: trimEnd s := by
  rw [trimEnd]
  split <;> simp_all
  decide

theorem trim_append_bare {w : List Char} (hw : IsBare w) (s : List Char) : trim (w ++ s) = w ++ trimEnd s := by
  obtain ⟨c, hc, hblank⟩ := hw.first
  obtain ⟨w, rfl⟩ := List.head?_eq_some_iff.1 hc
  by_cases hs : trimEnd s = []
  · rw [trim_append_blanks (trimEnd_eq_nil_iff.1 hs), hw.trim_eq, hs, List.append_nil]
  · rw [List.cons_append, trim_cons hblank, trimEnd_after hs, List.cons_append]

theorem trimEnd_append_bare {w : List Char} (hw : IsBare w) (s : List Char) : trimEnd (w ++ s) = w ++ trimEnd s := by
  rw [← trim_append_bare hw]
  obtain ⟨c, hc, hblank⟩ := hw.first
  obtain ⟨w, rfl⟩ := List.head?_eq_some_iff.1 hc
  rw [List.cons_append, trim_cons hblank, trimEnd_cons hblank]

/-- the line feed after a compact text is a space, if anything follows it -/
theorem compact_line {u : List Char} (hu : IsCompact true u) (hbare : IsBare u) (r : List Char) :
    compact (u ++ '\n' :: r) = u ++ (if compact r = [] then [] else ' ' :: compact r) := by
  rw [compact, hu, gapAfter_bare hbare, squeeze_blank (by decide)]
  change trimEnd (u ++ ' ' :: squeeze .plain true r) = _
  rw [trimEnd_append_bare hbare, trimEnd_space]
  rfl

/-- a text that is not blank has tokens -/
theorem tokens_ne_nil {s : List Char} (h : ∃ c ∈ s, isBlank c = false) : tokens s ≠ [] := by
  intro hnil
  have hink := ink_pieces tokenCut s
  rw [show pieces tokenCut s = [] from hnil, ink_left_tokenCut] at hink
  obtain ⟨c, hc, hblank⟩ := h
  have hmem : c ∈ ink s := by simp [ink, hc, hblank]
  rw [← hink] at hmem
  cases hmem

section Phrase

variable {words : List (List Char)} {w : List Char} (h : IsPhrase words w)

include h

/-- a phrase and a space are kept in front of the first piece of what follows -/
theorem IsPhrase.statements_space (s : List Char) : statements (w ++ ' ' :: s) =
    (w ++ trimEnd (' ' :: (cut statementCut {} s).1)) :: finished (cut statementCut {} s).2 := by
  have hspace := carries_space_statement {}
  rw [Enclosure.quote_space rfl] at hspace
  have hcut := (carries_statement (h.isWoven true)).append hspace s
  rw [List.append_assoc, List.append_assoc, List.singleton_append, List.singleton_append] at hcut
  have htrim := trim_append_bare h.bare (' ' :: (cut statementCut {} s).1)
  rw [statements, pieces_eq_finished, hcut, finished_cons, htrim, if_neg (by simp [h.bare.ne_nil])]

/-- a phrase is a statement if the text does not go on after it -/
theorem IsPhrase.statements_alone {s : List Char} (hs : goesOn s = false) :
    statements (w ++ ' ' :: s) = w :: statements s := by
  rw [goesOn_eq_false_iff] at hs
  have hspaces : trimEnd (' ' :: (cut statementCut {} s).1) = [] := by
    rw [trimEnd_eq_nil_iff, List.forall_mem_cons]
    exact ⟨by decide, hs⟩
  have hnone : statements s = finished (cut statementCut {} s).2 := by
    rw [statements, pieces_eq_finished, finished_cons, trim_blanks hs]
    rfl
  rw [h.statements_space, hspaces, hnone, List.append_nil]

/-- and it begins a statement of more words if the text goes on -/
theorem IsPhrase.statements_joined {s : List Char} (hs : goesOn s = true) :
    ∃ t ∈ statements (w ++ ' ' :: s), ∃ more, more ≠ [] ∧ Text.tokens t = words ++ more := by
  have hmore : trimEnd (cut statementCut {} s).1 ≠ [] := by
    rw [ne_eq, trimEnd_eq_nil_iff, ← goesOn_eq_false_iff, hs]
    decide
  have hspace : trimEnd (' ' :: (cut statementCut {} s).1) = ' ' :: trimEnd (cut statementCut {} s).1 :=
    trimEnd_after hmore [' ']
  refine ⟨w ++ ' ' :: trimEnd (cut statementCut {} s).1, ?_, Text.tokens (trimEnd (cut statementCut {} s).1), ?_, ?_⟩
  · rw [h.statements_space, hspace]
    exact List.mem_cons_self
  · obtain ⟨c, hc⟩ := Option.ne_none_iff_exists'.1 (mt List.getLast?_eq_none_iff.1 hmore)
    exact tokens_ne_nil ⟨c, List.mem_of_getLast? hc, getLast?_trimEnd _ c hc⟩
  · rw [h.tokens _ (by simp), tokens_space]

theorem IsPhrase.takeRulesFrom_space (s : List Char) :
    takeRulesFrom none (w ++ ' ' :: s) = (takeRulesFrom none s).map (.behind (w ++ [' '])) := by
  have hrow : ∀ c ∈ w ++ [' '], Quote.opening? c = none ∧ c ≠ '{' ∧ c ≠ '}' := by
    intro c hc
    rcases List.mem_append.1 hc with hc | hc
    · exact h.plain c hc
    · rw [List.mem_singleton.1 hc]
      decide
  have htake := takeRulesFrom_row hrow s
  rwa [List.append_assoc] at htake

/-- the statements and the rules of a text that starts with a phrase and does not go on after it -/
theorem IsPhrase.parts?_alone {s : List Char} (hs : ∀ e, takeRulesFrom none s = .ok e → goesOn e.remainder = false) :
    parts? (w ++ (if s = [] then [] else ' ' :: s)) = (parts? s).map fun p => (w :: p.1, p.2) := by
  split
  · rename_i hnil
    have htake : takeRulesFrom none w = .ok ⟨w, []⟩ := takeRulesFrom_braceless fun c hc => (h.plain c hc).2
    have hlast : statements w = [w] := pieces_last (carries_statement (h.isWoven true)) h.bare.trim_eq h.bare.ne_nil
    rw [hnil, List.append_nil, parts?, parts?, htake, takeRulesFrom_nil]
    simp only [Except.toOption, Option.map_some, hlast]
    rfl
  · rw [parts?, parts?, h.takeRulesFrom_space]
    cases htake : takeRulesFrom none s with
    | error f => rfl
    | ok e => simp [Except.map, Except.toOption, Extract.behind, h.statements_alone (hs e htake)]

/-- a text that goes on after a phrase has a statement of more words -/
theorem IsPhrase.parts?_joined {s : List Char} {e : Extract} (he : takeRulesFrom none s = .ok e)
    (hs : goesOn e.remainder = true) : ∃ p, parts? (w ++ ' ' :: s) = some p ∧
      ∃ t ∈ p.1, ∃ more, more ≠ [] ∧ Text.tokens t = words ++ more := by
  refine ⟨(statements (w ++ ' ' :: e.remainder), e.rules), ?_, h.statements_joined hs⟩
  rw [parts?, h.takeRulesFrom_space, he]
  simp [Except.map, Except.toOption, Extract.behind]

end Phrase

end Text

/-! ## Documents -/

/-- it makes no difference how a directive is spelled -/
theorem Document.ofParts_respelled {s s' : List Char} {d : Directive}
    (hs : Directive.ofTokens (tokens s) = .ok (some d)) (hs' : Directive.ofTokens (tokens s') = .ok (some d))
    (ss : List (List Char)) (rules : List RuleText) :
    Document.ofParts (s :: ss) rules = Document.ofParts (s' :: ss) rules := by
  simp only [Document.ofParts, List.mapM_cons, hs, hs']
  cases ss.mapM fun s => (Directive.ofTokens (tokens s)).map fun d => (s, d) <;> rfl

/-- a statement that is neither a directive nor an item is refused wherever it stands -/
theorem Document.ofParts_refused {ss : List (List Char)} {s : List Char} (hs : s ∈ ss)
    (hdirective : Directive.ofTokens (tokens s) = .ok none)
    (hread : ∀ scope item, Item.read scope s ≠ .ok item) (rules : List RuleText) :
    (Document.ofParts ss rules).toOption = none := by
  by_cases hall : ∀ s' ∈ ss, ¬IsMalformed s'
  · rw [Document.ofParts_eq hall, Document.ofSentences]
    have hmem : s ∈ ss.filter fun s => (directive? s).isNone :=
      List.mem_filter.2 ⟨hs, by simp [directive?, hdirective]⟩
    cases hitems : (ss.filter fun s => (directive? s).isNone).mapM
        (Item.read (Scope.ofDirectives (ss.filterMap directive?))) with
    | error err => rfl
    | ok items =>
      obtain ⟨item, hitem⟩ := ok_of_mapM hitems s hmem
      exact absurd hitem (hread _ item)
  · push Not at hall
    obtain ⟨s', hs', hmalformed⟩ := hall
    exact Document.ofParts_malformed hs' hmalformed rules

/-- the keywords of directives that no full stop has to end -/
def undottedKeywords : List String :=
  ["PREFIX", "prefix"]

section Undotted

variable {keyword : String} (hkeyword : keyword ∈ undottedKeywords)

include hkeyword

theorem Directive.ofTokens_undotted (label iri : String) :
    Directive.ofTokens [keyword.toList, label.toList ++ [':'], reference iri] =
      .ok (some (.label (labelOf label) iri)) := by
  simp only [undottedKeywords, List.mem_cons, List.not_mem_nil, or_false] at hkeyword
  rcases hkeyword with rfl | rfl <;>
    simp only [Directive.ofTokens, String.ofList_toList, labelDirective?_words]

/-- with more words after it, an undotted directive is none -/
theorem Directive.ofTokens_joined (label reference : List Char) {more : List (List Char)} (hmore : more ≠ []) :
    Directive.ofTokens ([keyword.toList, label, reference] ++ more) = .ok none := by
  obtain ⟨word, more, rfl⟩ := List.exists_cons_of_ne_nil hmore
  simp only [undottedKeywords, List.mem_cons, List.not_mem_nil, or_false] at hkeyword
  rcases hkeyword with rfl | rfl <;> simp [Directive.ofTokens, labelDirective?]

/-- nor is it a triple or a declaration -/
theorem Item.read_joined {statement label reference : List Char} {more : List (List Char)} (hmore : more ≠ [])
    (htokens : tokens statement = [keyword.toList, label, reference] ++ more) (scope : Scope) (item : Item) :
    Item.read scope statement ≠ .ok item := by
  obtain ⟨word, more, rfl⟩ := List.exists_cons_of_ne_nil hmore
  have hkind : quantifierKind? keyword.toList = none := by
    simp only [undottedKeywords, List.mem_cons, List.not_mem_nil, or_false] at hkeyword
    rcases hkeyword with rfl | rfl <;> decide
  have hclause : Clause.ofStatement statement = .other (more.length + 4) := by
    simp [Clause.ofStatement, htokens, Clause.ofTokens, hkind]
  intro hitem
  cases Item.spelled_of_read hitem with
  | triple h => simp [hclause] at h
  | quantifier h => simp [hclause] at h

end Undotted

/-- a text goes on with a statement: when its rules are out, something stands in it before the first full stop, semicolon
or line feed that ends one -/
def GoesOn (text : String) : Prop :=
  ∃ e, takeRulesFrom none (compact text.toList) = .ok e ∧ goesOn e.remainder = true

instance (text : String) : Decidable (GoesOn text) :=
  decidable_of_iff ((takeRulesFrom none (compact text.toList)).toOption.any (fun e => goesOn e.remainder) = true) (by
    unfold GoesOn
    cases takeRulesFrom none (compact text.toList) <;> simp [Except.toOption])

/-- a directive that no full stop ends, and a text on the next line -/
def undottedText (keyword label iri rest : String) : String :=
  keyword ++ " " ++ label ++ ": <" ++ iri ++ ">\n" ++ rest

/-- the same directive with a full stop, and the same text on the next line -/
def dottedText (label iri rest : String) : String :=
  "@prefix " ++ label ++ ": <" ++ iri ++ "> .\n" ++ rest

section Lines

variable {label iri : String} (hlabel : label.toList.all isNameChar = true) (hiri : isReference iri.toList = true)
  (rest : String)

include hlabel hiri

/-- the dotted form: the directive, and then what the text says on its own -/
theorem Document.toOption_dotted : (Document.ofText (dottedText label iri rest)).toOption =
    (parts? (compact rest.toList)).bind fun p =>
      (Document.ofParts (labelPhrase "@prefix" label iri :: p.1) p.2).toOption := by
  have hphrase : IsPhrase _ (labelPhrase "@prefix" label iri) := isPhrase_label (by decide) hiri hlabel
  have htext : (dottedText label iri rest).toList =
      (labelPhrase "@prefix" label iri ++ [' ', '.']) ++ '\n' :: rest.toList := by
    simp [dottedText, labelPhrase, reference]
  have hcompact := (isCompact_woven (hphrase.isWoven true)).append (gapAfter_bare hphrase.bare true) isCompact_stop
  have hbare : IsBare (labelPhrase "@prefix" label iri ++ [' ', '.']) :=
    isBare_joined hphrase.bare (isBare_char (by decide))
  have hspace : ∀ s, parts? (if s = [] then [] else ' ' :: s) = parts? s := by
    intro s
    split
    · rename_i hnil
      rw [hnil]
    · exact parts?_space s
  have hparts := parts?_append hphrase.isPassage
    (if compact rest.toList = [] then [] else ' ' :: compact rest.toList)
  rw [hphrase.parts?_stop, hphrase.compact_stop, hspace] at hparts
  rw [Document.toOption_ofText, htext, compact_line hcompact hbare, hparts]
  cases parts? (compact rest.toList) <;> rfl

theorem undotted_spelled {keyword : String} (hkeyword : keyword ∈ undottedKeywords) :
    IsPhrase [keyword.toList, label.toList ++ [':'], reference iri] (labelPhrase keyword label iri) ∧
      compact (undottedText keyword label iri rest).toList = labelPhrase keyword label iri ++
        (if compact rest.toList = [] then [] else ' ' :: compact rest.toList) := by
  have hname : isName keyword.toList = true := by
    simp only [undottedKeywords, List.mem_cons, List.not_mem_nil, or_false] at hkeyword
    rcases hkeyword with rfl | rfl <;> decide
  have hphrase := isPhrase_label hname hiri hlabel
  have htext : (undottedText keyword label iri rest).toList = labelPhrase keyword label iri ++ '\n' :: rest.toList := by
    simp [undottedText, labelPhrase, reference]
  exact ⟨hphrase, by rw [htext, compact_line (isCompact_woven (hphrase.isWoven true)) hphrase.bare]⟩

/-- if the text does not go on, the undotted form is the dotted form -/
theorem Document.toOption_undotted {keyword : String} (hkeyword : keyword ∈ undottedKeywords) (hrest : ¬GoesOn rest) :
    (Document.ofText (undottedText keyword label iri rest)).toOption =
      (Document.ofText (dottedText label iri rest)).toOption := by
  obtain ⟨hphrase, hcompact⟩ := undotted_spelled hlabel hiri rest hkeyword
  have hnot : ∀ e, takeRulesFrom none (compact rest.toList) = .ok e → goesOn e.remainder = false := by
    intro e he
    rw [← Bool.not_eq_true]
    exact fun hgoes => hrest ⟨e, he, hgoes⟩
  rw [Document.toOption_dotted hlabel hiri, Document.toOption_ofText, hcompact, hphrase.parts?_alone hnot]
  cases parts? (compact rest.toList) with
  | none => rfl
  | some p =>
    have hdotted : IsPhrase _ (labelPhrase "@prefix" label iri) := isPhrase_label (by decide) hiri hlabel
    have hsame := Document.ofParts_respelled (hphrase.tokens_eq ▸ Directive.ofTokens_undotted hkeyword label iri)
      (hdotted.tokens_eq ▸ Directive.ofTokens_label label iri) p.1 p.2
    exact congrArg Except.toOption hsame

/-- if the text goes on, the undotted form is refused -/
theorem Document.undotted_refused {keyword : String} (hkeyword : keyword ∈ undottedKeywords) (hrest : GoesOn rest) :
    (Document.ofText (undottedText keyword label iri rest)).toOption = none := by
  obtain ⟨hphrase, hcompact⟩ := undotted_spelled hlabel hiri rest hkeyword
  obtain ⟨e, he, hgoes⟩ := hrest
  have hne : compact rest.toList ≠ [] := by
    intro hnil
    rw [hnil, takeRulesFrom_nil] at he
    cases he
    cases hgoes
  obtain ⟨p, hparts, t, ht, more, hmore, htokens⟩ := hphrase.parts?_joined he hgoes
  rw [Document.toOption_ofText, hcompact, if_neg hne, hparts]
  exact Document.ofParts_refused ht (by rw [htokens, Directive.ofTokens_joined hkeyword _ _ hmore])
    (Item.read_joined hkeyword hmore htokens) p.2

end Lines

/-- **When a line is a directive.** Whatever the label and the reference are, if they are of ordinary characters, and
whatever text is on the next line: the undotted form comes to what the dotted form comes to, the same document or no
document, if and only if the text does not go on with a statement, or the dotted form is refused as well. If the text goes
on, the undotted form is always refused. -/
theorem undotted_alike_iff {keyword label iri : String} (hkeyword : keyword ∈ undottedKeywords)
    (hlabel : label.toList.all isNameChar = true) (hiri : isReference iri.toList = true) (rest : String) :
    ((Document.ofText (undottedText keyword label iri rest)).toOption =
        (Document.ofText (dottedText label iri rest)).toOption ↔
      ¬GoesOn rest ∨ (Document.ofText (dottedText label iri rest)).toOption = none) ∧
    (GoesOn rest → (Document.ofText (undottedText keyword label iri rest)).toOption = none) := by
  refine ⟨⟨?_, ?_⟩, Document.undotted_refused hlabel hiri rest hkeyword⟩
  · intro hsame
    by_cases hrest : GoesOn rest
    · rw [Document.undotted_refused hlabel hiri rest hkeyword hrest] at hsame
      exact .inr hsame.symm
    · exact .inl hrest
  · rintro (hrest | hnone)
    · exact Document.toOption_undotted hlabel hiri rest hkeyword hrest
    · by_cases hrest : GoesOn rest
      · rw [Document.undotted_refused hlabel hiri rest hkeyword hrest, hnone]
      · exact Document.toOption_undotted hlabel hiri rest hkeyword hrest

/-- a rule may follow on the next line, and a fact may not -/
theorem undotted_rule_alike :
    "prefix" ∈ undottedKeywords ∧ "p".toList.all isNameChar = true ∧ isReference "http://e/".toList = true ∧
      ((Document.ofText (undottedText "prefix" "p" "http://e/" "{?x <q> p:c} => {} <a> <b> p:d")).toOption =
          (Document.ofText (dottedText "p" "http://e/" "{?x <q> p:c} => {} <a> <b> p:d")).toOption) ∧
      (Document.ofText (dottedText "p" "http://e/" "{?x <q> p:c} => {} <a> <b> p:d")).toOption.any
        (fun d => d.triples = [⟨.iri "a", .iri "b", .iri "http://e/d"⟩]) = true ∧
      (Document.ofText (undottedText "prefix" "p" "http://e/" "<a> <b> p:d")).toOption = none := by
  have hkeyword : "prefix" ∈ undottedKeywords := by decide
  have hlabel : "p".toList.all isNameChar = true := by decide
  have hiri : isReference "http://e/".toList = true := by decide
  have hiff := undotted_alike_iff hkeyword hlabel hiri
  exact ⟨hkeyword, hlabel, hiri, (hiff _).1.2 (.inl (by decide +kernel)), by decide +kernel,
    (hiff "<a> <b> p:d").2 (by decide +kernel)⟩

/-- with a fact on the next line, the undotted form is refused for its number of terms; the dotted form is the document
of the fact -/
theorem undotted_fact_refused :
    (Document.ofText "PREFIX p: <http://e/>\n<a> <b> p:c .").map (·.triples) =
        .error (.arity "PREFIX p: <http://e/> <a> <b> p:c" 6) ∧
      (Document.ofText "@prefix p: <http://e/> .\n<a> <b> p:c .").map (fun d => (d.triples, d.rules.length)) =
        .ok ([⟨.iri "a", .iri "b", .iri "http://e/c"⟩], 0) := by
  decide +kernel

end N3Rules
