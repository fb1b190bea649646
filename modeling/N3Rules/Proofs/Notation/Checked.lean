/-
Reading with every step checked.

The readers here take the slices of a text by its bytes. They are stuck where a slice is not there, where there are no
tokens after a first one, and where a term inside of a term is not shorter than it. On no text are they stuck, and they
come to what the readers come to that go character by character. So a slice is only taken where its bytes are in order,
in range and not inside of a character, and reading comes to an end.

- `between_eq`: what stands between two marks is there;
- `Shape.checked`, `Item.checkedBy`, `Term.checked`: tokens, statements and terms;
- `Directive.checked`, `Document.checked`, `Formula.checked`: directives, documents and formulas;
- `checked_reading_done`: reading is never stuck.
-/
import N3Rules.Document
import N3Rules.Proofs.Notation.Spelling
import N3Rules.Proofs.Text.Cursors

namespace N3Rules

open Text

/-! ## Between marks -/

/-- the text less a byte at each end -/
def unwrap (w : List Char) : Checked (List Char) :=
  .step (between? 1 (utf8Length w - 1) w)

/-- the text has at least two bytes, and starts and ends with two marks -/
def HasEnds (opening closing : Char) (w : List Char) : Prop :=
  2 ≤ utf8Length w ∧ w.head? = some opening ∧ w.getLast? = some closing

instance (opening closing : Char) (w : List Char) : Decidable (HasEnds opening closing w) :=
  inferInstanceAs (Decidable (_ ∧ _))

/-- what stands between two marks, in a text that passes a test -/
def between (opening closing : Char) (test : List Char → Bool) (w : List Char) : Checked (Option (List Char)) :=
  if HasEnds opening closing w ∧ test w then some <$> unwrap w else return none

section Marks

variable {opening closing : Char}

theorem hasEnds_iff (hne : opening ≠ closing) {w : List Char} :
    HasEnds opening closing w ↔ ∃ s, w = opening :: (s ++ [closing]) := by
  constructor
  · rintro ⟨-, hfirst, hlast⟩
    obtain ⟨t, rfl⟩ := List.head?_eq_some_iff.1 hfirst
    rcases List.eq_nil_or_concat t with rfl | ⟨s, c, rfl⟩
    · exact absurd (Option.some.inj hlast) hne
    · rw [List.concat_eq_append, ← List.cons_append, List.getLast?_concat] at hlast
      exact ⟨s, by rw [List.concat_eq_append, Option.some.inj hlast]⟩
  · rintro ⟨s, rfl⟩
    have hopening := opening.utf8Size_pos
    have hclosing := closing.utf8Size_pos
    refine ⟨?_, rfl, by rw [← List.cons_append, List.getLast?_concat]⟩
    simp only [utf8Length, utf8Length_append]
    omega

variable (ho : opening.toNat < 128) (hc : closing.toNat < 128)

include ho hc

/-- between ASCII marks the slice is there -/
theorem unwrap_eq (s : List Char) : unwrap (opening :: (s ++ [closing])) = .done (.ok s) := by
  have hslice : between? 1 (utf8Length (opening :: (s ++ [closing])) - 1) (opening :: (s ++ [closing])) = some s := by
    refine between?_eq_some_iff.2 ⟨[opening], [closing], rfl, ?_, ?_⟩
    · simp [utf8Length, utf8Size_ascii ho]
    · simp [utf8Length, utf8Length_append, utf8Size_ascii ho, utf8Size_ascii hc, Nat.add_comm]
  rw [unwrap, hslice]
  rfl

theorem between_eq (hne : opening ≠ closing) {test : List Char → Bool} {w : List Char} {found : Option (List Char)}
    (hfound : ∀ s, found = some s ↔ w = opening :: (s ++ [closing]) ∧ test w = true) :
    between opening closing test w = .done (.ok found) := by
  rw [between]
  split
  · rename_i h
    obtain ⟨s, hs⟩ := (hasEnds_iff hne).1 h.1
    rw [(hfound s).2 ⟨hs, h.2⟩, hs, unwrap_eq ho hc]
    rfl
  · rename_i h
    obtain rfl : found = none := by
      refine Option.eq_none_iff_forall_ne_some.2 fun s hs => h ?_
      obtain ⟨hw, htest⟩ := (hfound s).1 hs
      exact ⟨(hasEnds_iff hne).2 ⟨s, hw⟩, htest⟩
    rfl

end Marks

/-- the text between `<` and `>` of a token that is an IRI reference -/
def referenceChecked (w : List Char) : Checked (Option (List Char)) :=
  between '<' '>' (fun _ => true) w

theorem referenceChecked_eq (w : List Char) : referenceChecked w = .done (.ok (iriReference? w)) := by
  refine between_eq (by decide) (by decide) (by decide) fun s => ?_
  constructor
  · exact fun h => ⟨eq_of_iriReference? h, rfl⟩
  · rintro ⟨rfl, -⟩
    simp [iriReference?]

/-- the inside of a token that is one pair of brackets -/
def insideChecked (opening closing : Char) (w : List Char) : Checked (Option (List Char)) :=
  between opening closing (closesAtEnd opening closing none 0) w

theorem insideChecked_eq {opening closing : Char} (ho : opening.toNat < 128) (hc : closing.toNat < 128)
    (hne : opening ≠ closing) (w : List Char) :
    insideChecked opening closing w = .done (.ok (inside? opening closing w)) :=
  between_eq ho hc hne fun _ => inside?_eq_some_iff

/-! ## Tokens -/

/-- what a token is -/
def Shape.checked (token : List Char) : Checked Shape := do
  match ← referenceChecked token, token with
  | some reference, _ => return .iri reference
  | none, '"' :: s => return .literal s
  | none, '?' :: s => return .var s
  | none, '_' :: ':' :: s => return .blank s
  | none, _ =>
    match ← insideChecked '(' ')' token with
    | some s => return .list s
    | none =>
      match ← insideChecked '{' '}' token with
      | some s => return .formula s
      | none => return .name token

theorem Shape.checked_eq (token : List Char) : Shape.checked token = .done (.ok (Shape.ofToken token)) := by
  have hlist : insideChecked '(' ')' token = _ := insideChecked_eq (by decide) (by decide) (by decide) token
  have hformula : insideChecked '{' '}' token = _ := insideChecked_eq (by decide) (by decide) (by decide) token
  unfold Shape.checked Shape.ofToken
  rw [referenceChecked_eq, Checked.ok_bind]
  cases iriReference? token with
  | some reference => rfl
  | none =>
    simp only [hlist, hformula, Checked.ok_bind]
    split
    · rename_i h
      cases h
    · rfl
    · rfl
    · rfl
    · try simp only
      cases inside? '(' ')' _ with
      | some s => rfl
      | none => cases inside? '{' '}' _ <;> rfl

/-- the datatype that a text spells -/
def datatypeChecked (scope : Scope) (s : List Char) : Checked (Option String) :=
  match leadingReference? s with
  | some (_, []) => (fun body => some (scope.iriOfReference body)) <$> unwrap s
  | some _ => return none
  | none => return if !s.isEmpty && s.all fun c => !isBlank c then some (scope.iriOfName s) else none

theorem datatypeChecked_eq (scope : Scope) (s : List Char) :
    datatypeChecked scope s = .done (.ok (readDatatype? scope s)) := by
  rw [datatypeChecked, readDatatype?]
  cases h : leadingReference? s with
  | none => rfl
  | some r =>
    obtain ⟨body, rest⟩ := r
    cases rest with
    | nil =>
      have hbody : unwrap ('<' :: (body ++ ['>'])) = _ := unwrap_eq (by decide) (by decide) body
      rw [(leadingReference?_eq_some_iff.1 h).1, hbody]
      rfl
    | cons c rest => rfl

/-- the datatype and the language that the text after a closing quote spells -/
def suffixChecked (scope : Scope) : List Char → Checked (Option (Option String × Option String))
  | '^' :: '^' :: s => (fun found => found.map fun datatype => (some datatype, none)) <$> datatypeChecked scope s
  | s => return readSuffix? scope s

theorem suffixChecked_eq (scope : Scope) (s : List Char) :
    suffixChecked scope s = .done (.ok (readSuffix? scope s)) := by
  unfold suffixChecked
  split
  · rw [datatypeChecked_eq]
    rfl
  · rfl

/-- the literal that a token is, from after its opening quote on -/
def literalChecked (scope : Scope) (rest : List Char) : Checked (Option Term) :=
  match readQuoted rest with
  | none => return none
  | some (value, suffix) =>
    (fun found => found.map fun r => .literal (String.ofList value) r.1 r.2) <$> suffixChecked scope suffix

theorem literalChecked_eq (scope : Scope) (rest : List Char) :
    literalChecked scope rest = .done (.ok (readLiteral? scope rest)) := by
  rw [literalChecked, readLiteral?]
  cases readQuoted rest with
  | none => rfl
  | some r =>
    dsimp only
    rw [suffixChecked_eq]
    dsimp only [bind, Option.bind]
    cases readSuffix? scope r.2 <;> rfl

/-! ## Statements -/

/-- what comes after the first of a list: stuck if there is no first -/
def afterFirst {α : Type} (l : List α) : Checked (List α) :=
  if 1 ≤ l.length then return l.drop 1 else .stuck

/-- what a statement of some tokens is -/
def Clause.checked (ts : List (List Char)) : Checked Clause := do
  match ts.head?.bind quantifierKind?, ts with
  | some kind, ts => return .declaration kind ((← afterFirst ts).flatMap commaParts)
  | none, [s, p, o] => return .triple s p o
  | none, ts => return .other ts.length

theorem Clause.checked_eq (ts : List (List Char)) : Clause.checked ts = .done (.ok (Clause.ofTokens ts)) := by
  cases hkind : ts.head?.bind quantifierKind? with
  | some kind =>
    obtain ⟨t, ht, -⟩ := Option.bind_eq_some_iff.1 hkind
    obtain ⟨rest, rfl⟩ := List.head?_eq_some_iff.1 ht
    simp only [Clause.checked, Clause.ofTokens, hkind]
    rfl
  | none =>
    simp only [Clause.checked, Clause.ofTokens, hkind]
    rcases ts with _ | ⟨s, _ | ⟨p, _ | ⟨o, _ | ⟨t, ts⟩⟩⟩⟩ <;> rfl

/-- the triple or the quantifier declaration that a statement is, its terms read by a reader of terms -/
def Item.checkedBy (read : List Char → Checked Term) (statement : List Char) : Checked Item := do
  match ← Clause.checked (tokens statement) with
  | .declaration kind names => return .quantifier ⟨kind, ← names.mapM read⟩
  | .triple s p o => return .triple ⟨← read s, ← read p, ← read o⟩
  | .other found => throw (.arity (String.ofList statement) found)

/-- what the statements of a text are, in order, their terms read by a reader of terms -/
def Item.checkedAllBy (read : List Char → Checked Term) (text : List Char) : Checked (List Item) :=
  (statements text).mapM (Item.checkedBy read)

/-- the term that a token is, the terms inside of it read by a reader of terms -/
def Term.checkedBy (scope : Scope) (read : List Char → Checked Term) (token : List Char) : Checked Term := do
  match ← Shape.checked (trim token) with
  | .iri reference => return .iri (scope.iriOfReference reference)
  | .literal rest =>
    match ← literalChecked scope rest with
    | some t => return t
    | none => throw (.malformedLiteral (String.ofList (trim token)))
  | .var [] => throw (.namelessVariable (String.ofList (trim token)))
  | .var name => return .var (String.ofList name)
  | .blank [] => throw (.namelessBlank (String.ofList (trim token)))
  | .blank id => return .blank (String.ofList id)
  | .list inside => return .list (← (tokens inside).mapM read)
  | .formula inside => return .formula ⟨Item.triples (← Item.checkedAllBy read inside), []⟩
  | .name text => return .iri (scope.iriOfName text)

/-- the term that a token is: stuck where a term inside of it is not shorter -/
def Term.checked (scope : Scope) (token : List Char) : Checked Term :=
  Term.checkedBy scope (fun part => if _h : part.length < token.length then Term.checked scope part else .stuck) token
termination_by token.length

section Reading

variable {scope : Scope} {read : List Char → Checked Term}

/-- a statement is read by its terms, none of which is longer -/
theorem Item.checkedBy_eq {statement : List Char}
    (hread : ∀ part : List Char, part.length ≤ statement.length → read part = .done (Term.read scope part)) :
    Item.checkedBy read statement = .done (Item.read scope statement) := by
  have hclause : Clause.checked (tokens statement) = .done (.ok (Clause.ofStatement statement)) :=
    Clause.checked_eq (tokens statement)
  rw [Item.checkedBy, hclause, Checked.ok_bind]
  cases h : Clause.ofStatement statement with
  | declaration kind names =>
    have hnames := Checked.mapM_done fun name hname => hread name (length_le_of_declaration h hname)
    rw [Item.read_declaration h, ← Checked.done_map, ← hnames]
    rfl
  | triple a b c =>
    obtain ⟨ha, hb, hc⟩ := length_le_of_triple h
    dsimp only
    rw [Item.read_clause h, hread a ha, hread b hb, hread c hc]
    cases Term.read scope a with
    | error e => rfl
    | ok s =>
      cases Term.read scope b with
      | error e => rfl
      | ok p => cases Term.read scope c <;> rfl
  | other found =>
    rw [Item.read_other h]
    rfl

theorem Item.checkedAllBy_eq {text : List Char}
    (hread : ∀ part : List Char, part.length ≤ text.length → read part = .done (Term.read scope part)) :
    Item.checkedAllBy read text = .done (Item.readAll scope text) := by
  rw [Item.checkedAllBy, Item.readAll_eq]
  refine Checked.mapM_done fun statement hstatement => Item.checkedBy_eq fun part hpart => hread part ?_
  exact Nat.le_trans hpart (length_le_of_mem_statements hstatement)

/-- a token is read by the terms inside of it, which are shorter -/
theorem Term.checkedBy_eq {token : List Char}
    (hread : ∀ part : List Char, part.length < token.length → read part = .done (Term.read scope part)) :
    Term.checkedBy scope read token = .done (Term.read scope token) := by
  have hinside : ∀ u : List Char, u.length < (trim token).length → read u = .done (Term.read scope u) :=
    fun u hu => hread u (Nat.lt_of_lt_of_le hu (length_trim_le token))
  rw [Term.checkedBy, Shape.checked_eq, Checked.ok_bind]
  cases hshape : Shape.ofToken (trim token) with
  | list inside =>
    have hlength := length_of_list_shape hshape
    have hitems := Checked.mapM_done fun t ht =>
      hinside t (Nat.lt_of_le_of_lt (length_le_of_mem_tokens (s := inside) ht) hlength)
    rw [Term.read_list hshape, ← Checked.done_map, ← hitems]
    rfl
  | formula inside =>
    have hlength := length_of_formula_shape hshape
    have hitems := Item.checkedAllBy_eq fun u hu => hinside u (Nat.lt_of_le_of_lt (m := inside.length) hu hlength)
    rw [Term.read_formula hshape, ← Checked.done_map, ← hitems]
    rfl
  | literal rest =>
    dsimp only
    rw [literalChecked_eq, Checked.ok_bind]
    cases hliteral : readLiteral? scope rest with
    | none =>
      rw [Term.read_malformed hshape hliteral]
      rfl
    | some t =>
      rw [Term.read_literal hshape hliteral]
      rfl
  | var name =>
    cases name with
    | nil =>
      rw [Term.read_nameless_var hshape]
      rfl
    | cons c name =>
      rw [Term.read_var hshape (List.cons_ne_nil c name)]
      rfl
  | blank id =>
    cases id with
    | nil =>
      rw [Term.read_nameless_blank hshape]
      rfl
    | cons c id =>
      rw [Term.read_blank hshape (List.cons_ne_nil c id)]
      rfl
  | iri reference =>
    rw [Term.read_iri hshape]
    rfl
  | name text =>
    rw [Term.read_name hshape]
    rfl

/-- what is inside of a term is shorter at every depth, so the induction is on the length -/
theorem Term.checked_eq (scope : Scope) (token : List Char) :
    Term.checked scope token = .done (Term.read scope token) := by
  induction hn : token.length using Nat.strong_induction_on generalizing token with
  | _ n ih =>
    subst hn
    rw [Term.checked]
    refine Term.checkedBy_eq fun part hpart => ?_
    rw [dif_pos hpart]
    exact ih part.length hpart part rfl

end Reading

/-! ## Directives -/

/-- the directive that the words after `@prefix` spell -/
def labelDirectiveChecked : List (List Char) → Checked (Option Directive)
  | [label, reference] =>
    if label.getLast? = some ':' then
      (fun found => found.map fun iri => .label (String.ofList (dropColons label)) (String.ofList iri)) <$>
        referenceChecked reference
    else return none
  | _ => return none

/-- the directive that the words after `@base` spell -/
def baseDirectiveChecked : List (List Char) → Checked (Option Directive)
  | [reference] => (fun found => found.map fun iri => .base (String.ofList iri)) <$> referenceChecked reference
  | _ => return none

/-- the directive that the tokens of a statement are, or none -/
def Directive.checked (tokens : List (List Char)) : Checked (Option Directive) :=
  match tokens with
  | [] => return none
  | head :: rest =>
    let orMalformed (found : Option Directive) : Checked (Option Directive) :=
      match found with
      | some d => return some d
      | none => throw (.malformedDirective (" ".intercalate (tokens.map String.ofList)))
    match String.ofList head with
    | "@prefix" => labelDirectiveChecked rest >>= orMalformed
    | "@base" => baseDirectiveChecked rest >>= orMalformed
    | "PREFIX" | "prefix" => labelDirectiveChecked rest
    | "BASE" | "base" => baseDirectiveChecked rest
    | _ => return none

theorem labelDirectiveChecked_eq (words : List (List Char)) :
    labelDirectiveChecked words = .done (.ok (labelDirective? words)) := by
  rcases words with _ | ⟨label, _ | ⟨reference, _ | ⟨word, words⟩⟩⟩
  · rfl
  · rfl
  · simp only [labelDirectiveChecked, labelDirective?, referenceChecked_eq]
    split <;> rfl
  · rfl

theorem baseDirectiveChecked_eq (words : List (List Char)) :
    baseDirectiveChecked words = .done (.ok (baseDirective? words)) := by
  rcases words with _ | ⟨reference, _ | ⟨word, words⟩⟩
  · rfl
  · rw [baseDirectiveChecked, referenceChecked_eq]
    rfl
  · rfl

theorem Directive.checked_eq (tokens : List (List Char)) :
    Directive.checked tokens = .done (Directive.ofTokens tokens) := by
  cases tokens with
  | nil => rfl
  | cons head rest =>
    simp only [Directive.checked, Directive.ofTokens, labelDirectiveChecked_eq, baseDirectiveChecked_eq,
      Checked.ok_bind]
    generalize String.ofList head = word
    split
    · cases labelDirective? rest <;> rfl
    · cases baseDirective? rest <;> rfl
    all_goals try simp only
    all_goals rfl

/-! ## Documents -/

/-- a rule, and the quantifier declarations found in it -/
def RuleText.checked (scope : Scope) (r : RuleText) : Checked (Rule × List Quantifier) := do
  let antecedent ← Item.checkedAllBy (Term.checked scope) r.antecedent
  let consequent ← Item.checkedAllBy (Term.checked scope) r.consequent
  return (⟨⟨Item.triples antecedent, []⟩, ⟨Item.triples consequent, []⟩⟩,
    Item.quantifiers antecedent ++ Item.quantifiers consequent)

theorem RuleText.checked_eq (scope : Scope) (r : RuleText) :
    RuleText.checked scope r = .done (RuleText.read scope r) := by
  have hside : ∀ text, Item.checkedAllBy (Term.checked scope) text = .done (Item.readAll scope text) :=
    fun text => Item.checkedAllBy_eq fun part _ => Term.checked_eq scope part
  rw [RuleText.checked, RuleText.read, hside, hside]
  cases Item.readAll scope r.antecedent with
  | error e => rfl
  | ok antecedent => cases Item.readAll scope r.consequent <;> rfl

/-- the document that a text is -/
def Document.checked (text : String) : Checked Document := do
  let extract ← takeRulesAt (compact text.toList) none 0 0
  let lines ← (statements extract.remainder).mapM fun s => (fun d => (s, d)) <$> Directive.checked (tokens s)
  let scope := Scope.ofDirectives (lines.filterMap (·.2))
  let items ← (lines.filter (·.2.isNone)).mapM fun line => Item.checkedBy (Term.checked scope) line.1
  let rules ← extract.rules.mapM (RuleText.checked scope)
  let (triples, rules') := liftRules (Item.triples items) (rules.map (·.1))
  let quantifiers := Item.quantifiers items ++ rules.flatMap (·.2)
  return { triples, rules := rules'.map (Rule.quantify quantifiers) }

/-- the term that a text is, with nothing declared -/
def Term.checkedText (text : String) : Checked Term :=
  Term.checked {} text.toList

/-- the formula whose inside a text is, with nothing declared -/
def Formula.checked (text : String) : Checked Formula := do
  let items ← Item.checkedAllBy (Term.checked {}) text.toList
  return ⟨Item.triples items, []⟩

theorem Document.checked_eq (text : String) : Document.checked text = .done (Document.ofText text) := by
  have hlines : ∀ l : List (List Char), l.mapM (fun s => (fun d => (s, d)) <$> Directive.checked (tokens s)) =
      .done (l.mapM fun s => (Directive.ofTokens (tokens s)).map fun d => (s, d)) :=
    fun l => Checked.mapM_done fun s _ => by rw [Directive.checked_eq, Checked.done_map]
  have hitems : ∀ (scope : Scope) (lines : List (List Char × Option Directive)),
      lines.mapM (fun line => Item.checkedBy (Term.checked scope) line.1) =
        .done (lines.mapM fun line => Item.read scope line.1) :=
    fun scope lines => Checked.mapM_done fun line _ => Item.checkedBy_eq fun part _ => Term.checked_eq scope part
  have hrules : ∀ (scope : Scope) (rules : List RuleText),
      rules.mapM (RuleText.checked scope) = .done (rules.mapM (RuleText.read scope)) :=
    fun scope rules => Checked.mapM_done fun r _ => RuleText.checked_eq scope r
  simp only [Document.checked, Document.ofText, takeRulesAt_eq, hlines, hitems, hrules]
  -- one step after another: an error ends both
  rw [← Checked.done_bind]
  refine congrArg _ (funext fun extract => ?_)
  rw [← Checked.done_bind]
  refine congrArg _ (funext fun lines => ?_)
  rw [← Checked.done_bind]
  refine congrArg _ (funext fun items => ?_)
  rw [← Checked.done_bind]
  rfl

theorem Formula.checked_eq (text : String) : Formula.checked text = .done (Formula.ofText text) := by
  have hitems : Item.checkedAllBy (Term.checked {}) text.toList = _ :=
    Item.checkedAllBy_eq fun part _ => Term.checked_eq {} part
  rw [Formula.checked, Formula.ofText, hitems]
  cases Item.readAll {} text.toList <;> rfl

/-- **Reading is never stuck.** A slice is there exactly if its bytes are in order, and each is where a character begins
or the text ends. And every text, however it is malformed, is read to what it is or to an error: each slice on the way is
there, no group is left that is not open, each jump goes ahead, and each term inside of a term is shorter. -/
theorem checked_reading_done :
    (∀ (s : List Char) (i j : Nat), (between? i j s).isSome ↔ i ≤ j ∧ IsBoundary s i ∧ IsBoundary s j) ∧
    (∀ (s : List Char) (i : Nat), (from? i s).isSome ↔ IsBoundary s i) ∧
    ∀ text : String,
      Document.checked text = .done (Document.ofText text) ∧ Formula.checked text = .done (Formula.ofText text) ∧
        Term.checkedText text = .done (Term.ofText text) :=
  ⟨fun _ _ _ => between?_isSome_iff, fun _ _ => from?_isSome_iff,
    fun text => ⟨Document.checked_eq text, Formula.checked_eq text, Term.checked_eq {} text.toList⟩⟩

end N3Rules
