/-
Documents: facts, rules, and the builtins that the rules may call.

- `Document.ofText`: the document that a text is, or the first syntax error;
- `Triple.rule?`: a triple `{ ... } log:implies { ... }` is a rule and not a fact.

A text is read in this order: braces of rules, directives, top-level statements, insides of rules. Directives hold
for the whole text, wherever they stand. Quantifier declarations are not scoped either: every rule has all of them.
-/
import N3Rules.Builtin
import N3Rules.Term.Read
import N3Rules.Text.Layout
import N3Rules.Text.RuleText
import N3Rules.Vocabulary

namespace N3Rules

open Text

/-- facts, rules and builtins -/
structure Document where
  triples : List Triple
  rules : List Rule
  /-- the builtins that were there when the document was last put to use; a text has none -/
  builtins : List Builtin := []

/-- the rule that a triple of two formulas is -/
def Triple.rule? : Triple → Option Rule
  | ⟨.formula antecedent, .iri predicate, .formula consequent⟩ =>
    if predicate = impliesIri then some ⟨antecedent, consequent⟩ else none
  | _ => none

/-- facts and rules told apart: the triples that are no rules, and the given rules with the others after them -/
def liftRules (triples : List Triple) (rules : List Rule) : List Triple × List Rule :=
  (triples.filter fun t => t.rule?.isNone, rules ++ triples.filterMap Triple.rule?)

/-- the rule with quantifier declarations on both sides, if there are any -/
def Rule.quantify (qs : List Quantifier) (r : Rule) : Rule :=
  if qs.isEmpty then r
  else ⟨{ r.antecedent with quantifiers := qs }, { r.consequent with quantifiers := qs }⟩

/-- a rule, and the quantifier declarations found in it -/
def RuleText.read (scope : Scope) (r : RuleText) : Except SyntaxError (Rule × List Quantifier) := do
  let antecedent ← Item.readAll scope r.antecedent
  let consequent ← Item.readAll scope r.consequent
  return (⟨⟨Item.triples antecedent, []⟩, ⟨Item.triples consequent, []⟩⟩,
    Item.quantifiers antecedent ++ Item.quantifiers consequent)

/-- the document that a text is -/
def Document.ofText (text : String) : Except SyntaxError Document := do
  let extract ← takeRules (compact text.toList)
  let lines ← (statements extract.remainder).mapM fun s => (Directive.ofTokens (tokens s)).map fun d => (s, d)
  let scope := Scope.ofDirectives (lines.filterMap (·.2))
  let items ← (lines.filter (·.2.isNone)).mapM fun line => Item.read scope line.1
  let rules ← extract.rules.mapM (RuleText.read scope)
  let (triples, rules') := liftRules (Item.triples items) (rules.map (·.1))
  let quantifiers := Item.quantifiers items ++ rules.flatMap (·.2)
  return { triples, rules := rules'.map (Rule.quantify quantifiers) }

/-- the term that a text is, with nothing declared -/
def Term.ofText (text : String) : Except SyntaxError Term :=
  Term.read {} text.toList

/-- the formula whose inside a text is, with nothing declared -/
def Formula.ofText (text : String) : Except SyntaxError Formula := do
  let items ← Item.readAll {} text.toList
  return ⟨Item.triples items, []⟩

end N3Rules
