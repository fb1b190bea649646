/-
The written form of terms, triples, formulas and rules.

Quantifier declarations are not written. A triple's written form ends in a full stop; its key is the form without
it, and facts with one key count as one fact.
-/
import N3Rules.Term

namespace N3Rules

/-- a character inside the quotes of a literal -/
def escapeChar : Char → List Char
  | '"' => ['\\', '"']
  | '\\' => ['\\', '\\']
  | '\n' => ['\\', 'n']
  | '\t' => ['\\', 't']
  | '\r' => ['\\', 'r']
  | c => [c]

def escape (s : List Char) : List Char :=
  s.flatMap escapeChar

/-- what follows the closing quote of a literal: its datatype, or else its language -/
def literalSuffix : Option String → Option String → List Char
  | some datatype, _ => '^' :: '^' :: '<' :: datatype.toList ++ ['>']
  | none, some language => '@' :: language.toList
  | none, none => []

mutual

/-- the written form of a term -/
def Term.chars : Term → List Char
  | .var name => '?' :: name.toList
  | .literal value datatype language =>
    '"' :: escape value.toList ++ '"' :: literalSuffix datatype language
  | .blank id => '_' :: ':' :: id.toList
  | .iri value => '<' :: value.toList ++ ['>']
  | .list items => '(' :: Term.spacedChars items ++ [')']
  | .formula body => body.chars

/-- the written forms of terms, with a space between them -/
def Term.spacedChars : List Term → List Char
  | [] => []
  | [t] => t.chars
  | t :: u :: ts => t.chars ++ ' ' :: Term.spacedChars (u :: ts)

/-- the three terms of a triple, with a space between them -/
def Triple.keyChars : Triple → List Char
  | ⟨s, p, o⟩ => s.chars ++ ' ' :: p.chars ++ ' ' :: o.chars

/-- the written forms of triples, each followed by a space -/
def Triple.allChars : List Triple → List Char
  | [] => []
  | t :: ts => t.keyChars ++ ' ' :: '.' :: ' ' :: Triple.allChars ts

def Formula.chars : Formula → List Char
  | ⟨[], _⟩ => ['{', '}']
  | ⟨t :: ts, _⟩ => '{' :: ' ' :: Triple.allChars (t :: ts) ++ ['}']

end

def Triple.chars (t : Triple) : List Char :=
  t.keyChars ++ [' ', '.']

def Rule.chars (r : Rule) : List Char :=
  r.antecedent.chars ++ [' ', '=', '>', ' '] ++ r.consequent.chars ++ [' ', '.']

/-- the written form of a term -/
def Term.text (t : Term) : String :=
  String.ofList t.chars

/-- what a triple is known by in a set of facts -/
def Triple.key (t : Triple) : String :=
  String.ofList t.keyChars

def Triple.text (t : Triple) : String :=
  String.ofList t.chars

def Formula.text (f : Formula) : String :=
  String.ofList f.chars

def Rule.text (r : Rule) : String :=
  String.ofList r.chars

end N3Rules
