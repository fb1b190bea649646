/-
Directives and the scope they make: which namespaces have a label, and what relative IRIs are relative to.

- `Directive.ofTokens`: the directive that the tokens of a statement are;
- `Scope.ofDirectives`: the scope of a document, in which a later declaration replaces an earlier one;
- `Scope.iriOfName`, `Scope.iriOfReference`: the IRIs of a name `label:local` and of a reference `<...>`.

Nothing is declared to begin with. Expanding and resolving join texts and normalise nothing.
-/
import N3Rules.SyntaxError

namespace N3Rules

/-- a declaration that holds for a whole document -/
inductive Directive where
  /-- names with a label belong to a namespace -/
  | label (label : String) (iri : String)
  /-- relative IRIs start with a base -/
  | base (iri : String)
  deriving DecidableEq, Repr

/-- the text between `<` and `>` of a token that is an IRI reference -/
def iriReference? : List Char → Option (List Char)
  | '<' :: s => if s.getLast? = some '>' then some s.dropLast else none
  | _ => none

/-- the text without the colons it ends with -/
def dropColons (s : List Char) : List Char :=
  (s.reverse.dropWhile (· == ':')).reverse

/-- the directive that the words after `@prefix` spell -/
def labelDirective? : List (List Char) → Option Directive
  | [label, reference] =>
    if label.getLast? = some ':' then
      (iriReference? reference).map fun iri => .label (String.ofList (dropColons label)) (String.ofList iri)
    else none
  | _ => none

/-- the directive that the words after `@base` spell -/
def baseDirective? : List (List Char) → Option Directive
  | [reference] => (iriReference? reference).map fun iri => .base (String.ofList iri)
  | _ => none

/-- the directive that the tokens of a statement are, or none. The words without `@` are also plain names, so a
statement that starts with one and goes on in another way is no directive and no error -/
def Directive.ofTokens (tokens : List (List Char)) : Except SyntaxError (Option Directive) :=
  match tokens with
  | [] => .ok none
  | head :: rest =>
    let malformed := SyntaxError.malformedDirective (" ".intercalate (tokens.map String.ofList))
    match String.ofList head with
    | "@prefix" => ((labelDirective? rest).map fun d => .ok (some d)).getD (.error malformed)
    | "@base" => ((baseDirective? rest).map fun d => .ok (some d)).getD (.error malformed)
    | "PREFIX" | "prefix" => .ok (labelDirective? rest)
    | "BASE" | "base" => .ok (baseDirective? rest)
    | _ => .ok none

structure Scope where
  /-- what relative IRIs start with -/
  base : Option String := none
  /-- the namespace of each label, one entry a label -/
  labels : List (String × String) := []
  deriving DecidableEq, Repr

def Scope.namespace? (s : Scope) (label : String) : Option String :=
  s.labels.lookup label

def Scope.declare (s : Scope) : Directive → Scope
  | .base iri => { s with base := some iri }
  | .label label iri => { s with labels := (label, iri) :: s.labels.filter (·.1 != label) }

/-- the scope that directives make, in order -/
def Scope.ofDirectives (ds : List Directive) : Scope :=
  ds.foldl Scope.declare {}

/-- the texts before and after the first colon -/
def splitColon? : List Char → Option (List Char × List Char)
  | [] => none
  | ':' :: s => some ([], s)
  | c :: s => (splitColon? s).map fun p => (c :: p.1, p.2)

/-- whether a text starts with a scheme: letters, digits, `+`, `-` and `.`, at least one, before a colon -/
def isAbsolute (s : List Char) : Bool :=
  match splitColon? s with
  | some (scheme, _) =>
    !scheme.isEmpty && scheme.all fun c => c.isAlphanum || c == '+' || c == '-' || c == '.'
  | none => false

/-- the IRI of a name: the namespace of its label and then its local part, or the name itself when its label has no
namespace or its local part starts with two slashes -/
def Scope.iriOfName (s : Scope) (name : List Char) : String :=
  match splitColon? name with
  | none => String.ofList name
  | some (label, loc) =>
    match loc, s.namespace? (String.ofList label) with
    | '/' :: '/' :: _, _ | _, none => String.ofList name
    | _, some iri => iri ++ String.ofList loc

/-- the IRI of a reference: after the base, unless there is none or the reference has a scheme -/
def Scope.iriOfReference (s : Scope) (reference : List Char) : String :=
  match s.base with
  | some base => if isAbsolute reference then String.ofList reference else base ++ String.ofList reference
  | none => String.ofList reference

end N3Rules
