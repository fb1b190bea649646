/-
Why a text is not a document, a formula or a term, and the words for it.
-/

namespace N3Rules

/-- why a text is refused -/
inductive SyntaxError where
  /-- a statement has a number of terms other than three -/
  | arity (statement : String) (found : Nat)
  /-- a token starts as a literal and is none -/
  | malformedLiteral (token : String)
  /-- a question mark stands alone -/
  | namelessVariable (token : String)
  /-- the mark of a blank node stands alone -/
  | namelessBlank (token : String)
  /-- the brace at a byte offset of the compact text has no partner -/
  | unbalancedBraces (offset : Nat)
  /-- an arrow is followed, at a byte offset of the compact text, by something other than a formula -/
  | consequentNotFormula (offset : Nat)
  /-- a statement starts as a directive and is none -/
  | malformedDirective (statement : String)
  deriving DecidableEq, Repr

def SyntaxError.message : SyntaxError → String
  | .arity statement found => s!"statement `{statement}` has {found} terms, expected 3"
  | .malformedLiteral token => s!"malformed literal `{token}`"
  | .namelessVariable token => s!"variable without a name in `{token}`"
  | .namelessBlank token => s!"blank node without an id in `{token}`"
  | .unbalancedBraces offset => s!"unbalanced braces near byte {offset}"
  | .consequentNotFormula offset => s!"rule consequent must be a `\x7b...\x7d` formula near byte {offset}"
  | .malformedDirective statement => s!"malformed directive `{statement}`"

end N3Rules
