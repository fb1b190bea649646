/-
Quoted stretches of a text.

A quote runs from its mark to the next occurrence of the same mark that no backslash escapes. The scans of this
library differ in which marks open a quote, and agree on where an open one ends; that rule is here.
-/

namespace N3Rules.Text

/-- an open quote: the mark that will close it, and whether the next character is escaped -/
structure Quote where
  mark : Char
  escaped : Bool
  deriving DecidableEq, Repr

def apostrophe : Char := '\x27'

/-- the quote that a character opens, where both marks `"` and the apostrophe do -/
def Quote.opening? (c : Char) : Option Quote :=
  if c = '"' ∨ c = apostrophe then some ⟨c, false⟩ else none

/-- an open quote after one more character: an escape covers one character, the mark closes -/
def Quote.feed (q : Quote) (c : Char) : Option Quote :=
  if q.escaped then some { q with escaped := false }
  else if c = '\\' then some { q with escaped := true }
  else if c = q.mark then none
  else some q

end N3Rules.Text
