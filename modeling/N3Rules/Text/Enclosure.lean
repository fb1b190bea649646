/-
What encloses a position of a text: an open quote, and counts of the open brackets of each kind.

Separators count as separators only where nothing encloses them. The counts never go below zero, so a stray
closing bracket is ignored; and brackets of different kinds are counted apart, so they may interleave.
-/
import N3Rules.Text.Blank
import N3Rules.Text.Quote

namespace N3Rules.Text

/-- what is open at a position: at most one quote, and so many brackets of each kind -/
structure Enclosure where
  quote : Option Quote := none
  parens : Nat := 0
  brackets : Nat := 0
  braces : Nat := 0
  angles : Nat := 0
  deriving DecidableEq, Repr

def Enclosure.isOutside (e : Enclosure) : Bool :=
  e.quote.isNone && e.parens == 0 && e.brackets == 0 && e.braces == 0 && e.angles == 0

/-- whether a `<` opens an IRI: it does when the next character is there, is not blank and is not `=` -/
def opensAngle : Option Char → Bool
  | some next => !isBlank next && next != '='
  | none => false

/-- what is open after the character `c`, which `next` follows -/
def Enclosure.feed (e : Enclosure) (c : Char) (next : Option Char) : Enclosure :=
  match e.quote with
  | some q => { e with quote := q.feed c }
  | none =>
    match c with
    | '(' => { e with parens := e.parens + 1 }
    | ')' => { e with parens := e.parens - 1 }
    | '[' => { e with brackets := e.brackets + 1 }
    | ']' => { e with brackets := e.brackets - 1 }
    | '{' => { e with braces := e.braces + 1 }
    | '}' => { e with braces := e.braces - 1 }
    | '<' => if opensAngle next then { e with angles := e.angles + 1 } else e
    | '>' => { e with angles := e.angles - 1 }
    | _ => { e with quote := Quote.opening? c }

end N3Rules.Text
