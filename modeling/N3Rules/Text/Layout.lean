/-
The compact form of a document's text: no comments, and every run of blanks squeezed to one space.

Quotes and `<...>` IRIs are copied as they are, so a `#` or a blank inside them stays. The text neither starts nor
ends with a blank, up to a quote or an IRI that is never closed.
-/
import N3Rules.Text.Enclosure

namespace N3Rules.Text

/-- where in the layout of a document a position is -/
inductive Layout where
  | plain
  | quoted (q : Quote)
  | iri
  | comment
  deriving DecidableEq, Repr

/-- the layout after the character `c`, which `next` follows -/
def Layout.feed (l : Layout) (c : Char) (next : Option Char) : Layout :=
  match l with
  | .quoted q => ((q.feed c).map Layout.quoted).getD .plain
  | .iri => if c = '>' then .plain else .iri
  | .comment => if c = '\n' then .plain else .comment
  | .plain =>
    if c = '#' then .comment
    else if c = '<' && opensAngle next then .iri
    else ((Quote.opening? c).map Layout.quoted).getD .plain

/-- what is written for the character `c`; `gap` says that a blank would be the first of the text or would follow
a space -/
def Layout.write (l : Layout) (gap : Bool) (c : Char) : List Char :=
  match l with
  | .quoted _ | .iri => [c]
  | .comment => if c = '\n' && !gap then [' '] else []
  | .plain =>
    if c = '#' then []
    else if isBlank c then (if gap then [] else [' '])
    else [c]

/-- whether a blank would now be the first of the text or follow a space, when it was so before `written` -/
def gapAfter (gap : Bool) (written : List Char) : Bool :=
  match written.getLast? with
  | some c => c == ' '
  | none => gap

/-- the text from a position on, without comments and with its blanks squeezed -/
def squeeze (l : Layout) (gap : Bool) : List Char → List Char
  | [] => []
  | c :: s =>
    let written := l.write gap c
    written ++ squeeze (l.feed c s.head?) (gapAfter gap written) s

/-- the compact form of a document's text -/
def compact (s : List Char) : List Char :=
  trimEnd (squeeze .plain true s)

end N3Rules.Text
