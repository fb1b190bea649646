/-
Numerals: the texts that denote a floating-point number.

An optional sign, then one of the words `inf`, `infinity`, `nan` in any case, or decimal digits with at most one
point among or beside them and an optional exponent.
-/

namespace N3Rules.Text

/-- the text without the sign it starts with, if it does -/
def dropSign : List Char → List Char
  | '+' :: s | '-' :: s => s
  | s => s

/-- one or more decimal digits -/
def isDigits (s : List Char) : Bool :=
  !s.isEmpty && s.all Char.isDigit

/-- nothing, or `e` and a signed whole number -/
def isExponent : List Char → Bool
  | [] => true
  | 'e' :: s | 'E' :: s => isDigits (dropSign s)
  | _ => false

/-- digits with at most one point, at least one digit, and an optional exponent -/
def isDecimal (s : List Char) : Bool :=
  let whole := s.takeWhile Char.isDigit
  match s.dropWhile Char.isDigit with
  | '.' :: t =>
    let fraction := t.takeWhile Char.isDigit
    !(whole.isEmpty && fraction.isEmpty) && isExponent (t.dropWhile Char.isDigit)
  | t => !whole.isEmpty && isExponent t

/-- the numbers that have a word for them -/
def isNumberWord (s : List Char) : Bool :=
  ["inf".toList, "infinity".toList, "nan".toList].contains (s.map Char.toLower)

/-- whether a text denotes a floating-point number -/
def isNumeral (s : List Char) : Bool :=
  isNumberWord (dropSign s) || isDecimal (dropSign s)

end N3Rules.Text
