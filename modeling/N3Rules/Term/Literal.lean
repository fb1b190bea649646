/-
Reading a literal: a quoted text, then nothing, `^^` and a datatype, or `@` and a language tag.

- `readQuoted`: the value between the quotes, its escapes decoded, and what follows;
- `readSuffix?`: the datatype and the language that what follows spells;
- `isLanguageTag`: letters, then groups of letters and digits, joined by hyphens.
-/
import N3Rules.Text.Blank
import N3Rules.Scope

namespace N3Rules

open Text

/-- the character that a backslash and `c` stand for -/
def unescapeChar : Char → Char
  | 'n' => '\n'
  | 't' => '\t'
  | 'r' => '\r'
  | c => c

/-- the value of a quoted text and what follows its closing quote, for the text after its opening quote -/
def readQuoted : List Char → Option (List Char × List Char)
  | [] => none
  | '"' :: s => some ([], s)
  | ['\\'] => none
  | '\\' :: c :: s => (readQuoted s).map fun r => (unescapeChar c :: r.1, r.2)
  | c :: s => (readQuoted s).map fun r => (c :: r.1, r.2)

/-- the body of a reference `<...>` that the text starts with, and what follows it; the body is not empty and holds
neither `>` nor a blank -/
def leadingReference? : List Char → Option (List Char × List Char)
  | '<' :: s =>
    let body := s.takeWhile fun c => c != '>' && !isBlank c
    match body, s.drop body.length with
    | _ :: _, '>' :: rest => some (body, rest)
    | _, _ => none
  | _ => none

/-- the datatype that a text spells: a reference if the text starts with one, else a name without blanks -/
def readDatatype? (scope : Scope) (s : List Char) : Option String :=
  match leadingReference? s with
  | some (body, []) => some (scope.iriOfReference body)
  | some _ => none
  | none => if !s.isEmpty && s.all fun c => !isBlank c then some (scope.iriOfName s) else none

/-- a text of at least one character, all of one class -/
def isRunOf (p : Char → Bool) (s : List Char) : Bool :=
  !s.isEmpty && s.all p

/-- whether a text is a language tag: a run of ASCII letters, then runs of ASCII letters and digits, joined by
hyphens -/
def isLanguageTag (s : List Char) : Bool :=
  match s.splitOn '-' with
  | [] => false
  | tag :: subtags => isRunOf Char.isAlpha tag && subtags.all (isRunOf Char.isAlphanum)

/-- the datatype and the language that the text after a closing quote spells -/
def readSuffix? (scope : Scope) : List Char → Option (Option String × Option String)
  | [] => some (none, none)
  | '^' :: '^' :: s => (readDatatype? scope s).map fun d => (some d, none)
  | '@' :: s => if isLanguageTag s then some (none, some (String.ofList s)) else none
  | _ => none

end N3Rules
