/-
Reading JSON text.

- `Json.ofText?`: the value that a text is, with nothing but blanks around it.

The grammar is strict: no commas at the end, no leading zeros, no control characters in strings. A number is only
checked, never evaluated. The fields of an object keep their order, and a name may occur twice.
-/

namespace N3Rules

inductive Json where
  | null
  | bool (b : Bool)
  | number
  /-- a string, without its text when its escapes spell half of a surrogate pair -/
  | string (text : Option String)
  | array (items : List Json)
  /-- names and values; a name may lack its text as a string may -/
  | object (fields : List (Option String × Json))

namespace Json

/-- the text without the JSON blanks it starts with -/
def skipBlanks (s : List Char) : List Char :=
  s.dropWhile fun c => c == ' ' || c == '\t' || c == '\n' || c == '\r'

/-! ## Strings -/

def hexDigit? (c : Char) : Option Nat :=
  if c.isDigit then some (c.toNat - '0'.toNat)
  else if 'a' ≤ c ∧ c ≤ 'f' then some (c.toNat - 'a'.toNat + 10)
  else if 'A' ≤ c ∧ c ≤ 'F' then some (c.toNat - 'A'.toNat + 10)
  else none

/-- the code unit of four hexadecimal digits -/
def codeUnit? (a b c d : Char) : Option Nat := do
  return ((← hexDigit? a) * 16 + (← hexDigit? b)) * 256 + (← hexDigit? c) * 16 + (← hexDigit? d)

/-- the character that a backslash and one character stand for -/
def escaped? : Char → Option Char
  | '"' => some '"'
  | '\\' => some '\\'
  | '/' => some '/'
  | 'b' => some '\x08'
  | 'f' => some '\x0c'
  | 'n' => some '\n'
  | 'r' => some '\r'
  | 't' => some '\t'
  | _ => none

/-- the code points and surrogates of a string, and what follows it, for the text after its opening quote -/
def readUnits? : List Char → Option (List Nat × List Char)
  | '"' :: s => some ([], s)
  | '\\' :: 'u' :: a :: b :: c :: d :: s => do
    let unit ← codeUnit? a b c d
    let (units, rest) ← readUnits? s
    return (unit :: units, rest)
  | '\\' :: c :: s => do
    let e ← escaped? c
    let (units, rest) ← readUnits? s
    return (e.toNat :: units, rest)
  | c :: s => if c.toNat < 0x20 ∨ c = '\\' then none else (readUnits? s).map fun r => (c.toNat :: r.1, r.2)
  | [] => none

/-- the text of code points and surrogates, or none when a surrogate has no partner -/
def textOfUnits? : List Nat → Option (List Char)
  | [] => some []
  | u :: us =>
    if 0xD800 ≤ u ∧ u ≤ 0xDBFF then
      match us with
      | v :: vs =>
        if 0xDC00 ≤ v ∧ v ≤ 0xDFFF then
          (textOfUnits? vs).map (Char.ofNat (0x10000 + (u - 0xD800) * 0x400 + (v - 0xDC00)) :: ·)
        else none
      | [] => none
    else if 0xDC00 ≤ u ∧ u ≤ 0xDFFF then none
    else (textOfUnits? us).map (Char.ofNat u :: ·)

/-- a string and what follows it, for the text after its opening quote -/
def readString? (s : List Char) : Option (Option String × List Char) :=
  (readUnits? s).map fun r => ((textOfUnits? r.1).map String.ofList, r.2)

/-! ## Numbers -/

def skipDigits? (s : List Char) : Option (List Char) :=
  if (s.takeWhile Char.isDigit).isEmpty then none else some (s.dropWhile Char.isDigit)

/-- what follows the whole part of a number: a zero, or digits that start with another digit -/
def skipWhole? : List Char → Option (List Char)
  | '0' :: s => some s
  | s => skipDigits? s

/-- what follows the fraction of a number, if it has one -/
def skipFraction? : List Char → Option (List Char)
  | '.' :: s => skipDigits? s
  | s => some s

/-- what follows the exponent of a number, if it has one -/
def skipExponent? : List Char → Option (List Char)
  | 'e' :: '+' :: s | 'e' :: '-' :: s | 'E' :: '+' :: s | 'E' :: '-' :: s | 'e' :: s | 'E' :: s => skipDigits? s
  | s => some s

def skipNumber? (s : List Char) : Option (List Char) := do
  let s ← skipWhole? (if s.head? = some '-' then s.tail else s)
  let s ← skipFraction? s
  skipExponent? s

/-! ## Values -/

mutual

/-- a value and what follows it; it may hold values to the given depth -/
def readValue? (depth : Nat) (s : List Char) : Option (Json × List Char) :=
  match depth, skipBlanks s with
  | _, 'n' :: 'u' :: 'l' :: 'l' :: s => some (.null, s)
  | _, 't' :: 'r' :: 'u' :: 'e' :: s => some (.bool true, s)
  | _, 'f' :: 'a' :: 'l' :: 's' :: 'e' :: s => some (.bool false, s)
  | _, '"' :: s => (readString? s).map fun r => (.string r.1, r.2)
  | d + 1, '[' :: s =>
    match skipBlanks s with
    | ']' :: s => some (.array [], s)
    | s => (readItems? d s).map fun r => (.array r.1, r.2)
  | d + 1, '{' :: s =>
    match skipBlanks s with
    | '}' :: s => some (.object [], s)
    | s => (readFields? d s).map fun r => (.object r.1, r.2)
  | _, s => (skipNumber? s).map fun s => (.number, s)

/-- the items of an array from one of them on, and what follows the array -/
def readItems? (depth : Nat) (s : List Char) : Option (List Json × List Char) :=
  match depth with
  | 0 => none
  | d + 1 => do
    let (item, s) ← readValue? d s
    match skipBlanks s with
    | ']' :: s => return ([item], s)
    | ',' :: s =>
      let (items, s) ← readItems? d s
      return (item :: items, s)
    | _ => none

/-- the fields of an object from one of them on, and what follows the object -/
def readFields? (depth : Nat) (s : List Char) : Option (List (Option String × Json) × List Char) :=
  match depth, skipBlanks s with
  | d + 1, '"' :: s => do
    let (name, s) ← readString? s
    match skipBlanks s with
    | ':' :: s =>
      let (value, s) ← readValue? d s
      match skipBlanks s with
      | '}' :: s => return ([(name, value)], s)
      | ',' :: s =>
        let (fields, s) ← readFields? d s
        return ((name, value) :: fields, s)
      | _ => none
    | _ => none
  | _, _ => none

end

/-- the value that a text is. The depth of a value, counting every item and field as one deeper than the one before
it, is less than the length of the text -/
def ofText? (text : String) : Option Json :=
  match readValue? (text.toList.length + 1) text.toList with
  | some (value, rest) => if (skipBlanks rest).isEmpty then some value else none
  | none => none

end Json

end N3Rules
