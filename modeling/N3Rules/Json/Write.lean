/-
Writing JSON text over several lines, indented by two spaces a level.
-/

namespace N3Rules.Json

def hexChar (n : Nat) : Char :=
  if n < 10 then Char.ofNat ('0'.toNat + n) else Char.ofNat ('a'.toNat + (n - 10))

/-- a character inside the quotes of a string. Only control characters, the quote and the backslash are escaped -/
def writtenChar (c : Char) : List Char :=
  match c with
  | '"' => ['\\', '"']
  | '\\' => ['\\', '\\']
  | '\x08' => ['\\', 'b']
  | '\x0c' => ['\\', 'f']
  | '\n' => ['\\', 'n']
  | '\r' => ['\\', 'r']
  | '\t' => ['\\', 't']
  | c => if c.toNat < 0x20 then ['\\', 'u', '0', '0', hexChar (c.toNat / 16), hexChar (c.toNat % 16)] else [c]

def writtenString (s : String) : String :=
  String.ofList ('"' :: s.toList.flatMap writtenChar ++ ['"'])

/-- the line break before something at a level -/
def breakAt (level : Nat) : String :=
  "\n" ++ "".pushn ' ' (2 * level)

/-- an array of which every item has a line at the level below; an empty one has no lines -/
def writtenArray (level : Nat) (items : List String) : String :=
  if items.isEmpty then "[]"
  else
    "[" ++ ",".intercalate (items.map (breakAt (level + 1) ++ ·)) ++ breakAt level ++ "]"

/-- an object of which every field has a line at the level below -/
def writtenObject (level : Nat) (fields : List (String × String)) : String :=
  "\x7b" ++ ",".intercalate (fields.map fun f => breakAt (level + 1) ++ writtenString f.1 ++ ": " ++ f.2)
    ++ breakAt level ++ "\x7d"

end N3Rules.Json
