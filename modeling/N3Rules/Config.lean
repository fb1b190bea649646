/-
How an engine is set up: the format of its input, and what it traces.

A configuration is read from JSON. A record is an object of its fields, or an array of them in order; what is left
out keeps its default. Fields that are not known are skipped, and a known field may not occur twice.
-/
import N3Rules.Json
import N3Rules.Text.Blank

namespace N3Rules

/-- a format that documents come in -/
inductive Format where
  | n3
  deriving DecidableEq, Repr

def Format.name : Format → String
  | .n3 => "n3"

/-- the format that a name means, blanks around it and the case of its ASCII letters aside -/
def Format.ofName? (name : String) : Option Format :=
  let words := (Text.trim name.toList).map Char.toLower
  if ["n3".toList, "notation3".toList, "text/n3".toList].contains words then some .n3 else none

/-- which steps of a run are traced -/
structure Tracing where
  matching : Bool := false
  rules : Bool := false
  builtins : Bool := false
  deriving DecidableEq, Repr

def Tracing.all : Tracing :=
  ⟨true, true, true⟩

/-- the set-up of an engine -/
structure Config where
  format : Format := .n3
  tracing : Tracing := {}
  deriving DecidableEq, Repr

/-! ## Reading a configuration -/

/-- the known fields that a record has, by name -/
def recordFields? (known : List String) : Json → Option (List (String × Json))
  | .array items => if items.length ≤ known.length then some (known.zip items) else none
  | .object fields => do
    let named ← fields.mapM fun f => f.1.map fun name => (name, f.2)
    let found := named.filter fun f => known.contains f.1
    if (found.map (·.1)).eraseDups.length = found.length then some found else none
  | _ => none

/-- the value of a field, or its default when the record lacks it -/
def field? {α : Type} (fields : List (String × Json)) (name : String) (read : Json → Option α) (default : α) :
    Option α :=
  match fields.lookup name with
  | some value => read value
  | none => some default

def readBool? : Json → Option Bool
  | .bool b => some b
  | _ => none

/-- a format: its name, or an object with the name as the only field and nothing in it -/
def readFormat? : Json → Option Format
  | .string (some "n3") | .object [(some "n3", .null)] => some .n3
  | _ => none

def readTracing? (json : Json) : Option Tracing := do
  let fields ← recordFields? ["trace_matching", "trace_rules", "trace_builtins"] json
  return {
    matching := ← field? fields "trace_matching" readBool? false
    rules := ← field? fields "trace_rules" readBool? false
    builtins := ← field? fields "trace_builtins" readBool? false }

def Config.ofJson? (json : Json) : Option Config := do
  let fields ← recordFields? ["format", "log"] json
  return {
    format := ← field? fields "format" readFormat? .n3
    tracing := ← field? fields "log" readTracing? {} }

/-- the configuration that a JSON text is -/
def Config.ofText? (text : String) : Option Config :=
  (Json.ofText? text).bind Config.ofJson?

end N3Rules
