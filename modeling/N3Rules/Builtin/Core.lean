/-
The builtins that are always there: equality of terms, and tests for the kind of a term.

The tests on literals look at the datatype first. A literal without a datatype passes when its value alone would.
-/
import N3Rules.Builtin
import N3Rules.Calendar
import N3Rules.Text.Numeral
import N3Rules.Vocabulary

namespace N3Rules

open Text

/-- the local name of an XML Schema datatype, written in full or with the label `xsd` -/
def xsdName? (datatype : String) : Option String :=
  let name := datatype.toList
  let full := xsdNamespace.toList
  let short := "xsd:".toList
  if full.isPrefixOf name then some (String.ofList (name.drop full.length))
  else if short.isPrefixOf name then some (String.ofList (name.drop short.length))
  else none

def numericDatatypes : List String :=
  ["integer", "decimal", "double", "float", "int", "long", "short", "byte", "nonNegativeInteger", "positiveInteger",
    "negativeInteger", "nonPositiveInteger", "unsignedInt", "unsignedLong", "unsignedShort", "unsignedByte"]

/-- whether a literal's datatype is missing or an XML Schema datatype of which `p` holds -/
def datatypeFits (p : String → Bool) : Option String → Bool
  | none => true
  | some datatype => ((xsdName? datatype).map p).getD false

/-- a literal without a language whose value is a numeral -/
def Term.isNumeric : Term → Bool
  | .literal value datatype none => datatypeFits numericDatatypes.contains datatype && isNumeral (trim value.toList)
  | _ => false

/-- a literal that is a string, whatever its language -/
def Term.isString : Term → Bool
  | .literal _ datatype _ => datatypeFits (· == "string") datatype
  | _ => false

def Term.isDate : Term → Bool
  | .literal value datatype _ => datatypeFits (· == "date") datatype && Calendar.isDate value.toList
  | _ => false

/-- a literal whose value is a point in time -/
def Term.isDateTime : Term → Bool
  | .literal value datatype _ => datatypeFits (· == "dateTime") datatype && Calendar.isDateTime value.toList
  | _ => false

def Term.isIri : Term → Bool
  | .iri _ => true
  | _ => false

def Term.isLiteral : Term → Bool
  | .literal .. => true
  | _ => false

def Term.isBlankNode : Term → Bool
  | .blank _ => true
  | _ => false

def Term.isList : Term → Bool
  | .list _ => true
  | _ => false

/-- a builtin that tests its subject -/
def unaryTest (uri : String) (p : Term → Bool) (description : Option String) : Builtin where
  uri := uri
  arity := .unary
  description := description
  answer?
    | [t] => some (.truth (p t))
    | _ => none

/-- a builtin that compares its subject with its object -/
def binaryTest (uri : String) (p : Term → Term → Bool) (description : Option String) : Builtin where
  uri := uri
  arity := .binary
  description := description
  answer?
    | [t, u] => some (.truth (p t u))
    | _ => none

/-- the builtins that are always there -/
def coreBuiltins : List Builtin :=
  [binaryTest (logNamespace ++ "equalTo") (· == ·) (some "subject and object are the same term"),
    binaryTest (logNamespace ++ "notEqualTo") (· != ·) (some "subject and object are different terms"),
    unaryTest (typeNamespace ++ "isIri") Term.isIri none,
    unaryTest (typeNamespace ++ "isLiteral") Term.isLiteral none,
    unaryTest (typeNamespace ++ "isBlank") Term.isBlankNode none,
    unaryTest (typeNamespace ++ "isList") Term.isList none,
    unaryTest (typeNamespace ++ "isNumeric") Term.isNumeric
      (some "literal with a numeric xsd datatype, or a plain numeric literal"),
    unaryTest (typeNamespace ++ "isString") Term.isString none,
    unaryTest (typeNamespace ++ "isDate") Term.isDate (some "literal holding an xsd:date (YYYY-MM-DD)"),
    unaryTest (typeNamespace ++ "isDateTime") Term.isDateTime (some "literal holding an xsd:dateTime")]

end N3Rules
