/-
The names that have a meaning of their own.
-/

namespace N3Rules

/-- the namespace of the XML Schema datatypes -/
def xsdNamespace : String := "http://www.w3.org/2001/XMLSchema#"

/-- the namespace of the logical predicates -/
def logNamespace : String := "http://www.w3.org/2000/10/swap/log#"

/-- the namespace of the predicates that tell kinds of terms apart -/
def typeNamespace : String := "urn:n3chain:type#"

/-- the predicate of a rule that is written as a triple of formulas -/
def impliesIri : String := logNamespace ++ "implies"

end N3Rules
