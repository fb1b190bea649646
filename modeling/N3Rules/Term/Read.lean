/-
Reading terms, statements and formulas.

A term is read from a token. The tokens of a list and the statements of a formula are read in turn, and each is
shorter than what it stands in, so reading comes to an end on every text.

- `Term.read`: the term that a token is;
- `Item.read`: the triple or the quantifier declaration that a statement is;
- `Item.readAll`: what the statements of a text are, in order;
- `Term.read_list`, `Item.read_declaration`, `Item.readAll_eq`: the parts are read one by one, up to the first error.
-/
import N3Rules.Term.Clause
import N3Rules.Term.Literal
import N3Rules.Term.Shape

namespace N3Rules

open Text

/-- what a statement inside a formula or a document says -/
inductive Item where
  | triple (t : Triple)
  | quantifier (q : Quantifier)
  deriving DecidableEq

/-- the triples among items, in order -/
def Item.triples (items : List Item) : List Triple :=
  items.filterMap fun
    | .triple t => some t
    | .quantifier _ => none

/-- the quantifier declarations among items, in order -/
def Item.quantifiers (items : List Item) : List Quantifier :=
  items.filterMap fun
    | .triple _ => none
    | .quantifier q => some q

/-- the literal that a token is, from after its opening quote on -/
def readLiteral? (scope : Scope) (rest : List Char) : Option Term := do
  let (value, suffix) ← readQuoted rest
  let (datatype, language) ← readSuffix? scope suffix
  return .literal (String.ofList value) datatype language

mutual

/-- the term that a token is -/
def Term.read (scope : Scope) (token : List Char) : Except SyntaxError Term :=
  match _h : Shape.ofToken (trim token) with
  | .iri reference => .ok (.iri (scope.iriOfReference reference))
  | .literal rest =>
    match readLiteral? scope rest with
    | some t => .ok t
    | none => .error (.malformedLiteral (String.ofList (trim token)))
  | .var [] => .error (.namelessVariable (String.ofList (trim token)))
  | .var name => .ok (.var (String.ofList name))
  | .blank [] => .error (.namelessBlank (String.ofList (trim token)))
  | .blank id => .ok (.blank (String.ofList id))
  | .list inside => do
    let items ← (tokens inside).attach.mapM fun t => Term.read scope t.1
    return .list items
  | .formula inside => do
    let items ← Item.readAll scope inside
    return .formula ⟨Item.triples items, []⟩
  | .name text => .ok (.iri (scope.iriOfName text))
termination_by 3 * token.length
decreasing_by
  · have := length_of_list_shape _h
    have := length_trim_le token
    have := length_le_of_mem_tokens t.2
    omega
  · have := length_of_formula_shape _h
    have := length_trim_le token
    omega

/-- the triple or the quantifier declaration that a statement is -/
def Item.read (scope : Scope) (statement : List Char) : Except SyntaxError Item :=
  match _h : Clause.ofStatement statement with
  | .declaration kind names => do
    let vars ← names.attach.mapM fun n => Term.read scope n.1
    return .quantifier ⟨kind, vars⟩
  | .triple s p o => do
    let subject ← Term.read scope s
    let predicate ← Term.read scope p
    let object ← Term.read scope o
    return .triple ⟨subject, predicate, object⟩
  | .other found => .error (.arity (String.ofList statement) found)
termination_by 3 * statement.length + 1
decreasing_by
  · have := length_le_of_declaration _h n.2
    omega
  all_goals
    have := length_le_of_triple _h
    omega

/-- what the statements of a text are, in order -/
def Item.readAll (scope : Scope) (text : List Char) : Except SyntaxError (List Item) :=
  (statements text).attach.mapM fun s => Item.read scope s.1
termination_by 3 * text.length + 2
decreasing_by
  have := length_le_of_mem_statements s.2
  omega

end

/-! ## Parts one by one -/

theorem mapM_attach {α β ε : Type} (f : α → Except ε β) (l : List α) :
    (l.attach.mapM fun a => f a.1) = l.mapM f := by
  rw [List.mapM_subtype (g := f) (fun _ _ => rfl), List.unattach_attach]

/-- a list is read token by token -/
theorem Term.read_list {scope : Scope} {token inside : List Char}
    (h : Shape.ofToken (trim token) = .list inside) :
    Term.read scope token = ((tokens inside).mapM (Term.read scope)).map Term.list := by
  rw [Term.read]
  split <;> simp_all only [reduceCtorEq, Shape.list.injEq]
  subst h
  rw [mapM_attach]
  rfl

/-- a formula is read statement by statement -/
theorem Term.read_formula {scope : Scope} {token inside : List Char}
    (h : Shape.ofToken (trim token) = .formula inside) :
    Term.read scope token =
      (Item.readAll scope inside).map fun items => .formula ⟨Item.triples items, []⟩ := by
  rw [Term.read]
  split <;> simp_all only [reduceCtorEq, Shape.formula.injEq]
  subst h
  rfl

/-- a declaration is read name by name -/
theorem Item.read_declaration {scope : Scope} {s : List Char} {kind : QuantifierKind} {names : List (List Char)}
    (h : Clause.ofStatement s = .declaration kind names) :
    Item.read scope s = (names.mapM (Term.read scope)).map fun vs => .quantifier ⟨kind, vs⟩ := by
  rw [Item.read]
  split <;> simp_all only [reduceCtorEq, Clause.declaration.injEq]
  obtain ⟨rfl, rfl⟩ := h
  rw [mapM_attach]
  rfl

/-- a text is read statement by statement -/
theorem Item.readAll_eq (scope : Scope) (text : List Char) :
    Item.readAll scope text = (statements text).mapM (Item.read scope) := by
  rw [Item.readAll, mapM_attach]

end N3Rules
