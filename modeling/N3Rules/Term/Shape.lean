/-
What a token is, told from its first and last characters.

- `Shape.ofToken`: the shape of a token, the first that fits in the order of the constructors;
- `length_of_list_shape`, `length_of_formula_shape`: the inside of a bracketed token is shorter than the token.
-/
import N3Rules.Text.Quote
import N3Rules.Scope

namespace N3Rules

open Text

/-- what a token is, with its text less the marks that tell it -/
inductive Shape where
  | iri (reference : List Char)
  /-- a literal, from after its opening quote on -/
  | literal (rest : List Char)
  | var (name : List Char)
  | blank (id : List Char)
  | list (inside : List Char)
  | formula (inside : List Char)
  | name (text : List Char)
  deriving DecidableEq, Repr

/-- whether the bracket that is closed when `depth` is back at zero is closed by the last character of the text.
Only double quotes hide brackets here, and only brackets of the one kind count -/
def closesAtEnd (opening closing : Char) (quote : Option Quote) (depth : Nat) : List Char → Bool
  | [] => depth == 0
  | c :: s =>
    match quote with
    | some q => closesAtEnd opening closing (q.feed c) depth s
    | none =>
      if c = '"' then closesAtEnd opening closing (some ⟨'"', false⟩) depth s
      else if c = opening then closesAtEnd opening closing none (depth + 1) s
      else if c = closing then
        (s.isEmpty || depth - 1 != 0) && closesAtEnd opening closing none (depth - 1) s
      else closesAtEnd opening closing none depth s

/-- the inside of a token that is one pair of brackets -/
def inside? (opening closing : Char) : List Char → Option (List Char)
  | [] => none
  | c :: s =>
    if c = opening ∧ s.getLast? = some closing ∧ closesAtEnd opening closing none 0 (c :: s) then some s.dropLast
    else none

/-- what a token is -/
def Shape.ofToken (token : List Char) : Shape :=
  match iriReference? token, token with
  | some reference, _ => .iri reference
  | none, '"' :: s => .literal s
  | none, '?' :: s => .var s
  | none, '_' :: ':' :: s => .blank s
  | none, _ =>
    match inside? '(' ')' token, inside? '{' '}' token with
    | some s, _ => .list s
    | none, some s => .formula s
    | none, none => .name token

theorem length_inside_lt {opening closing : Char} {t s : List Char} (h : inside? opening closing t = some s) :
    s.length < t.length := by
  cases t with
  | nil => simp [inside?] at h
  | cons c t =>
    simp only [inside?] at h
    split at h
    · obtain rfl := Option.some.inj h
      rw [List.length_dropLast, List.length_cons]
      omega
    · simp at h

theorem length_of_list_shape {t s : List Char} (h : Shape.ofToken t = .list s) : s.length < t.length := by
  simp only [Shape.ofToken] at h
  split at h <;> try simp at h
  split at h <;> simp at h
  subst h
  exact length_inside_lt ‹_›

theorem length_of_formula_shape {t s : List Char} (h : Shape.ofToken t = .formula s) : s.length < t.length := by
  simp only [Shape.ofToken] at h
  split at h <;> try simp at h
  split at h <;> simp at h
  subst h
  exact length_inside_lt ‹_›

end N3Rules
