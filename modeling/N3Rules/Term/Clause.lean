/-
What a statement is, told from its tokens: a triple, or a declaration that variables are quantified.

- `Clause.ofStatement`: what a statement is;
- `length_le_of_declaration`, `length_le_of_triple`: its parts are no longer than the statement.
-/
import N3Rules.Term
import N3Rules.Text.Piece

namespace N3Rules

open Text

/-- what a statement is, with the tokens of the terms in it -/
inductive Clause where
  | declaration (kind : QuantifierKind) (names : List (List Char))
  | triple (subject predicate object : List Char)
  /-- neither, with its number of tokens -/
  | other (found : Nat)
  deriving DecidableEq, Repr

/-- the kind of quantifier declaration that a statement starting with a token is -/
def quantifierKind? (token : List Char) : Option QuantifierKind :=
  if token = "@forAll".toList then some .forAll
  else if token = "@forSome".toList then some .forSome
  else none

/-- the parts between the commas of a token, without the empty ones -/
def commaParts (token : List Char) : List (List Char) :=
  let (part, later) := cut (fun _ c _ => if c == ',' then .drop else .keep) {} token
  (part :: later).filter fun p => !p.isEmpty

/-- what a statement of some tokens is -/
def Clause.ofTokens (ts : List (List Char)) : Clause :=
  match ts.head?.bind quantifierKind?, ts with
  | some kind, ts => .declaration kind (ts.tail.flatMap commaParts)
  | none, [s, p, o] => .triple s p o
  | none, ts => .other ts.length

/-- what a statement is -/
def Clause.ofStatement (statement : List Char) : Clause :=
  Clause.ofTokens (tokens statement)

theorem length_le_of_mem_commaParts {t p : List Char} (h : p ∈ commaParts t) : p.length ≤ t.length := by
  simp only [commaParts, List.mem_filter] at h
  have hcut := length_cut (fun _ c _ => if c == ',' then .drop else .keep) {} t
  rcases List.mem_cons.1 h.1 with rfl | hp
  · exact hcut.1
  · exact hcut.2 p hp

/-- a declared name is no longer than the statement -/
theorem length_le_of_declaration {s n : List Char} {kind : QuantifierKind} {names : List (List Char)}
    (h : Clause.ofStatement s = .declaration kind names) (hn : n ∈ names) : n.length ≤ s.length := by
  simp only [Clause.ofStatement, Clause.ofTokens] at h
  split at h <;> cases h
  obtain ⟨t, ht, hp⟩ := List.mem_flatMap.1 hn
  exact Nat.le_trans (length_le_of_mem_commaParts hp) (length_le_of_mem_tokens (List.mem_of_mem_tail ht))

/-- the terms of a triple are no longer than the statement -/
theorem length_le_of_triple {s a b c : List Char} (h : Clause.ofStatement s = .triple a b c) :
    a.length ≤ s.length ∧ b.length ≤ s.length ∧ c.length ≤ s.length := by
  simp only [Clause.ofStatement, Clause.ofTokens] at h
  split at h
  · cases h
  · rename_i hts
    cases h
    refine ⟨?_, ?_, ?_⟩ <;> exact length_le_of_mem_tokens (by simp [hts])
  · cases h

end N3Rules
