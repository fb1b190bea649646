/-
Rules inside a document's text: pairs of brace groups `{ ... } => { ... } .`

Rules are taken out of the compact text before it is cut into statements. A brace group that no arrow follows is a
formula term of an ordinary statement and stays. Braces inside quotes do not count.

- `closeGroup`: the inside of a brace group and the text after it;
- `takeRules`: a text without its rules, and the rules, or the first fault from the left;
- `closeGroup_eq_some`: a group's inside, its closing brace and the text after it make up the text.
-/
import N3Rules.Text.Blank
import N3Rules.Text.Quote
import N3Rules.Text.Utf8
import N3Rules.SyntaxError

namespace N3Rules.Text

/-- the text of a rule: the insides of its two formulas -/
structure RuleText where
  antecedent : List Char
  consequent : List Char
  deriving DecidableEq, Repr

/-- a text taken apart: what remains of it, and its rules in order -/
structure Extract where
  remainder : List Char := []
  rules : List RuleText := []
  deriving DecidableEq, Repr

/-- a fault in the braces of a text, with the text from the faulty place on -/
inductive BraceFault where
  /-- the text starts with a brace that has no partner -/
  | unbalanced (place : List Char)
  /-- the text follows an arrow and does not start with a formula -/
  | noConsequent (place : List Char)
  deriving DecidableEq, Repr

/-- the syntax error that a fault is, in a text of so many bytes -/
def BraceFault.toSyntaxError (bytes : Nat) : BraceFault → SyntaxError
  | .unbalanced place => .unbalancedBraces (bytes - utf8Length place)
  | .noConsequent place => .consequentNotFormula (bytes - utf8Length place)

/-- the inside of a brace group and the text after its closing brace, for the text after its opening brace; `depth`
groups are open inside it -/
def closeGroup (quote : Option Quote) (depth : Nat) : List Char → Option (List Char × List Char)
  | [] => none
  | c :: s =>
    match quote, c, depth with
    | some q, _, _ => (closeGroup (q.feed c) depth s).map fun g => (c :: g.1, g.2)
    | none, '{', _ => (closeGroup none (depth + 1) s).map fun g => (c :: g.1, g.2)
    | none, '}', 0 => some ([], s)
    | none, '}', d + 1 => (closeGroup none d s).map fun g => (c :: g.1, g.2)
    | none, _, _ => (closeGroup (Quote.opening? c) depth s).map fun g => (c :: g.1, g.2)

/-- the text without the ASCII blanks it starts with -/
def skipBlanks (s : List Char) : List Char :=
  s.dropWhile isAsciiBlank

/-- what follows the arrow that the text starts with -/
def afterArrow? (s : List Char) : Option (List Char) :=
  match skipBlanks s with
  | '=' :: '>' :: t => some (skipBlanks t)
  | _ => none

/-- the text without the full stop it starts with, if it does -/
def skipStop (s : List Char) : List Char :=
  match skipBlanks s with
  | '.' :: t => t
  | t => t

/-- a group's inside, its closing brace and the text after it make up the text -/
theorem closeGroup_eq_some {quote : Option Quote} {depth : Nat} {s inside after : List Char}
    (h : closeGroup quote depth s = some (inside, after)) : s = inside ++ '}' :: after := by
  induction s generalizing quote depth inside with
  | nil => simp [closeGroup] at h
  | cons c s ih =>
    simp only [closeGroup] at h
    split at h <;> simp only [Option.map_eq_some_iff, Option.some.injEq, Prod.mk.injEq] at h <;> grind

theorem length_skipBlanks_le (s : List Char) : (skipBlanks s).length ≤ s.length :=
  (List.dropWhile_sublist _).length_le

theorem length_afterArrow_lt {s t : List Char} (h : afterArrow? s = some t) : t.length < s.length := by
  have hs := length_skipBlanks_le s
  simp only [afterArrow?] at h
  split at h
  · rename_i u hu
    have hu' := length_skipBlanks_le u
    simp_all
    omega
  · simp at h

theorem length_skipStop_le (s : List Char) : (skipStop s).length ≤ s.length := by
  have hs := length_skipBlanks_le s
  unfold skipStop
  split
  · rename_i t ht
    rw [ht, List.length_cons] at hs
    omega
  · exact hs

/-- the text from a position on without its rules, and its rules -/
def takeRulesFrom (quote : Option Quote) (s : List Char) : Except BraceFault Extract :=
  match s with
  | [] => .ok {}
  | c :: t =>
    if quote.isNone ∧ c = '}' then .error (.unbalanced s)
    else if quote.isNone ∧ c = '{' then
      match _hg : closeGroup none 0 t with
      | none => .error (.unbalanced s)
      | some (inside, after) =>
        match _ha : afterArrow? after with
        | none =>
          (takeRulesFrom none after).map fun e => { e with remainder := '{' :: inside ++ '}' :: e.remainder }
        | some ('{' :: u) =>
          match _hc : closeGroup none 0 u with
          | none => .error (.unbalanced ('{' :: u))
          | some (consequent, rest) =>
            (takeRulesFrom none (skipStop rest)).map fun e =>
              ⟨" . ".toList ++ e.remainder, ⟨inside, consequent⟩ :: e.rules⟩
        | some place => .error (.noConsequent place)
    else
      (takeRulesFrom ((quote.map (·.feed c)).getD (Quote.opening? c)) t).map fun e =>
        { e with remainder := c :: e.remainder }
termination_by s.length
decreasing_by
  · have := congrArg List.length (closeGroup_eq_some _hg)
    simp_all
    omega
  · have := congrArg List.length (closeGroup_eq_some _hg)
    have := length_afterArrow_lt _ha
    have := congrArg List.length (closeGroup_eq_some _hc)
    have := length_skipStop_le rest
    simp_all
    omega
  · simp

/-- a compact text without its rules, and its rules -/
def takeRules (s : List Char) : Except SyntaxError Extract :=
  (takeRulesFrom none s).mapError (BraceFault.toSyntaxError (utf8Length s))

end N3Rules.Text
