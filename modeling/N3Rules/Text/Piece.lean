/-
Cutting a text into pieces: statements, and the tokens of a statement.

Both cuts look at one character at a time, at what encloses it and at the character after it, and decide by a `Cut`.
A piece is trimmed when the cut is done, and blank pieces are dropped.

- `statements`: pieces between `.`, `;` and line feeds that nothing encloses;
- `tokens`: pieces between blanks that nothing encloses, with a list `( ... )` always a piece of its own;
- `length_le_of_mem_pieces`: no piece is longer than the text, so reading pieces of pieces comes to an end.
-/
import N3Rules.Text.Enclosure

namespace N3Rules.Text

/-- what becomes of a character when a text is cut -/
inductive Cut where
  /-- it belongs to the current piece -/
  | keep
  /-- it ends the current piece and belongs to none -/
  | drop
  /-- it begins a new piece -/
  | before
  /-- it is the last of the current piece -/
  | after
  deriving DecidableEq, Repr

/-- how to cut: the decision on a character, from what encloses it and the character after it -/
abbrev CutRule := Enclosure → Char → Option Char → Cut

/-- the piece that the text goes on with, and the pieces after it -/
def cut (rule : CutRule) (e : Enclosure) : List Char → List Char × List (List Char)
  | [] => ([], [])
  | c :: s =>
    let (piece, later) := cut rule (e.feed c s.head?) s
    match rule e c s.head? with
    | .keep => (c :: piece, later)
    | .drop => ([], piece :: later)
    | .before => ([], (c :: piece) :: later)
    | .after => ([c], piece :: later)

/-- the pieces of a text, trimmed, without the blank ones -/
def pieces (rule : CutRule) (s : List Char) : List (List Char) :=
  let (piece, later) := cut rule {} s
  ((piece :: later).map trim).filter fun p => !p.isEmpty

/-- statements end at a full stop, a semicolon or a line feed that nothing encloses -/
def statementCut : CutRule := fun e c _ =>
  if e.isOutside && (c == '.' || c == ';' || c == '\n') then .drop else .keep

/-- tokens end at a blank that nothing encloses, before a parenthesis that opens there and after one that closes
to there -/
def tokenCut : CutRule := fun e c next =>
  if e.isOutside && isBlank c then .drop
  else if e.isOutside && c == '(' then .before
  else if c == ')' && (e.feed c next).isOutside then .after
  else .keep

def statements (s : List Char) : List (List Char) :=
  pieces statementCut s

def tokens (s : List Char) : List (List Char) :=
  pieces tokenCut s

theorem length_cut (rule : CutRule) (e : Enclosure) (s : List Char) :
    (cut rule e s).1.length ≤ s.length ∧ ∀ p ∈ (cut rule e s).2, p.length ≤ s.length := by
  induction s generalizing e with
  | nil => simp [cut]
  | cons c s ih =>
    obtain ⟨hp, hl⟩ := ih (e.feed c s.head?)
    simp only [cut]
    split <;> simp <;> grind

/-- no piece is longer than the text -/
theorem length_le_of_mem_pieces {rule : CutRule} {s p : List Char} (h : p ∈ pieces rule s) :
    p.length ≤ s.length := by
  simp only [pieces, List.mem_filter, List.mem_map] at h
  obtain ⟨⟨q, hq, rfl⟩, -⟩ := h
  have hcut := length_cut rule {} s
  rcases List.mem_cons.1 hq with rfl | hq
  · exact Nat.le_trans (length_trim_le _) hcut.1
  · exact Nat.le_trans (length_trim_le _) (hcut.2 q hq)

theorem length_le_of_mem_statements {s p : List Char} (h : p ∈ statements s) : p.length ≤ s.length :=
  length_le_of_mem_pieces h

theorem length_le_of_mem_tokens {s p : List Char} (h : p ∈ tokens s) : p.length ≤ s.length :=
  length_le_of_mem_pieces h

end N3Rules.Text
