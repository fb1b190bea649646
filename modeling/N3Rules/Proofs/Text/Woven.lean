/-
Woven text: what the scans of this library pass over without losing their place.

In woven text every quote, reference and bracket that is opened is closed again, in the right order; no blank but the
space stands outside quotes, and no two spaces in a row. The scans differ in what they count, and agree on such text.

- `Quote.ClosedBy`: reading a text from inside a quote comes to the closing mark at its end, and not before;
- `isReference`, `isName`: what may stand between `<` and `>`, and what may be the name of a variable or blank node;
- `Woven`: the texts in question; a class of characters says what may stand in them outside of brackets;
- `Woven.plains`: a row of plain characters in front of woven text is woven.
-/
import Mathlib.Tactic
import N3Rules.Text.Enclosure

namespace N3Rules.Text

/-! ## Quotes -/

/-- from inside a quote, a text is read up to the mark that closes the quote, which comes last -/
inductive Quote.ClosedBy : Quote → List Char → Prop where
  | last {q : Quote} {c : Char} : q.feed c = none → ClosedBy q [c]
  | next {q q' : Quote} {c : Char} {s : List Char} : q.feed c = some q' → ClosedBy q' s → ClosedBy q (c :: s)

/-- only the mark of a quote closes it -/
theorem Quote.eq_mark_of_feed {q : Quote} {c : Char} (h : q.feed c = none) : c = q.mark := by
  unfold Quote.feed at h
  split_ifs at h with _ _ hc
  exact hc

theorem Quote.mark_of_feed {q q' : Quote} {c : Char} (h : q.feed c = some q') : q'.mark = q.mark := by
  unfold Quote.feed at h
  split_ifs at h <;> cases h <;> rfl

/-! ## Characters -/

/-- the characters that open or close something -/
def enclosers : List Char :=
  ['<', '>', '(', ')', '[', ']', '{', '}', '"', apostrophe]

/-- what may stand between `<` and `>`: neither a blank nor a character that opens or closes something -/
def isReferenceChar (c : Char) : Bool :=
  !isBlank c && !enclosers.contains c

/-- what means nothing to a scan on its own: what may stand in a reference, and does not start a comment -/
def isPlain (c : Char) : Bool :=
  isReferenceChar c && c != '#'

/-- what may stand in a name: what is plain and ends no statement -/
def isNameChar (c : Char) : Bool :=
  isPlain c && c != '.' && c != ';'

/-- whether a text may stand between `<` and `>`; if it started with `=`, the `<` would be taken for an arrow's -/
def isReference (s : List Char) : Bool :=
  s.all isReferenceChar && s.head? != some '='

/-- whether a text may be the name of a variable or the mark of a blank node -/
def isName (s : List Char) : Bool :=
  !s.isEmpty && s.all isNameChar

theorem isReferenceChar_iff {c : Char} : isReferenceChar c = true ↔ isBlank c = false ∧ c ∉ enclosers := by
  simp [isReferenceChar]

theorem isReferenceChar_of_isPlain {c : Char} (h : isPlain c = true) : isReferenceChar c = true := by
  simp only [isPlain, Bool.and_eq_true] at h
  exact h.1

theorem isPlain_of_isNameChar {c : Char} (h : isNameChar c = true) : isPlain c = true := by
  simp only [isNameChar, Bool.and_eq_true] at h
  exact h.1.1

theorem opening?_eq_none_of_isReferenceChar {c : Char} (h : isReferenceChar c = true) : Quote.opening? c = none := by
  have hc := (isReferenceChar_iff.1 h).2
  simp only [enclosers, List.mem_cons, not_or] at hc
  simp [Quote.opening?, hc]

theorem opensAngle_of_isReference {s : List Char} (hs : isReference s = true) (t : List Char) :
    opensAngle (s ++ '>' :: t).head? = true := by
  cases s with
  | nil =>
    rw [List.nil_append, List.head?_cons]
    decide
  | cons c s =>
    simp only [isReference, List.all_cons, Bool.and_eq_true, isReferenceChar, bne_iff_ne, ne_eq, List.head?_cons,
      Option.some.injEq, Bool.not_eq_true'] at hs
    simp [opensAngle, hs]

theorem not_mem_of_isReference {s : List Char} (hs : isReference s = true) : '>' ∉ s := by
  simp only [isReference, Bool.and_eq_true, List.all_eq_true] at hs
  intro hmem
  exact absurd (hs.1 _ hmem) (by decide)

/-! ## Woven text -/

/-- text that the scans pass over: outside its brackets stand only characters of the class `ok`, and it does not start
with a space if `gap` says that it comes after one -/
inductive Woven : (Char → Prop) → Bool → List Char → Prop where
  | nil {ok : Char → Prop} {gap : Bool} : Woven ok gap []
  | space {ok : Char → Prop} {w : List Char} : ok ' ' → Woven ok true w → Woven ok false (' ' :: w)
  | plain {ok : Char → Prop} {gap : Bool} {c : Char} {w : List Char} : isPlain c = true → ok c → Woven ok false w →
      Woven ok gap (c :: w)
  | quoted {ok : Char → Prop} {gap : Bool} {s w : List Char} : Quote.ClosedBy ⟨'"', false⟩ s → Woven ok false w →
      Woven ok gap ('"' :: (s ++ w))
  | reference {ok : Char → Prop} {gap : Bool} {s w : List Char} : isReference s = true → Woven ok false w →
      Woven ok gap ('<' :: (s ++ '>' :: w))
  | parens {ok : Char → Prop} {gap : Bool} {s w : List Char} : ok '(' → ok ')' → Woven (fun _ => True) false s →
      Woven ok false w → Woven ok gap ('(' :: (s ++ ')' :: w))
  | braces {ok : Char → Prop} {gap : Bool} {s w : List Char} : Woven (fun _ => True) false s → Woven ok false w →
      Woven ok gap ('{' :: (s ++ '}' :: w))

/-- a row of plain characters in front -/
theorem Woven.plains {ok : Char → Prop} {s w : List Char} (hs : ∀ c ∈ s, isPlain c = true ∧ ok c)
    (hw : Woven ok false w) : Woven ok false (s ++ w) := by
  induction s with
  | nil => exact hw
  | cons c s ih =>
    obtain ⟨hc, hok⟩ := hs c List.mem_cons_self
    exact .plain hc hok (ih fun d hd => hs d (List.mem_cons_of_mem c hd))

end N3Rules.Text
