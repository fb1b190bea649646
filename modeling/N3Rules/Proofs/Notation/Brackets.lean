/-
Which bracketed tokens are read as lists and formulas.

Two scans look for the end of a group. The cut into tokens hides brackets in quotes of both kinds, and looks for the
first place where nothing at all is open. The reader of a token hides brackets in double quotes only, and looks for the
place where the brackets of one kind are closed. A token that is a group for the first and not for the second is read as
a name.

- `Enclosure.upTo`: what is open at each place of a text;
- `Bracket.IsGroup`: a text that ends where nothing is open for the first time;
- `Bracket.Matched`: a text whose last bracket closes its first one, if double quotes alone hide brackets;
- `closesAtEnd_iff`, `closesAtEnd_iff_count`: the scan of the reader, by the brackets that are not hidden, and by the
  scan of the cut where there are no apostrophes;
- `groups_read_iff`: a group is read as what its brackets say if and only if it is matched.
-/
import N3Rules.Proofs.Notation.Separation

namespace N3Rules

open Text

/-! ## Groups -/

/-- the brackets that a term may stand in -/
inductive Bracket where
  | paren
  | brace
  deriving DecidableEq, Repr

namespace Bracket

def opening : Bracket → Char
  | paren => '('
  | brace => '{'

def closing : Bracket → Char
  | paren => ')'
  | brace => '}'

/-- how many brackets of this kind are open -/
def count : Bracket → Enclosure → Nat
  | paren, e => e.parens
  | brace, e => e.braces

/-- how many brackets of this kind are open after one more character that nothing hides -/
def step (b : Bracket) (depth : Nat) (c : Char) : Nat :=
  if c = b.opening then depth + 1 else if c = b.closing then depth - 1 else depth

/-- what a token in such brackets is -/
def shape : Bracket → List Char → Shape
  | paren => .list
  | brace => .formula

end Bracket

/-- what is open after the first `n` characters of a text -/
def Text.Enclosure.upTo (e : Enclosure) : Nat → List Char → Enclosure
  | 0, _ => e
  | _ + 1, [] => e
  | n + 1, c :: s => (e.feed c s.head?).upTo n s

/-- a text from a bracket to the one where nothing is open for the first time -/
structure Bracket.IsGroup (b : Bracket) (t : List Char) : Prop where
  opens : t.head? = some b.opening
  closes : t.getLast? = some b.closing
  outside : (({} : Enclosure).upTo t.length t).isOutside = true
  first : ∀ n < t.length, 0 < n → (({} : Enclosure).upTo n t).isOutside = false

instance (b : Bracket) (t : List Char) : Decidable (b.IsGroup t) :=
  decidable_of_iff (t.head? = some b.opening ∧ t.getLast? = some b.closing ∧
    (({} : Enclosure).upTo t.length t).isOutside = true ∧
    ∀ n < t.length, 0 < n → (({} : Enclosure).upTo n t).isOutside = false)
    ⟨fun ⟨hopens, hcloses, houtside, hfirst⟩ => ⟨hopens, hcloses, houtside, hfirst⟩,
      fun h => ⟨h.opens, h.closes, h.outside, h.first⟩⟩

/-- the text between the first and the last character -/
def within (t : List Char) : List Char :=
  t.tail.dropLast

/-- a term that a group may be: a list has the terms that the tokens between its parentheses are -/
def Bracket.Fits (scope : Scope) (t : List Char) : Bracket → Term → Prop
  | .paren, result => ∃ items, result = .list items ∧
      List.Forall₂ (fun token item => Term.read scope token = .ok item) (tokens (within t)) items
  | .brace, result => ∃ f, result = .formula f

/-- the characters of a text that double quotes do not hide; the mark that opens a quote is among them -/
def shown : Option Quote → List Char → List Char
  | _, [] => []
  | some q, c :: s => shown (q.feed c) s
  | none, c :: s => c :: shown (if c = '"' then some ⟨'"', false⟩ else none) s

/-- from `depth` open brackets on, a text closes the last of them with its last character -/
def Bracket.Closes (b : Bracket) (depth : Nat) (v : List Char) : Prop :=
  (∀ n < v.length, (v.take n).count b.closing < depth + (v.take n).count b.opening) ∧
    v.count b.closing = depth + v.count b.opening

/-- a text whose last bracket closes its first one, if double quotes alone hide brackets -/
def Bracket.Matched (b : Bracket) (t : List Char) : Prop :=
  (∀ n < (shown none t).length, 0 < n →
      ((shown none t).take n).count b.closing < ((shown none t).take n).count b.opening) ∧
    (shown none t).count b.closing = (shown none t).count b.opening

instance (b : Bracket) (t : List Char) : Decidable (b.Matched t) :=
  inferInstanceAs (Decidable ((∀ n < (shown none t).length, 0 < n →
      ((shown none t).take n).count b.closing < ((shown none t).take n).count b.opening) ∧
    (shown none t).count b.closing = (shown none t).count b.opening))

/-- a text whose first bracket stays open up to the last character, as the cut into tokens counts -/
def Bracket.StaysOpen (b : Bracket) (t : List Char) : Prop :=
  ∀ n < t.length, 0 < n → 0 < b.count (({} : Enclosure).upTo n t)

/-! ## The scan of the reader -/

/-- the places of a text but for the first one -/
theorem forall_places {P : Nat → Prop} {m : Nat} : (∀ n < m + 1, 0 < n → P n) ↔ ∀ n < m, P (n + 1) := by
  rw [Nat.forall_lt_succ_left]
  simp

section Bracket

variable {b : Bracket}

theorem Bracket.opening_ne_closing : b.opening ≠ b.closing := by
  cases b <;> decide

theorem Bracket.opening?_opening : Quote.opening? b.opening = none := by
  cases b <;> decide

theorem Bracket.ne_quote : b.opening ≠ '"' ∧ b.closing ≠ '"' := by
  cases b <;> decide

/-- only a closing bracket closes the last one -/
theorem Bracket.ne_quote_of_step {depth : Nat} (hdepth : 0 < depth) {c : Char} (h : b.step depth c = 0) : c ≠ '"' := by
  rintro rfl
  rw [Bracket.step, if_neg b.ne_quote.1.symm, if_neg b.ne_quote.2.symm] at h
  omega

theorem Bracket.closes_nil {depth : Nat} : b.Closes depth [] ↔ depth = 0 := by
  simp [Bracket.Closes, eq_comm]

/-- one character more, by how many brackets are open after it -/
theorem Bracket.closes_cons {depth : Nat} {c : Char} {v : List Char} : b.Closes depth (c :: v) ↔
    0 < depth ∧ b.Closes (b.step depth c) v := by
  have hne := b.opening_ne_closing
  have hplaces : (∀ n < (c :: v).length,
        ((c :: v).take n).count b.closing < depth + ((c :: v).take n).count b.opening) ↔
      0 < depth ∧ ∀ n < v.length, (v.take n).count b.closing + (if c = b.closing then 1 else 0) <
        depth + ((v.take n).count b.opening + if c = b.opening then 1 else 0) := by
    rw [List.length_cons, Nat.forall_lt_succ_left]
    simp [List.count_cons]
  rw [Bracket.Closes, hplaces, Bracket.Closes, Bracket.step, and_assoc, List.count_cons, List.count_cons]
  refine and_congr_right fun hdepth => and_congr (forall₂_congr fun n _ => ?_) ?_
  · split_ifs <;> simp_all <;> omega
  · split_ifs <;> simp_all <;> omega

/-- one character outside of quotes: when it closes the last bracket, nothing may come after it -/
theorem closesAtEnd_step {depth : Nat} (hdepth : 0 < depth) (c : Char) (s : List Char) :
    closesAtEnd b.opening b.closing none depth (c :: s) = true ↔
      (0 < b.step depth c ∨ s = []) ∧
        closesAtEnd b.opening b.closing (if c = '"' then some ⟨'"', false⟩ else none) (b.step depth c) s = true := by
  obtain ⟨hopen, hclose⟩ := b.ne_quote
  rw [closesAtEnd, Bracket.step]
  by_cases hquote : c = '"'
  · subst hquote
    simp [hopen.symm, hclose.symm, hdepth]
  by_cases hopens : c = b.opening
  · simp [hopens, hopen]
  by_cases hcloses : c = b.closing
  · simp [hcloses, hclose, b.opening_ne_closing.symm, Nat.sub_eq_zero_iff_le, or_comm]
  · simp [hquote, hopens, hcloses, hdepth]

/-- the scan of the reader, by the brackets that double quotes do not hide -/
theorem closesAtEnd_iff {quote : Option Quote} {depth : Nat} {s : List Char} (hdepth : 0 < depth) :
    closesAtEnd b.opening b.closing quote depth s = true ↔ b.Closes depth (shown quote s) := by
  induction s generalizing quote depth with
  | nil =>
    rw [show shown quote [] = [] by cases quote <;> rfl, Bracket.closes_nil, closesAtEnd, beq_iff_eq]
  | cons c s ih =>
    cases quote with
    | some q => exact ih hdepth
    | none =>
      rw [closesAtEnd_step hdepth, shown, Bracket.closes_cons, and_iff_right hdepth]
      rcases Nat.eq_zero_or_pos (b.step depth c) with hzero | hpos
      · rw [hzero, if_neg (b.ne_quote_of_step hdepth hzero)]
        cases s with
        | nil => simp [closesAtEnd, shown, Bracket.closes_nil]
        | cons d s => simp [shown, Bracket.closes_cons]
      · rw [and_iff_right (.inl hpos), ih hpos]

theorem Bracket.closesAtEnd_opening (s : List Char) :
    closesAtEnd b.opening b.closing none 0 (b.opening :: s) = closesAtEnd b.opening b.closing none 1 s := by
  rw [closesAtEnd, if_neg b.ne_quote.1, if_pos rfl]

/-- a text that starts with a bracket is matched if the scan says so -/
theorem Bracket.matched_iff (s : List Char) :
    b.Matched (b.opening :: s) ↔ closesAtEnd b.opening b.closing none 0 (b.opening :: s) = true := by
  rw [b.closesAtEnd_opening, closesAtEnd_iff Nat.one_pos, Bracket.Matched, shown, if_neg b.ne_quote.1, Bracket.Closes,
    List.length_cons, forall_places]
  simp [b.opening_ne_closing, Nat.add_comm]

/-! ## The scan of the cut -/

theorem Bracket.count_feed {e : Enclosure} (he : e.quote = none) (c : Char) (next : Option Char) :
    b.count (e.feed c next) = b.step (b.count e) c := by
  cases b
  all_goals
    simp only [Enclosure.feed, he, Bracket.step, Bracket.count, Bracket.opening, Bracket.closing]
    split
    case h_7 => split <;> simp
    all_goals simp_all

theorem Text.Enclosure.forall_upTo {P : Enclosure → Prop} {e : Enclosure} {c : Char} {s : List Char} :
    (∀ n < (c :: s).length, P (e.upTo n (c :: s))) ↔ P e ∧ ∀ n < s.length, P ((e.feed c s.head?).upTo n s) :=
  Nat.forall_lt_succ_left

/-- without apostrophes, both scans hide the same brackets: the last bracket is closed where the cut has counted down to
zero for the first time -/
theorem closesAtEnd_iff_count {e : Enclosure} {s : List Char} (hs : apostrophe ∉ s) (hopen : 0 < b.count e) :
    closesAtEnd b.opening b.closing e.quote (b.count e) s = true ↔
      (∀ n < s.length, 0 < b.count (e.upTo n s)) ∧ b.count (e.upTo s.length s) = 0 := by
  induction s generalizing e with
  | nil => simp [closesAtEnd, Enclosure.upTo]
  | cons c s ih =>
    rw [List.mem_cons, not_or] at hs
    rw [Enclosure.forall_upTo (P := fun e => 0 < b.count e), and_iff_right hopen]
    change _ ↔ _ ∧ b.count ((e.feed c s.head?).upTo s.length s) = 0
    cases hquote : e.quote with
    | some q =>
      have hcount : b.count (e.feed c s.head?) = b.count e := by
        cases b <;> simp [Bracket.count, Enclosure.feed, hquote]
      have hfeed : (e.feed c s.head?).quote = q.feed c := by simp [Enclosure.feed, hquote]
      rw [closesAtEnd, ← ih hs.2 (hcount ▸ hopen), hfeed, hcount]
    | none =>
      have hcount := b.count_feed hquote c s.head?
      have hfeed : (e.feed c s.head?).quote = if c = '"' then some ⟨'"', false⟩ else none := by
        rw [Enclosure.quote_feed hquote, Quote.opening?]
        by_cases hc : c = '"'
        · simp [hc]
        · simp [hc, Ne.symm hs.1]
      rw [closesAtEnd_step hopen, ← hcount, ← hfeed]
      generalize e.feed c s.head? = e'
      rcases Nat.eq_zero_or_pos (b.count e') with hzero | hpos
      · cases s with
        | nil => simp [closesAtEnd, Enclosure.upTo, hzero]
        | cons d s =>
          rw [Enclosure.forall_upTo (P := fun e => 0 < b.count e)]
          simp [hzero]
      · rw [and_iff_right (.inl hpos), ih hs.2 hpos]

/-! ## Reading groups -/

/-- a text between two such brackets is a list or a formula if the scan says so, and a name otherwise -/
theorem Bracket.ofToken_eq (w : List Char) : Shape.ofToken (b.opening :: (w ++ [b.closing])) =
    if closesAtEnd b.opening b.closing none 0 (b.opening :: (w ++ [b.closing])) then b.shape w
      else .name (b.opening :: (w ++ [b.closing])) := by
  split_ifs with hcloses
  · cases b with
    | paren => exact Shape.ofToken_list_iff.2 hcloses
    | brace => exact Shape.ofToken_formula_iff.2 hcloses
  · have hinside : inside? b.opening b.closing (b.opening :: (w ++ [b.closing])) = none :=
      Option.eq_none_iff_forall_ne_some.2 fun s hs => hcloses (inside?_eq_some_iff.1 hs).2
    cases b with
    | paren =>
      have hother : inside? '{' '}' ('(' :: (w ++ [')'])) = none := by simp [inside?]
      rw [Bracket.opening, Bracket.closing] at hinside ⊢
      simp only [Shape.ofToken, iriReference?, hinside, hother]
      rfl
    | brace =>
      have hother : inside? '(' ')' ('{' :: (w ++ ['}'])) = none := by simp [inside?]
      rw [Bracket.opening, Bracket.closing] at hinside ⊢
      simp only [Shape.ofToken, iriReference?, hinside, hother]
      rfl

theorem Bracket.IsGroup.eq_bracketed {t : List Char} (h : b.IsGroup t) :
    t = b.opening :: (within t ++ [b.closing]) := by
  obtain ⟨s, rfl⟩ := List.head?_eq_some_iff.1 h.opens
  have hlast := h.closes
  rw [List.getLast?_cons] at hlast
  cases hs : s.getLast? with
  | none => exact absurd (by simpa [hs] using hlast) b.opening_ne_closing
  | some c =>
    obtain rfl : c = b.closing := by simpa [hs] using hlast
    rw [within, List.tail_cons, dropLast_append_of_getLast? hs]

/-- in a group without apostrophes, the last bracket closes the first one if the first one stays open so long -/
theorem Bracket.IsGroup.matched_iff_staysOpen {t : List Char} (h : b.IsGroup t) (ht : apostrophe ∉ t) :
    b.Matched t ↔ b.StaysOpen t := by
  obtain ⟨s, rfl⟩ := List.head?_eq_some_iff.1 h.opens
  have hend : b.count ((({} : Enclosure).feed b.opening s.head?).upTo s.length s) = 0 := by
    have houtside := Enclosure.isOutside_iff.1 h.outside
    rw [List.length_cons, Enclosure.upTo] at houtside
    rw [houtside]
    cases b <;> rfl
  have hquote : (({} : Enclosure).feed b.opening s.head?).quote = none := by
    rw [Enclosure.quote_feed rfl, Bracket.opening?_opening]
  have hcount : b.count (({} : Enclosure).feed b.opening s.head?) = 1 := by
    rw [Bracket.count_feed rfl, Bracket.step, if_pos rfl]
    cases b <;> rfl
  have hscan := closesAtEnd_iff_count (b := b) (fun hs => ht (List.mem_cons_of_mem _ hs)) (hcount ▸ Nat.one_pos)
  rw [hquote, hcount, and_iff_left hend] at hscan
  rw [Bracket.matched_iff, Bracket.closesAtEnd_opening, hscan, Bracket.StaysOpen, List.length_cons, forall_places]
  rfl

/-- a name is neither a list nor a formula -/
theorem Bracket.not_fits_iri {scope : Scope} {t : List Char} {iri : String} : ¬b.Fits scope t (.iri iri) := by
  cases b <;> simp [Bracket.Fits]

end Bracket

/-- a token that is a group is read as a list of its tokens or as a formula, if it is read as anything, in just the case
that its last bracket closes its first one where double quotes alone hide brackets. In all other cases it is read as a
name. Without apostrophes, the case is that the first bracket stays open up to the last one -/
theorem groups_read_iff (scope : Scope) (b : Bracket) {s t : List Char} (htoken : t ∈ tokens s)
    (hgroup : b.IsGroup t) :
    ((∀ result, Term.read scope t = .ok result → b.Fits scope t result) ↔ b.Matched t) ∧
      (¬b.Matched t → Term.read scope t = .ok (.iri (scope.iriOfName t))) ∧
      (apostrophe ∉ t → (b.Matched t ↔ b.StaysOpen t)) := by
  have hsplit := hgroup.eq_bracketed
  have hmatched : b.Matched t ↔ closesAtEnd b.opening b.closing none 0 t = true := by
    rw [hsplit]
    exact b.matched_iff _
  have hshape : Shape.ofToken (trim t) = if closesAtEnd b.opening b.closing none 0 t then b.shape (within t)
      else .name t := by
    rw [trim_of_mem_pieces htoken, hsplit, Bracket.ofToken_eq, ← hsplit]
  have hname : ¬b.Matched t → Term.read scope t = .ok (.iri (scope.iriOfName t)) := by
    intro hunmatched
    rw [hmatched] at hunmatched
    exact Term.read_name (by rw [hshape, if_neg hunmatched])
  refine ⟨⟨?_, ?_⟩, hname, hgroup.matched_iff_staysOpen⟩
  · intro hfits
    by_contra hunmatched
    have hfit := hfits _ (hname hunmatched)
    exact Bracket.not_fits_iri hfit
  · intro hyes result hresult
    rw [if_pos (hmatched.1 hyes)] at hshape
    cases b with
    | paren =>
      rw [Term.read_list hshape, map_eq_ok_iff] at hresult
      obtain ⟨items, hitems, rfl⟩ := hresult
      exact ⟨items, rfl, mapM_eq_ok_iff.1 hitems⟩
    | brace =>
      rw [Term.read_formula hshape, map_eq_ok_iff] at hresult
      obtain ⟨items, -, rfl⟩ := hresult
      exact ⟨_, rfl⟩

/-- a list with brackets in quotes of both kinds, which are paired where they stand between apostrophes -/
def knottyList : String :=
  "(\")\" (b '() c') \x7b<e> <f> ?g\x7d)"

/-- a formula with a brace in double quotes -/
def knottyFormula : String :=
  "\x7b<a> <b> \"c \x7d d\"\x7d"

theorem knotty_groups_read :
    tokens ("<a>" ++ knottyList ++ knottyFormula).toList =
        ["<a>".toList, knottyList.toList, knottyFormula.toList] ∧
      Bracket.paren.IsGroup knottyList.toList ∧ Bracket.brace.IsGroup knottyFormula.toList ∧
      (Term.read {} knottyList.toList).isOk = true ∧
      (∀ result, Term.read {} knottyList.toList = .ok result → Bracket.paren.Fits {} knottyList.toList result) ∧
      (Term.read {} knottyFormula.toList).isOk = true ∧
      (∀ result, Term.read {} knottyFormula.toList = .ok result →
        Bracket.brace.Fits {} knottyFormula.toList result) ∧
      Bracket.brace.StaysOpen knottyFormula.toList := by
  have htokens : tokens ("<a>" ++ knottyList ++ knottyFormula).toList =
      ["<a>".toList, knottyList.toList, knottyFormula.toList] := by decide +kernel
  have htoken : ∀ t ∈ ["<a>".toList, knottyList.toList, knottyFormula.toList],
      t ∈ tokens ("<a>" ++ knottyList ++ knottyFormula).toList := fun t ht => htokens ▸ ht
  have hlist : Bracket.paren.IsGroup knottyList.toList := by decide +kernel
  have hformula : Bracket.brace.IsGroup knottyFormula.toList := by decide +kernel
  have hmatched : Bracket.brace.Matched knottyFormula.toList := by decide +kernel
  obtain ⟨hlistFits, -, -⟩ := groups_read_iff {} .paren (htoken _ (by simp)) hlist
  obtain ⟨hformulaFits, -, hopen⟩ := groups_read_iff {} .brace (htoken _ (by simp)) hformula
  exact ⟨htokens, hlist, hformula, by decide +kernel, hlistFits.2 (by decide +kernel), by decide +kernel,
    hformulaFits.2 hmatched, (hopen (by decide +kernel)).1 hmatched⟩

/-- a text that is one token and one group, and is read as a name -/
def Bracket.Misreads (b : Bracket) (text : String) : Prop :=
  tokens text.toList = [text.toList] ∧ b.IsGroup text.toList ∧ Term.ofText text = .ok (.iri text) ∧
    ¬b.Fits {} text.toList (.iri text)

/-- a bracket between apostrophes may close a group for the reader, and so may one where brackets of two kinds
interleave -/
theorem groups_misread : Bracket.paren.Misreads "(')')" ∧ Bracket.brace.Misreads "\x7b<a> <b> '\x7d'\x7d" ∧
    Bracket.paren.Misreads "(a \x7bb) (c\x7d d)" :=
  ⟨⟨by decide +kernel, by decide +kernel, by decide +kernel, Bracket.not_fits_iri⟩,
    ⟨by decide +kernel, by decide +kernel, by decide +kernel, Bracket.not_fits_iri⟩,
    ⟨by decide +kernel, by decide +kernel, by decide +kernel, Bracket.not_fits_iri⟩⟩

end N3Rules
