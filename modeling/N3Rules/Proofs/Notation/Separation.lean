/-
Which terms are read back as they were written.

A written term is taken apart where its brackets close, at the full stops between its triples, and at the spaces between
its terms. It is read back if these are the places at which it was put together, and only then: no other way to take it
apart leads to the same term. Of a term that was read this is all there is to ask. It is not always so, since nothing is
escaped in what stands between angle brackets. A name that ends in `<` leaves its reference open, and a datatype that was
spelled as a name may hold `>`.

- `Term.separates`: whether a term is taken apart where it was put together;
- `Term.read_list_iff`, `Term.read_formula_iff`, `Item.read_keyChars_iff`: one level of a term, taken apart;
- `Term.read_iff`: which terms are read back;
- `reread_iff`: which terms are read back, of those that were read.
-/
import N3Rules.Proofs.Notation.Alignment
import N3Rules.Proofs.Notation.Sentences

namespace N3Rules

open Text

/-! ## Separation -/

mutual

/-- whether a written term is taken apart where it was put together: the first `>` of a datatype ends it, the last bracket
closes the first, and there are cuts between the parts and nowhere else -/
def Term.separates : Term → Bool
  | .var _ | .blank _ | .iri _ | .literal _ none _ => true
  | .literal _ (some datatype) _ => datatype.toList.all (· != '>')
  | .list items =>
    closesAtEnd '(' ')' none 0 ('(' :: (Term.spacedChars items ++ [')'])) &&
      decide (tokens (Term.spacedChars items) = items.map Term.chars) && Term.allSeparate items
  | .formula body => body.separates

def Term.allSeparate : List Term → Bool
  | [] => true
  | t :: ts => t.separates && Term.allSeparate ts

def Triple.separates : Triple → Bool
  | ⟨s, p, o⟩ =>
    decide (tokens (Triple.keyChars ⟨s, p, o⟩) = [s.chars, p.chars, o.chars]) &&
      (s.separates && p.separates && o.separates)

def Triple.allSeparate : List Triple → Bool
  | [] => true
  | t :: ts => t.separates && Triple.allSeparate ts

def Formula.separates : Formula → Bool
  | ⟨triples, quantifiers⟩ =>
    closesAtEnd '{' '}' none 0 (Formula.chars ⟨triples, quantifiers⟩) &&
      decide (statements (Formula.insideChars ⟨triples, quantifiers⟩) = triples.map Triple.keyChars) &&
      Triple.allSeparate triples

end

/-! ## One level -/

theorem Shape.ofToken_list_iff {w : List Char} :
    Shape.ofToken ('(' :: (w ++ [')'])) = .list w ↔ closesAtEnd '(' ')' none 0 ('(' :: (w ++ [')'])) = true := by
  have hformula : inside? '{' '}' ('(' :: (w ++ [')'])) = none := by simp [inside?]
  rw [← inside?_bracketed]
  simp only [Shape.ofToken, iriReference?, hformula]
  cases inside? '(' ')' ('(' :: (w ++ [')'])) <;> simp

theorem Shape.ofToken_formula_iff {w : List Char} :
    Shape.ofToken ('{' :: (w ++ ['}'])) = .formula w ↔ closesAtEnd '{' '}' none 0 ('{' :: (w ++ ['}'])) = true := by
  have hlist : inside? '(' ')' ('{' :: (w ++ ['}'])) = none := by simp [inside?]
  rw [← inside?_bracketed]
  simp only [Shape.ofToken, iriReference?, hlist]
  cases inside? '{' '}' ('{' :: (w ++ ['}'])) <;> simp

theorem trim_bracketed {o c : Char} (ho : isBlank o = false) (hc : isBlank c = false) (w : List Char) :
    trim (o :: (w ++ [c])) = o :: (w ++ [c]) :=
  ((isBare_char ho).around (isBare_char hc) w).trim_eq

theorem standsIn_nil (w : List Char) : StandsIn w [] [] :=
  ⟨.inr (by simp), fun _ _ => by simp⟩

/-- the tokens that a text is read from are aligned with their terms -/
theorem forall₂_aligned {w : List Char} {ts : List Term} (h : (tokens w).mapM (Term.read {}) = .ok ts) :
    List.Forall₂ Aligned (tokens w) ts :=
  forall₂_of_mapM h fun _ htoken _ hread => Term.aligned (trim_of_mem_pieces htoken) hread

/-- a list is read back if its brackets match, the cuts are between its items, and these are read back -/
theorem Term.read_list_iff {items : List Term} :
    Term.read {} (Term.list items).chars = .ok (.list items) ↔
      closesAtEnd '(' ')' none 0 ('(' :: (Term.spacedChars items ++ [')'])) = true ∧
        tokens (Term.spacedChars items) = items.map Term.chars ∧
        (items.map Term.chars).mapM (Term.read {}) = .ok items := by
  have htrim : trim (Term.list items).chars = '(' :: (Term.spacedChars items ++ [')']) :=
    trim_bracketed (by decide) (by decide) _
  rw [← Shape.ofToken_list_iff]
  constructor
  · intro h
    have hspelled := Term.spelled_of_read h
    rw [htrim] at hspelled
    cases hspelled with
    | literal hshape _ => exact absurd (Shape.eq_chars hshape) (by simp [Shape.chars])
    | @list inside _ hshape hitems =>
      obtain rfl : Term.spacedChars items = inside := by simpa [Shape.chars] using Shape.eq_chars hshape
      obtain ⟨-, htokens⟩ := aligned_spaced (forall₂_aligned hitems) (standsIn_nil _) rfl
      exact ⟨hshape, htokens, htokens ▸ hitems⟩
  · rintro ⟨hshape, htokens, hitems⟩
    rw [← htrim] at hshape
    rw [Term.read_list hshape, htokens, hitems]
    rfl

/-- a formula is read back if its brackets match, the cuts are between its triples, and these are read back -/
theorem Term.read_formula_iff {ts : List Triple} {qs : List Quantifier} :
    Term.read {} (Term.formula ⟨ts, qs⟩).chars = .ok (.formula ⟨ts, qs⟩) ↔
      qs = [] ∧ closesAtEnd '{' '}' none 0 (Formula.chars ⟨ts, qs⟩) = true ∧
        statements (Formula.insideChars ⟨ts, qs⟩) = ts.map Triple.keyChars ∧
        (ts.map Triple.keyChars).mapM (Item.read {}) = .ok (ts.map Item.triple) := by
  have htrim : trim (Term.formula ⟨ts, qs⟩).chars = '{' :: (Formula.insideChars ⟨ts, qs⟩ ++ ['}']) := by
    rw [Term.chars, Formula.chars_eq]
    exact trim_bracketed (by decide) (by decide) _
  rw [Formula.chars_eq, ← Shape.ofToken_formula_iff]
  constructor
  · intro h
    have hspelled := Term.spelled_of_read h
    rw [htrim] at hspelled
    generalize hbody : Term.formula ⟨ts, qs⟩ = t at hspelled
    cases hspelled with
    | literal hshape _ => exact absurd (Shape.eq_chars hshape) (by simp [Shape.chars])
    | @formula inside items hshape hitems =>
      obtain ⟨rfl, rfl⟩ : ts = Item.triples items ∧ qs = [] := by simpa using hbody
      obtain rfl : Formula.insideChars ⟨Item.triples items, []⟩ = inside := by
        simpa [Shape.chars] using Shape.eq_chars hshape
      have haligned : List.Forall₂ AlignedItem (statements (Formula.insideChars ⟨Item.triples items, []⟩)) items := by
        refine forall₂_of_mapM hitems ?_
        intro statement hstatement i hi
        refine alignedItem_of_read (trim_of_mem_pieces hstatement) ?_ hi
        exact fun token htoken u hu => Term.aligned (trim_of_mem_pieces htoken) hu
      obtain ⟨-, hstatements, heq⟩ := aligned_insideChars (a := []) (b := []) haligned rfl rfl
      rw [hstatements] at hitems
      exact ⟨rfl, hshape, hstatements, hitems.trans (congrArg Except.ok heq)⟩
    | _ => cases hbody
  · rintro ⟨rfl, hshape, hstatements, hitems⟩
    rw [← htrim] at hshape
    rw [Term.read_formula hshape, Item.readAll_eq, hstatements, hitems]
    simp [Except.map, Item.triples_map]

/-- a triple is read back if the cuts are between its terms, and these are read back -/
theorem Item.read_keyChars_iff {s p o : Term} :
    Item.read {} (Triple.keyChars ⟨s, p, o⟩) = .ok (.triple ⟨s, p, o⟩) ↔
      tokens (Triple.keyChars ⟨s, p, o⟩) = [s.chars, p.chars, o.chars] ∧
        Term.read {} s.chars = .ok s ∧ Term.read {} p.chars = .ok p ∧ Term.read {} o.chars = .ok o := by
  constructor
  · intro h
    cases Item.spelled_of_read h with
    | @triple a b c _ _ _ hclause hs hp ho =>
      have htokens := Clause.tokens_of_triple hclause
      have hread : (tokens (Triple.keyChars ⟨s, p, o⟩)).mapM (Term.read {}) = .ok [s, p, o] := by
        rw [htokens, mapM_eq_ok_iff]
        exact .cons hs (.cons hp (.cons ho .nil))
      obtain ⟨-, hmap⟩ := aligned_spaced (a := []) (b := []) (forall₂_aligned hread) (standsIn_nil _)
        (by rw [Triple.keyChars_eq])
      refine ⟨hmap, ?_⟩
      rw [htokens] at hmap
      simp only [List.map_cons, List.map_nil, List.cons.injEq, and_true] at hmap
      obtain ⟨rfl, rfl, rfl⟩ := hmap
      exact ⟨hs, hp, ho⟩
  · rintro ⟨htokens, hs, hp, ho⟩
    obtain ⟨c, hc, hmark⟩ := Term.head?_chars s
    have hclause : Clause.ofStatement (Triple.keyChars ⟨s, p, o⟩) = .triple s.chars p.chars o.chars := by
      simp [Clause.ofStatement, htokens, Clause.ofTokens, quantifierKind?_of_mark hc hmark]
    exact Item.read_triple hclause hs hp ho

/-! ## All levels -/

/-- the lettering of what is read where nothing is declared -/
def Lettering.parsed : Lettering :=
  .read isWord

theorem isDatatype_eq (s : List Char) : isDatatype s = (isWord s && s.all (· != '>')) := by
  rw [isDatatype, isWord, Bool.and_assoc]
  congr 1
  induction s with
  | nil => rfl
  | cons c s ih =>
    simp only [List.all_cons, ih]
    cases c != '>' <;> cases isBlank c <;> simp

/-- an atom is read back if it is spelled with what can be read, and the first `>` of its datatype ends it -/
theorem Term.keeps_atomic_iff {t : Term} (h : t.isAtom = true) :
    t.keeps .atomic = true ↔ t.keeps .parsed = true ∧ t.separates = true := by
  cases t with
  | list items => cases h
  | formula body => cases h
  | literal value datatype language =>
    match datatype, language with
    | none, none => simp [Term.keeps, Term.separates, Lettering.suffix]
    | none, some language => exact (and_iff_left rfl).symm
    | some datatype, some language => simp [Term.keeps, Lettering.suffix]
    | some datatype, none =>
      change isDatatype datatype.toList = true ↔
        isWord datatype.toList = true ∧ datatype.toList.all (· != '>') = true
      rw [isDatatype_eq, Bool.and_eq_true]
  | _ => exact (and_iff_left rfl).symm

mutual

/-- **Reading back.** A term is read back as it was written if and only if it is spelled with what can be read and its
written form is taken apart where it was put together. -/
theorem Term.read_iff (t : Term) :
    Term.read {} t.chars = .ok t ↔ t.keeps .parsed = true ∧ t.separates = true := by
  match t with
  | .list items =>
    rw [Term.read_list_iff, Term.allRead_iff items]
    simp only [Term.keeps, Term.separates, Bool.and_eq_true, decide_eq_true_eq]
    tauto
  | .formula ⟨ts, qs⟩ =>
    rw [Term.read_formula_iff, Item.allRead_iff ts]
    simp only [Term.keeps, Formula.keeps, Term.separates, Formula.separates, Bool.and_eq_true, decide_eq_true_eq,
      List.isEmpty_iff]
    tauto
  | .var name => exact (Term.read_atom_iff rfl).trans (Term.keeps_atomic_iff rfl)
  | .literal value datatype language => exact (Term.read_atom_iff rfl).trans (Term.keeps_atomic_iff rfl)
  | .blank id => exact (Term.read_atom_iff rfl).trans (Term.keeps_atomic_iff rfl)
  | .iri value => exact (Term.read_atom_iff rfl).trans (Term.keeps_atomic_iff rfl)

theorem Term.allRead_iff (ts : List Term) : (ts.map Term.chars).mapM (Term.read {}) = .ok ts ↔
    Term.allKeep .parsed ts = true ∧ Term.allSeparate ts = true := by
  match ts with
  | [] => exact iff_of_true rfl ⟨rfl, rfl⟩
  | t :: ts =>
    have ht := Term.read_iff t
    have hts := Term.allRead_iff ts
    rw [mapM_eq_ok_iff] at hts ⊢
    rw [List.map_cons, List.forall₂_cons, ht, hts]
    simp only [Term.allKeep, Term.allSeparate, Bool.and_eq_true]
    tauto

theorem Item.read_triple_iff (t : Triple) :
    Item.read {} t.keyChars = .ok (.triple t) ↔ t.keeps .parsed = true ∧ t.separates = true := by
  match t with
  | ⟨s, p, o⟩ =>
    rw [Item.read_keyChars_iff, Term.read_iff s, Term.read_iff p, Term.read_iff o]
    simp only [Triple.keeps, Triple.separates, Bool.and_eq_true, decide_eq_true_eq]
    tauto

theorem Item.allRead_iff (ts : List Triple) : (ts.map Triple.keyChars).mapM (Item.read {}) = .ok (ts.map Item.triple) ↔
    Triple.allKeep .parsed ts = true ∧ Triple.allSeparate ts = true := by
  match ts with
  | [] => exact iff_of_true rfl ⟨rfl, rfl⟩
  | t :: ts =>
    have ht := Item.read_triple_iff t
    have hts := Item.allRead_iff ts
    rw [mapM_eq_ok_iff] at hts ⊢
    rw [List.map_cons, List.map_cons, List.forall₂_cons, ht, hts]
    simp only [Triple.allKeep, Triple.allSeparate, Bool.and_eq_true]
    tauto

end

/-- where nothing is declared, a datatype is a word -/
theorem Lettering.admits_parsed : Lettering.parsed.Admits {} where
  name := fun _ h => h
  reference := fun _ => rfl
  datatype := by
    intro s datatype h
    obtain ⟨-, hdatatype⟩ | ⟨-, rfl, hword⟩ := readDatatype?_eq_some_iff.1 h
    · rw [isDatatype_eq, Bool.and_eq_true] at hdatatype
      exact hdatatype.1
    · exact hword
  language := fun _ h => h

/-- a term is read back if and only if it is spelled with what can be read, and is taken apart where it was put together -/
theorem Term.returns_iff_separates (t : Term) : t.Returns ↔ t.keeps .parsed = true ∧ t.separates = true :=
  Term.returns_iff.trans (Term.read_iff t)

/-- **Reading again.** A term that was read of some text is written in a form that is read as the same term if and only
if this form is taken apart where it was put together, at every depth. -/
theorem reread_iff {text : String} {t : Term} (h : Term.ofText text = .ok t) : t.Returns ↔ t.separates = true :=
  (Term.returns_iff_separates t).trans (and_iff_right (Term.keeps_of_read Lettering.admits_parsed h))

/-- a list of glued tokens, bare names and spellings that are not the written ones -/
def gluedText : String :=
  " ( a(?b<c d>)\"1\\.\"^^x:int ='p q' \x7bs>t _:b \"\\\"\x7d\"@en-GB;@forAll ?x.\t<u v> w (( ))\x7d ) "

/-- the glued list is read again from its written form, in which hardly anything is where it was -/
theorem glued_returns : ∃ t, Term.ofText gluedText = .ok t ∧ t.separates = true ∧ t.Returns ∧
    t.text = "(<a> (?b<c d>) \"1.\"^^<x:int> <='p q'> \x7b <s>t> _:b \"\\\"\x7d\"@en-GB . <u v> <w> (()) . \x7d)" := by
  have hread : (Term.ofText gluedText).toOption.any (fun t => t.separates && t.text ==
      "(<a> (?b<c d>) \"1.\"^^<x:int> <='p q'> \x7b <s>t> _:b \"\\\"\x7d\"@en-GB . <u v> <w> (()) . \x7d)") = true := by
    decide +kernel
  cases ht : Term.ofText gluedText with
  | error err => simp [ht, Except.toOption] at hread
  | ok t =>
    simp only [ht, Except.toOption, Option.any_some, Bool.and_eq_true, beq_iff_eq] at hread
    exact ⟨t, rfl, hread.1, (reread_iff ht).2 hread.1, hread.2⟩

/-- the first `>` of a datatype is not the one that was written to end it, a name that ends in `<` leaves its reference
open, and so does a name with an apostrophe -/
theorem reread_changed :
    (Term.ofText "\"x\"^^a>b" = .ok (.literal "x" (some "a>b") none) ∧
      Term.ofText (Term.literal "x" (some "a>b") none).text = .error (.malformedLiteral "\"x\"^^<a>b>")) ∧
    (Term.ofText "(a< b)" = .ok (.list [.iri "a<", .iri "b"]) ∧
      Term.ofText (Term.list [.iri "a<", .iri "b"]).text = .ok (.list [.iri "a<> <b"])) ∧
    Term.ofText "\x7ba b c'\x7d" = .ok (.formula ⟨[⟨.iri "a", .iri "b", .iri "c'"⟩], []⟩) ∧
      Term.ofText (Term.formula ⟨[⟨.iri "a", .iri "b", .iri "c'"⟩], []⟩).text =
        .ok (.formula ⟨[⟨.iri "a", .iri "b", .iri "<c'> ."⟩], []⟩) := by
  decide +kernel

end N3Rules
