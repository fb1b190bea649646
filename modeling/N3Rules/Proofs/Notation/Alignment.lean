/-
A text that is read as a term, and stands where the term is written, is the written form of the term.

Many texts are read as one term, and its written form is one of them. But where the written form stands, nothing shorter
or longer is read as this term. The first mark tells the kind of a term, and what is read of a token tells where it ends;
only a bare name shows no end, and it differs from its reference in the first character, unless both are runs of `<`, which
are not cut. So if a text starts like the written forms of some terms and is cut into tokens that are read as them, then it
is cut between the written forms.

- `Aligned`: a token is the written form of a term wherever this is written in its place;
- `aligned_literal`, `aligned_spaced`, `aligned_allChars`: literals, rows of terms, and the triples of a formula;
- `Term.aligned`: every token is aligned with the term that it is read as.
-/
import N3Rules.Proofs.Notation.Atoms
import N3Rules.Proofs.Notation.Keys

namespace N3Rules

open Text

/-- a token is the written form of a term, wherever that is written in its place -/
def Aligned (w : List Char) (t : Term) : Prop :=
  ∀ a b : List Char, EndsApart w a → w ++ a = t.chars ++ b → w = t.chars

/-! ## Names and literals -/

/-- a text that goes on like itself after one more character is a run of that character -/
theorem run_of_shift {c : Char} {w a b : List Char} (h : w ++ a = c :: (w ++ b)) : (∀ d ∈ w, d = c) ∧ c ∈ a.head? := by
  induction w generalizing c with
  | nil =>
    obtain rfl : a = c :: b := h
    simp
  | cons d w ih =>
    obtain ⟨rfl, hrest⟩ := List.cons.inj h
    obtain ⟨hall, hhead⟩ := ih hrest
    exact ⟨List.forall_mem_cons.2 ⟨rfl, hall⟩, hhead⟩

/-- a bare name does not stand where it is written between angle brackets -/
theorem not_shifted {w a b : List Char} (hapart : EndsApart w a) : w ++ a ≠ '<' :: (w ++ b) := by
  intro h
  obtain ⟨hall, hhead⟩ := run_of_shift h
  exact hapart (fun c hc => hall c (List.mem_of_getLast? hc)) hhead

theorem Text.EndsApart.of_append {u w a : List Char} (h : EndsApart (u ++ w) a) (hw : w ≠ []) : EndsApart w a := by
  intro hlast
  refine h ?_
  rwa [List.getLast?_append_of_ne_nil _ hw]

/-- what follows a quoted text is what is left of it, and does not matter for its value -/
theorem readQuoted_append {s value suffix : List Char} (h : readQuoted s = some (value, suffix)) :
    (∃ quoted, s = quoted ++ suffix) ∧ ∀ a, readQuoted (s ++ a) = some (value, suffix ++ a) := by
  induction s using readQuoted.induct generalizing value with
  | case1 => cases h
  | case2 s =>
    cases h
    exact ⟨⟨['"'], rfl⟩, fun _ => rfl⟩
  | case3 => cases h
  | case4 c s ih =>
    obtain ⟨⟨value, suffix⟩, hrest, hpair⟩ := Option.map_eq_some_iff.1 h
    cases hpair
    obtain ⟨⟨quoted, rfl⟩, hread⟩ := ih hrest
    refine ⟨⟨'\\' :: c :: quoted, rfl⟩, ?_⟩
    intro a
    exact Option.map_eq_some_iff.2 ⟨_, hread a, rfl⟩
  | case5 c s hquote hlone hslash ih =>
    have hplain : c ≠ '\\' := by
      rintro rfl
      cases s with
      | nil => exact hlone rfl rfl
      | cons d s => exact hslash d s rfl rfl
    rw [readQuoted] at h
    · obtain ⟨⟨value, suffix⟩, hrest, hpair⟩ := Option.map_eq_some_iff.1 h
      cases hpair
      obtain ⟨⟨quoted, rfl⟩, hread⟩ := ih hrest
      refine ⟨⟨c :: quoted, rfl⟩, ?_⟩
      intro a
      rw [List.cons_append, readQuoted]
      · exact Option.map_eq_some_iff.2 ⟨_, hread a, rfl⟩
      · exact hquote
      · exact fun heq => absurd heq hplain
      · exact fun _ _ heq => absurd heq hplain
    all_goals assumption

/-- what stands behind the closing quote of a literal is what is written there, wherever that is written in its place -/
theorem aligned_suffix {suffix a b : List Char} {datatype language : Option String}
    (h : readSuffix? {} suffix = some (datatype, language)) (hapart : suffix ≠ [] → EndsApart suffix a)
    (heq : suffix ++ a = literalSuffix datatype language ++ b) : suffix = literalSuffix datatype language := by
  unfold readSuffix? at h
  split at h
  · cases h
    rfl
  · rename_i s
    obtain ⟨d, hd, hpair⟩ := Option.map_eq_some_iff.1 h
    cases hpair
    obtain ⟨rfl, -⟩ | ⟨-, rfl, hword⟩ := readDatatype?_eq_some_iff.1 hd
    · rfl
    · have hne : d.toList ≠ [] := by
        intro hnil
        simp [isWord, hnil] at hword
      have happart : EndsApart d.toList a :=
        Text.EndsApart.of_append (u := ['^', '^']) (hapart (List.cons_ne_nil _ _)) hne
      simp only [literalSuffix, List.cons_append, List.append_assoc, List.cons.injEq, true_and] at heq
      exact absurd heq (not_shifted happart)
  · split at h
    · cases h
      rw [literalSuffix, String.toList_ofList]
    · cases h
  · cases h

theorem aligned_literal {rest : List Char} {t : Term} (h : readLiteral? {} rest = some t) : Aligned ('"' :: rest) t := by
  simp only [readLiteral?, Option.bind_eq_bind, Option.bind_eq_some_iff, Option.pure_def, Option.some.injEq] at h
  obtain ⟨⟨value, suffix⟩, hvalue, ⟨datatype, language⟩, hsuffix, rfl⟩ := h
  intro a b hapart heq
  obtain ⟨⟨quoted, rfl⟩, hread⟩ := readQuoted_append hvalue
  simp only [Term.chars, List.cons_append, List.append_assoc, List.cons.injEq, true_and, String.toList_ofList] at heq
  -- the value ends where it is read to its end, on both sides
  have hread' := hread a
  rw [List.append_assoc, heq, readQuoted_escape] at hread'
  have hbehind : literalSuffix datatype language ++ b = suffix ++ a := (Prod.mk.inj (Option.some.inj hread')).2
  have hquoted : quoted = escape value ++ ['"'] := by
    rw [hbehind] at heq
    have hsame : quoted ++ (suffix ++ a) = (escape value ++ ['"']) ++ (suffix ++ a) := by simpa using heq
    exact List.append_cancel_right hsame
  have hsame : suffix = literalSuffix datatype language := by
    refine aligned_suffix hsuffix ?_ hbehind.symm
    exact fun hne => Text.EndsApart.of_append (u := '"' :: quoted) hapart hne
  rw [hquoted, hsame]
  simp [Term.chars]

/-! ## Rows of terms -/

theorem isBlank_of_mem_termMarks {c : Char} (hc : c ∈ termMarks) : isBlank c = false := by
  simp only [termMarks, List.mem_cons, List.not_mem_nil, or_false] at hc
  rcases hc with rfl | rfl | rfl | rfl | rfl | rfl <;> decide

/-- a text `w` stands in front of `a`, where something is written in front of `b` -/
structure StandsIn (w a b : List Char) : Prop where
  last : (∀ c ∈ w.getLast?, isBlank c = false) ∨ ∀ c ∈ b.head?, isBlank c = false
  apart : w ≠ [] → EndsApart w a

theorem StandsIn.of_append {u w a b : List Char} (h : StandsIn (u ++ w) a b) : StandsIn w a b := by
  by_cases hw : w = []
  · subst hw
    exact ⟨.inl (by simp), fun hne => absurd rfl hne⟩
  · refine ⟨?_, fun _ => (h.apart (by simp [hw])).of_append hw⟩
    have hlast := h.last
    rwa [List.getLast?_append_of_ne_nil _ hw] at hlast

/-- what is written starts with a mark, and so does every text in its place -/
theorem exists_mark {w a b : List Char} (t : Term) (hne : w ≠ []) (h : w ++ a = t.chars ++ b) :
    ∃ c s, w = c :: s ∧ c ∈ termMarks := by
  obtain ⟨c, s, rfl⟩ := List.exists_cons_of_ne_nil hne
  obtain ⟨d, hd, hmark⟩ := Term.head?_chars t
  have hhead := congrArg List.head? h
  rw [List.cons_append, List.head?_cons, List.head?_append, Option.mem_def.1 hd, Option.some_or] at hhead
  exact ⟨c, s, rfl, Option.some.inj hhead ▸ hmark⟩

/-- a text that starts with no blank starts with a token -/
theorem tokens_first {c : Char} (hc : isBlank c = false) (s : List Char) : ∃ p rest, c :: s = p ++ rest ∧ p = trim p ∧
    c ∈ p.head? ∧ tokens (c :: s) = p :: tokens rest ∧ EndsApart p rest := by
  refine restarts_tokenCut.pieces_first regular_tokenCut hc ?_
  simp only [tokenCut, hc, Bool.and_false, Bool.false_eq_true, if_false]
  repeat' split
  all_goals simp

/-- a text without tokens is blank -/
theorem isBlank_of_tokens {w : List Char} (h : tokens w = []) : ∀ c ∈ w, isBlank c = true := by
  induction w with
  | nil => simp
  | cons c w ih =>
    cases hc : isBlank c with
    | true =>
      have hgap : tokens (c :: w) = tokens w := restarts_tokenCut.pieces_gap (.inl hc)
      rw [hgap] at h
      exact List.forall_mem_cons.2 ⟨hc, ih h⟩
    | false =>
      obtain ⟨p, rest, -, -, -, htokens, -⟩ := tokens_first hc w
      rw [htokens] at h
      cases h

/-- the first token of a text that stands where a term is written -/
theorem aligned_first {w a b : List Char} {t : Term} {ts : List Term} (hw : List.Forall₂ Aligned (tokens w) (t :: ts))
    (hin : w ≠ [] → EndsApart w a) (h : w ++ a = t.chars ++ b) : ∃ rest, w = t.chars ++ rest ∧
      tokens w = t.chars :: tokens rest ∧ List.Forall₂ Aligned (tokens rest) ts ∧ rest ++ a = b := by
  have hne : w ≠ [] := by
    rintro rfl
    cases hw
  obtain ⟨c, s, rfl, hmark⟩ := exists_mark t hne h
  obtain ⟨p, rest, hsplit, -, hhead, htokens, hapart⟩ := tokens_first (isBlank_of_mem_termMarks hmark) s
  rw [htokens] at hw
  obtain ⟨haligned, hrest⟩ := List.forall₂_cons.1 hw
  rw [hsplit] at h hin
  have hp : p = t.chars := by
    refine haligned (rest ++ a) b ?_ (by rw [← h, List.append_assoc])
    cases rest with
    | nil =>
      rw [List.append_nil] at hin
      exact hin fun hnil => by simp [hnil] at hhead
    | cons d rest => exact hapart
  subst hp
  rw [List.append_assoc] at h
  exact ⟨rest, hsplit, htokens, hrest, List.append_cancel_left h⟩

/-- the tokens of a text that stands where terms are written, each with a space in front -/
theorem aligned_further {ts : List Term} {w a b : List Char} (hw : List.Forall₂ Aligned (tokens w) ts)
    (hin : StandsIn w a b) (h : w ++ a = Term.furtherChars ts ++ b) :
    w = Term.furtherChars ts ∧ tokens w = ts.map Term.chars := by
  induction ts generalizing w with
  | nil =>
    have htokens := List.forall₂_nil_right_iff.1 hw
    have hblank := isBlank_of_tokens htokens
    refine ⟨?_, htokens⟩
    cases w with
    | nil => rfl
    | cons c s =>
      -- a blank text neither ends in what is no blank nor starts with it
      exfalso
      rcases hin.last with hlast | hhead
      · have hlast' := hlast _ (List.getLast?_eq_some_getLast (List.cons_ne_nil c s))
        rw [hblank _ (List.getLast_mem _)] at hlast'
        cases hlast'
      · obtain rfl : c :: (s ++ a) = b := h
        have hfirst := hhead c rfl
        rw [hblank c List.mem_cons_self] at hfirst
        cases hfirst
  | cons t ts ih =>
    have hne : w ≠ [] := by
      rintro rfl
      cases hw
    obtain ⟨c, s, rfl⟩ := List.exists_cons_of_ne_nil hne
    rw [Term.furtherChars_cons, List.cons_append] at h
    obtain ⟨rfl, hfirst⟩ := List.cons.inj h
    rw [tokens_space] at hw
    have hin' : StandsIn s a b := hin.of_append (u := [' '])
    obtain ⟨rest, rfl, htokens, hrest, hlater⟩ := aligned_first hw hin'.apart hfirst
    obtain ⟨rfl, hmap⟩ := ih hrest hin'.of_append hlater
    refine ⟨?_, ?_⟩
    · have hcons := Term.furtherChars_cons t ts []
      rw [List.append_nil, List.append_nil] at hcons
      exact hcons.symm
    · rw [tokens_space, htokens, hmap]
      rfl

/-- the tokens of a text that stands where terms are written, with spaces between them -/
theorem aligned_spaced {ts : List Term} {w a b : List Char} (hw : List.Forall₂ Aligned (tokens w) ts)
    (hin : StandsIn w a b) (h : w ++ a = Term.spacedChars ts ++ b) :
    w = Term.spacedChars ts ∧ tokens w = ts.map Term.chars := by
  cases ts with
  | nil => exact aligned_further hw hin h
  | cons t ts =>
    rw [Term.spacedChars_cons, List.append_assoc] at h
    obtain ⟨rest, rfl, htokens, hrest, hlater⟩ := aligned_first hw hin.apart h
    obtain ⟨rfl, hmap⟩ := aligned_further hrest hin.of_append hlater
    exact ⟨(Term.spacedChars_cons t ts).symm, by rw [htokens, hmap]; rfl⟩

/-! ## Statements -/

/-- a statement is the written form of a triple, wherever that is written in its place, or it declares quantifiers -/
def AlignedItem (statement : List Char) : Item → Prop
  | .triple ⟨s, p, o⟩ => List.Forall₂ Aligned (tokens statement) [s, p, o]
  | .quantifier _ => '@' ∈ statement.head?

theorem Triple.keyChars_eq (s p o : Term) : Triple.keyChars ⟨s, p, o⟩ = Term.spacedChars [s, p, o] := by
  simp [Triple.keyChars, Term.spacedChars]

/-- a text that starts with no blank and no separator starts with a statement -/
theorem statements_first {c : Char} (hc : isBlank c = false) (s : List Char)
    (hcut : c ≠ '.' ∧ c ≠ ';') : ∃ p rest, c :: s = p ++ rest ∧ p = trim p ∧
      c ∈ p.head? ∧ statements (c :: s) = p :: statements rest ∧ EndsApart p rest := by
  refine restarts_statementCut.pieces_first regular_statementCut hc ?_
  have hline : c ≠ '\n' := by
    rintro rfl
    cases hc
  simp [statementCut, hcut, hline]

/-- the end of a triple is seen if something else comes behind it -/
theorem exists_stop {w a b : List Char} (h : w ++ '}' :: a = ' ' :: '.' :: ' ' :: b) :
    ∃ rest, w = ' ' :: '.' :: ' ' :: rest ∧ statements w = statements rest ∧ rest ++ '}' :: a = b := by
  rcases w with _ | ⟨c, _ | ⟨d, _ | ⟨e, rest⟩⟩⟩
  · simp at h
  · simp at h
  · simp at h
  · simp only [List.cons_append, List.cons.injEq] at h
    obtain ⟨rfl, rfl, rfl, h⟩ := h
    exact ⟨rest, rfl, by rw [statements_space, statements_stop, statements_space], h⟩

/-- the first statement of a text that stands where a triple is written -/
theorem aligned_triple {t : Triple} {ts : List Triple} {w a b : List Char} {items : List Item}
    (hw : List.Forall₂ AlignedItem (statements w) items) (hts : Item.triples items = t :: ts)
    (h : w ++ '}' :: a = t.keyChars ++ ' ' :: '.' :: ' ' :: b) : ∃ rest later, items = .triple t :: later ∧
      w = t.keyChars ++ ' ' :: '.' :: ' ' :: rest ∧ statements w = t.keyChars :: statements rest ∧
      List.Forall₂ AlignedItem (statements rest) later ∧ Item.triples later = ts ∧ rest ++ '}' :: a = b := by
  obtain ⟨s, p, o⟩ := t
  rw [Triple.keyChars_eq] at h ⊢
  have hne : w ≠ [] := by
    rintro rfl
    cases hw
    cases hts
  obtain ⟨c, w, rfl, hmark⟩ := exists_mark s hne (by rw [h, Term.spacedChars_cons, List.append_assoc])
  have hcut : c ≠ '.' ∧ c ≠ ';' := by
    constructor <;> (rintro rfl; exact absurd hmark (by decide))
  obtain ⟨statement, rest, hsplit, htrim, hhead, hstatements, hapart⟩ :=
    statements_first (isBlank_of_mem_termMarks hmark) w hcut
  rw [hstatements] at hw
  cases hw with
  | @cons _ i _ later hi hlater =>
    cases i with
    | quantifier q =>
      -- what starts with the mark of a term declares no quantifiers
      obtain rfl : '@' = c := Option.mem_unique hi hhead
      exact absurd hmark (by decide)
    | triple u =>
      obtain ⟨rfl, hts'⟩ := List.cons.inj hts
      have hin : StandsIn statement (rest ++ '}' :: a) (' ' :: '.' :: ' ' :: b) := by
        refine ⟨.inl ?_, fun _ => ?_⟩
        · rw [htrim]
          exact getLast?_trim statement
        · cases rest with
          | nil => simp [EndsApart]
          | cons d rest => exact hapart
      rw [hsplit, List.append_assoc] at h
      obtain ⟨rfl, -⟩ := aligned_spaced hi hin h
      obtain ⟨rest, rfl, hgap, hrest⟩ := exists_stop (List.append_cancel_left h)
      rw [hgap] at hlater
      exact ⟨rest, later, rfl, hsplit, by rw [hstatements, hgap], hlater, hts', hrest⟩

/-- the statements of a text that stands where triples are written -/
theorem aligned_allChars {ts : List Triple} {w a b : List Char} {items : List Item}
    (hw : List.Forall₂ AlignedItem (statements w) items) (hts : Item.triples items = ts)
    (h : w ++ '}' :: a = Triple.allChars ts ++ '}' :: b) :
    w = Triple.allChars ts ∧ statements w = ts.map Triple.keyChars ∧ items = ts.map .triple := by
  induction ts generalizing w items with
  | nil =>
    cases w with
    | nil =>
      cases hw
      exact ⟨rfl, rfl, rfl⟩
    | cons c s =>
      -- a statement that starts with a brace declares no quantifiers, and there is no triple
      obtain rfl : c = '}' := (List.cons.inj h).1
      obtain ⟨p, rest, -, -, hhead, hstatements, -⟩ := statements_first (c := '}') (by decide) s (by decide)
      rw [hstatements] at hw
      cases hw with
      | @cons _ i _ _ hi _ =>
        cases i with
        | triple u => cases hts
        | quantifier q => exact absurd (Option.mem_unique hi hhead) (by decide)
  | cons t ts ih =>
    rw [Triple.allChars, List.append_assoc] at h
    obtain ⟨rest, later, rfl, rfl, hstatements, hlater, hts', hrest⟩ := aligned_triple hw hts h
    obtain ⟨rfl, hmap, rfl⟩ := ih hlater hts' hrest
    exact ⟨rfl, by rw [hstatements, hmap, List.map_cons], rfl⟩

/-- the statements of a text that stands inside a formula -/
theorem aligned_insideChars {ts : List Triple} {qs : List Quantifier} {w a b : List Char} {items : List Item}
    (hw : List.Forall₂ AlignedItem (statements w) items) (hts : Item.triples items = ts)
    (h : w ++ '}' :: a = Formula.insideChars ⟨ts, qs⟩ ++ '}' :: b) :
    w = Formula.insideChars ⟨ts, qs⟩ ∧ statements w = ts.map Triple.keyChars ∧ items = ts.map .triple := by
  cases ts with
  | nil => exact aligned_allChars hw hts h
  | cons t ts =>
    cases w with
    | nil => cases h
    | cons c w =>
      obtain ⟨rfl, hrest⟩ := List.cons.inj h
      rw [statements_space] at hw ⊢
      obtain ⟨rfl, hmap⟩ := aligned_allChars hw hts hrest
      exact ⟨rfl, hmap⟩

/-! ## Terms -/

/-- a statement is aligned with what it is read as if its tokens are -/
theorem alignedItem_of_read {statement : List Char} {i : Item} (htrim : trim statement = statement)
    (hterms : ∀ token ∈ tokens statement, ∀ t, Term.read {} token = .ok t → Aligned token t)
    (h : Item.read {} statement = .ok i) : AlignedItem statement i := by
  cases Item.spelled_of_read h with
  | @triple a b c s p o hclause hs hp ho =>
    have htokens := Clause.tokens_of_triple hclause
    rw [htokens] at hterms
    rw [AlignedItem, htokens]
    exact .cons (hterms a (by simp) s hs) (.cons (hterms b (by simp) p hp) (.cons (hterms c (by simp) o ho) .nil))
  | quantifier hclause _ =>
    obtain ⟨head, rest, htokens, hkeyword⟩ := Clause.head_of_declaration hclause
    have hat : '@' ∈ head.head? := by rcases hkeyword with rfl | rfl <;> decide
    cases statement with
    | nil => cases htokens
    | cons c s =>
      have hc : isBlank c = false := by
        refine head?_trim (c :: s) c ?_
        rw [htrim]
        rfl
      obtain ⟨p, rest', -, -, hhead, hfirst, -⟩ := tokens_first hc s
      obtain ⟨rfl, -⟩ := List.cons.inj (hfirst.symm.trans htokens)
      obtain rfl := Option.mem_unique hhead hat
      rfl

/-- every token is aligned with the term that it is read as -/
theorem Term.aligned {w : List Char} {t : Term} (htrim : trim w = w) (h : Term.read {} w = .ok t) : Aligned w t := by
  induction hn : w.length using Nat.strong_induction_on generalizing w t with
  | _ n ih =>
    subst hn
    have hspelled := Term.spelled_of_read h
    rw [htrim] at hspelled
    cases hspelled with
    | reference hshape =>
      intro a b _ _
      rw [iriOfReference_default, Shape.eq_chars hshape]
      simp [Shape.chars, Term.chars]
    | literal hshape hliteral =>
      rw [Shape.eq_chars hshape]
      exact aligned_literal hliteral
    | var hshape _ =>
      intro a b _ _
      rw [Shape.eq_chars hshape]
      simp [Shape.chars, Term.chars]
    | blank hshape _ =>
      intro a b _ _
      rw [Shape.eq_chars hshape]
      simp [Shape.chars, Term.chars]
    | @list inside items hshape hitems =>
      have hinside := length_of_list_shape hshape
      rw [Shape.eq_chars hshape]
      intro a b _ heq
      simp only [Shape.chars, Term.chars, List.cons_append, List.append_assoc, List.cons.injEq, true_and] at heq
      have htokens : List.Forall₂ Aligned (tokens inside) items := by
        refine forall₂_of_mapM hitems ?_
        intro token htoken u hu
        have hlength := length_le_of_mem_tokens htoken
        exact ih token.length (by omega) (trim_of_mem_pieces htoken) hu rfl
      have hin : StandsIn inside ([')'] ++ a) ([')'] ++ b) := ⟨.inr (by simp; decide), fun _ _ => by simp⟩
      obtain ⟨rfl, -⟩ := aligned_spaced htokens hin heq
      rfl
    | @formula inside items hshape hitems =>
      have hinside := length_of_formula_shape hshape
      rw [Shape.eq_chars hshape]
      intro a b _ heq
      rw [Term.chars, Formula.chars_eq] at *
      simp only [Shape.chars, List.cons_append, List.append_assoc, List.cons.injEq, true_and] at heq
      have hstatements : List.Forall₂ AlignedItem (statements inside) items := by
        refine forall₂_of_mapM hitems ?_
        intro statement hstatement i hi
        refine alignedItem_of_read (trim_of_mem_pieces hstatement) ?_ hi
        intro token htoken u hu
        have hlength := length_le_of_mem_tokens htoken
        have hlength' := length_le_of_mem_statements hstatement
        exact ih token.length (by omega) (trim_of_mem_pieces htoken) hu rfl
      obtain ⟨rfl, -⟩ := aligned_insideChars hstatements rfl heq
      rfl
    | @name s hshape =>
      intro a b hapart heq
      rw [iriOfName_default, Shape.eq_chars hshape] at *
      simp only [Shape.chars, Term.chars, List.cons_append, List.append_assoc, String.toList_ofList] at heq
      exact absurd heq (not_shifted hapart)

end N3Rules
