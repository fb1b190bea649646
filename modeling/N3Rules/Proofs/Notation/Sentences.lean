/-
Texts of three words and a full stop, whatever stands in the words.

A word that the cuts keep in one piece may leave something open at its end: a quote, or a bracket of some kind. Then the
space after it is no separator, and the text has fewer tokens than words. After the last word the full stop is no
separator either, and becomes part of the token.

- `Enclosure.after`: what is open at the end of a word;
- `Enclosure.IsFirm`: an open quote stands in a reference;
- `Keeps`: a word is kept in one piece by the cuts, and leads from one enclosure to another;
- `Sentence.statements`, `Sentence.tokens`: the statement of such a text, and how many tokens it has;
- `Document.ofText_statement`: the document that a text of one statement and no rules is.
-/
import N3Rules.Document
import N3Rules.Proofs.Notation.RoundTrip

namespace N3Rules

open Text

namespace Text

/-! ## Enclosures -/

/-- what is open after a text that starts in an enclosure -/
def Enclosure.after (e : Enclosure) : List Char → Enclosure
  | [] => e
  | c :: s => (e.feed c s.head?).after s

/-- whether a word that starts outside of everything leaves nothing open -/
def leavesNothingOpen (w : List Char) : Bool :=
  (({} : Enclosure).after w).isOutside

/-- an open quote stands in a reference -/
def Enclosure.IsFirm (e : Enclosure) : Prop :=
  e.quote.isSome → 1 ≤ e.angles

theorem Enclosure.isFirm_of_quote {e : Enclosure} (h : e.quote = none) : e.IsFirm := by
  simp [Enclosure.IsFirm, h]

theorem Enclosure.isOutside_of_angles {e : Enclosure} (h : 1 ≤ e.angles) : e.isOutside = false := by
  simp [Enclosure.isOutside]
  omega

/-- only the marks of references change how many of them are open -/
theorem Enclosure.angles_feed {c : Char} (hc : c ≠ '<' ∧ c ≠ '>') (e : Enclosure) (next : Option Char) :
    (e.feed c next).angles = e.angles := by
  unfold Enclosure.feed
  split
  · rfl
  · split <;> simp_all

theorem Enclosure.feed_angle {e : Enclosure} (he : e.quote = none) {next : Option Char} (h : opensAngle next = true) :
    e.feed '<' next = { e with angles := e.angles + 1 } := by
  simp only [Enclosure.feed, he, h, if_true]

/-- what is open after a space -/
def Enclosure.space (e : Enclosure) : Enclosure :=
  e.feed ' ' none

theorem Enclosure.quote_space {e : Enclosure} (h : e.quote = none) : e.space = e := by
  obtain ⟨quote, p, b, r, a⟩ := e
  obtain rfl : quote = none := h
  rfl

theorem Enclosure.IsFirm.space {e : Enclosure} (h : e.IsFirm) : e.space.IsFirm := by
  cases hq : e.quote with
  | none =>
    rw [Enclosure.quote_space hq]
    exact h
  | some q =>
    intro _
    rw [Enclosure.space, Enclosure.angles_feed (by decide)]
    exact h (by simp [hq])

/-- a space closes nothing -/
theorem Enclosure.IsFirm.isOutside_space {e : Enclosure} (h : e.IsFirm) (he : e.isOutside = false) :
    e.space.isOutside = false := by
  cases hq : e.quote with
  | none => rwa [Enclosure.quote_space hq]
  | some q =>
    refine Enclosure.isOutside_of_angles ?_
    rw [Enclosure.space, Enclosure.angles_feed (by decide)]
    exact h (by simp [hq])

/-! ## Words -/

/-- a word is kept in one piece by the cuts, and leads from one enclosure to another -/
def Keeps (e e' : Enclosure) (w : List Char) : Prop :=
  ∀ rule : CutRule, rule.Regular → rule.Carries e e' w

theorem carries_cons {rule : CutRule} {e e' : Enclosure} {c : Char} {w : List Char} (hw : w ≠ [])
    (hkeep : rule e c w.head? = .keep) (h : rule.Carries (e.feed c w.head?) e' w) : rule.Carries e e' (c :: w) := by
  intro t
  have hhead : (w ++ t).head? = w.head? := by
    rw [List.head?_append, List.head?_eq_some_head hw]
    rfl
  rw [← hhead] at hkeep h
  rw [List.cons_append, cut_cons_keep hkeep, h]
  rfl

theorem carries_space_statement (e : Enclosure) : statementCut.Carries e e.space [' '] := by
  refine carries_char (e.feed_next (by decide) · none) ?_
  intro next
  simp [statementCut]

/-- where something is open, a space separates no tokens -/
theorem carries_space_token {e : Enclosure} (h : e.isOutside = false) : tokenCut.Carries e e.space [' '] := by
  refine carries_char (e.feed_next (by decide) · none) ?_
  intro next
  simp [tokenCut, h]

/-- where something is open, a full stop separates no statements and no tokens -/
theorem carries_stop {e : Enclosure} (h : e.isOutside = false) :
    ∃ e', statementCut.Carries e e' ['.'] ∧ tokenCut.Carries e e' ['.'] := by
  have hfeed : ∀ next, e.feed '.' next = e.feed '.' none := (e.feed_next (by decide) · none)
  refine ⟨e.feed '.' none, carries_char hfeed ?_, carries_char hfeed ?_⟩
  · intro next
    simp [statementCut, h]
  · intro next
    simp [tokenCut, h]

theorem tokens_word_space {w : List Char} (h : tokenCut.Carries {} {} w) (hbare : IsBare w) (t : List Char) :
    tokens (w ++ ' ' :: t) = w :: tokens t := by
  rw [← tokens_space t]
  exact (pieces_piece h hbare.trim_eq hbare.ne_nil rfl rfl).trans (by rw [tokens_space]; rfl)

theorem tokens_word {e : Enclosure} {w : List Char} (h : tokenCut.Carries {} e w) (hbare : IsBare w) : tokens w = [w] :=
  pieces_last h hbare.trim_eq hbare.ne_nil

/-! ## Sentences -/

/-- three words that are kept in one piece each, with a space between them -/
structure Sentence (u v w : List Char) (e₁ e₂ e₃ : Enclosure) : Prop where
  first : Keeps {} e₁ u
  second : Keeps e₁.space e₂ v
  third : Keeps e₂.space e₃ w
  firm : e₃.IsFirm
  bare : ∀ x ∈ [u, v, w], IsBare x

/-- the last token of a sentence before a full stop, which belongs to it when the word leaves something open -/
def lastToken (e : Enclosure) (w : List Char) : List Char :=
  if e.isOutside then w else w ++ [' ', '.']

theorem lastToken_after (w : List Char) :
    lastToken (({} : Enclosure).after w) w = if leavesNothingOpen w then w else w ++ [' ', '.'] := rfl

section Sentence

variable {u v w : List Char} {e₁ e₂ e₃ : Enclosure}

/-- two words in one token -/
theorem isBare_joined {u v : List Char} (hu : IsBare u) (hv : IsBare v) : IsBare (u ++ ' ' :: v) :=
  hu.around hv [' ']

theorem isBare_lastToken {e : Enclosure} {w : List Char} (h : IsBare w) : IsBare (lastToken e w) := by
  unfold lastToken
  split
  · exact h
  · exact isBare_joined h (isBare_char (by decide))

theorem Sentence.carries_statement (h : Sentence u v w e₁ e₂ e₃) :
    statementCut.Carries {} e₃ (u ++ ' ' :: (v ++ ' ' :: w)) := by
  have htail := (h.second _ regular_statementCut).append
    ((carries_space_statement e₂).append (h.third _ regular_statementCut))
  exact (h.first _ regular_statementCut).append ((carries_space_statement e₁).append htail)

theorem Sentence.isBare (h : Sentence u v w e₁ e₂ e₃) (e : Enclosure) :
    IsBare (u ++ ' ' :: (v ++ ' ' :: lastToken e w)) :=
  isBare_joined (h.bare u (by simp)) (isBare_joined (h.bare v (by simp)) (isBare_lastToken (h.bare w (by simp))))

/-- a sentence is the only statement of its text, with the full stop in it if the last word leaves something open -/
theorem Sentence.statements (h : Sentence u v w e₁ e₂ e₃) :
    statements (u ++ ' ' :: (v ++ ' ' :: (w ++ [' ', '.']))) = [u ++ ' ' :: (v ++ ' ' :: lastToken e₃ w)] := by
  have hsplit : u ++ ' ' :: (v ++ ' ' :: (w ++ [' ', '.'])) = (u ++ ' ' :: (v ++ ' ' :: w)) ++ ([' '] ++ ['.']) := by
    simp
  have hbare := h.isBare e₃
  have hspace := h.carries_statement.append (carries_space_statement e₃)
  cases hout : e₃.isOutside with
  | true =>
    obtain rfl := Enclosure.isOutside_iff.1 hout
    rw [lastToken, if_pos hout] at hbare ⊢
    have htrim : trim (u ++ ' ' :: (v ++ ' ' :: w) ++ [' ']) = u ++ ' ' :: (v ++ ' ' :: w) := by
      rw [trim_append_blank (by decide), hbare.trim_eq]
    rw [hsplit, ← List.append_assoc]
    exact pieces_piece hspace htrim hbare.ne_nil rfl rfl
  | false =>
    rw [lastToken, hout, if_neg (by decide)] at hbare ⊢
    rw [hsplit] at hbare ⊢
    obtain ⟨e, hstop, -⟩ := carries_stop (h.firm.isOutside_space hout)
    rw [← List.append_assoc] at hbare ⊢
    exact pieces_last (hspace.append hstop) hbare.trim_eq hbare.ne_nil

theorem Sentence.carries_lastToken (h : Sentence u v w e₁ e₂ e₃) :
    ∃ e, tokenCut.Carries e₂.space e (lastToken e₃ w) := by
  have hw := h.third _ regular_tokenCut
  cases hout : e₃.isOutside with
  | true => exact ⟨e₃, by rwa [lastToken, if_pos hout]⟩
  | false =>
    obtain ⟨e, -, hstop⟩ := carries_stop (h.firm.isOutside_space hout)
    refine ⟨e, ?_⟩
    rw [lastToken, hout, if_neg (by decide)]
    exact hw.append ((carries_space_token hout).append hstop)

/-- a sentence has its words for tokens if the first two leave nothing open, and fewer tokens otherwise -/
theorem Sentence.tokens (h : Sentence u v w e₁ e₂ e₃) :
    ∃ t ts, tokens (u ++ ' ' :: (v ++ ' ' :: lastToken e₃ w)) = t :: ts ∧ t.head? = u.head? ∧
      if e₁.isOutside ∧ e₂.isOutside then t = u ∧ ts = [v, lastToken e₃ w] else ts.length ≤ 1 := by
  have hu := h.first _ regular_tokenCut
  have hv := h.second _ regular_tokenCut
  obtain ⟨e, hw⟩ := h.carries_lastToken
  have hu' := h.bare u (by simp)
  have hv' := h.bare v (by simp)
  have hw' : IsBare (lastToken e₃ w) := isBare_lastToken (h.bare w (by simp))
  have hhead : ∀ x, (u ++ x).head? = u.head? := by
    intro x
    rw [List.head?_append, List.head?_eq_some_head hu'.ne_nil]
    rfl
  cases h₁ : e₁.isOutside with
  | true =>
    obtain rfl := Enclosure.isOutside_iff.1 h₁
    refine ⟨u, _, tokens_word_space hu hu' _, rfl, ?_⟩
    cases h₂ : e₂.isOutside with
    | true =>
      obtain rfl := Enclosure.isOutside_iff.1 h₂
      rw [tokens_word_space hv hv', tokens_word hw hw', if_pos (by simp)]
      exact ⟨rfl, rfl⟩
    | false =>
      have hvw := hv.append ((carries_space_token h₂).append hw)
      rw [List.singleton_append] at hvw
      rw [tokens_word hvw (isBare_joined hv' hw'), if_neg (by simp)]
      exact le_rfl
  | false =>
    have huv : tokenCut.Carries {} e₂ (u ++ ' ' :: v) := hu.append ((carries_space_token h₁).append hv)
    have hsplit : u ++ ' ' :: (v ++ ' ' :: lastToken e₃ w) = (u ++ ' ' :: v) ++ ' ' :: lastToken e₃ w := by simp
    cases h₂ : e₂.isOutside with
    | true =>
      obtain rfl := Enclosure.isOutside_iff.1 h₂
      refine ⟨_, _, hsplit ▸ tokens_word_space huv (isBare_joined hu' hv') _, hhead _, ?_⟩
      rw [tokens_word hw hw', if_neg (by simp)]
      exact le_rfl
    | false =>
      have hall := huv.append ((carries_space_token h₂).append hw)
      rw [List.singleton_append, ← hsplit] at hall
      refine ⟨_, [], tokens_word hall (isBare_joined hu' (isBare_joined hv' hw')), hhead _, ?_⟩
      rw [if_neg (by simp)]
      exact Nat.zero_le 1

end Sentence

end Text

/-! ## References -/

/-- an IRI between the marks of a reference -/
def reference (iri : String) : List Char :=
  '<' :: (iri.toList ++ ['>'])

theorem isBare_reference (iri : String) : IsBare (reference iri) := by
  have hfirst : IsBare ['<'] := isBare_char (by decide)
  have hlast : IsBare ['>'] := isBare_char (by decide)
  exact hfirst.around hlast iri.toList

theorem Term.read_reference (iri : String) : Term.read {} (reference iri) = .ok (.iri iri) := by
  have hshape : Shape.ofToken (trim (reference iri)) = .iri iri.toList := by
    rw [(isBare_reference iri).trim_eq]
    simp [reference, Shape.ofToken, iriReference?, List.getLast?_cons]
  rw [Term.read_iri hshape, iriOfReference_default, String.ofList_toList]

/-! ## Documents of one statement -/

/-- the document that one item is -/
def Document.ofItem (i : Item) : Document where
  triples := (liftRules (Item.triples [i]) []).1
  rules := (liftRules (Item.triples [i]) []).2.map (Rule.quantify (Item.quantifiers [i]))

theorem Document.ofItem_triple {t : Triple} (h : t.rule? = none) :
    Document.ofItem (.triple t) = { triples := [t], rules := [] } := by
  simp [Document.ofItem, liftRules, Item.triples, h]

theorem Document.ofItem_rule {t : Triple} {r : Rule} (h : t.rule? = some r) :
    Document.ofItem (.triple t) = { triples := [], rules := [r] } := by
  simp [Document.ofItem, liftRules, Item.triples, Item.quantifiers, h, Rule.quantify]

/-- a text of one statement that is no directive, and of no rules, is read as that statement -/
theorem Document.ofText_statement {text : String} {remainder statement : List Char}
    (htake : takeRules (compact text.toList) = .ok ⟨remainder, []⟩) (hstatements : statements remainder = [statement])
    (hdirective : Directive.ofTokens (tokens statement) = .ok none) :
    Document.ofText text = (Item.read {} statement).map Document.ofItem := by
  have hlines : [statement].mapM (fun s => (Directive.ofTokens (tokens s)).map fun d => (s, d)) =
      (.ok [(statement, none)] : Except SyntaxError _) := by
    simp [hdirective, Except.map, bind, Except.bind, pure, Except.pure]
  rw [Document.ofText, htake]
  simp only [bind, Except.bind, hstatements, hlines]
  cases hread : Item.read {} statement with
  | error err => simp [Scope.ofDirectives, hread, Except.map, bind, Except.bind]
  | ok i => simp [Scope.ofDirectives, hread, Except.map, bind, Except.bind, pure, Except.pure, Document.ofItem]

/-- a text is a document of which something holds, if a computation says so -/
theorem Document.of_toOption_any {text : String} {P : Document → Bool}
    (h : (Document.ofText text).toOption.any P = true) : ∃ d, Document.ofText text = .ok d ∧ P d = true := by
  cases hd : Document.ofText text with
  | error err => simp [hd, Except.toOption] at h
  | ok d => exact ⟨d, rfl, by simpa [hd, Except.toOption] using h⟩

section Sentence

variable {u v w : List Char} {e₁ e₂ e₃ : Enclosure} {text : String}

/-- a sentence that starts like a term is read term by term, if its first two words leave nothing open -/
theorem Document.ofText_sentence (h : Sentence u v w e₁ e₂ e₃) (hmark : ∃ c ∈ u.head?, c ∈ termMarks)
    (htake : takeRules (compact text.toList) = .ok ⟨u ++ ' ' :: (v ++ ' ' :: (w ++ [' ', '.'])), []⟩)
    (hout : e₁.isOutside ∧ e₂.isOutside) : Document.ofText text = (do
      let s ← Term.read {} u
      let p ← Term.read {} v
      let o ← Term.read {} (lastToken e₃ w)
      return Document.ofItem (.triple ⟨s, p, o⟩)) := by
  obtain ⟨t, ts, htokens, hhead, hts⟩ := h.tokens
  obtain ⟨c, hc, hmark⟩ := hmark
  rw [if_pos hout] at hts
  obtain ⟨rfl, rfl⟩ := hts
  have hclause : Clause.ofStatement (t ++ ' ' :: (v ++ ' ' :: lastToken e₃ w)) = .triple t v (lastToken e₃ w) := by
    simp [Clause.ofStatement, htokens, Clause.ofTokens, quantifierKind?_of_mark hc hmark]
  rw [Document.ofText_statement htake h.statements (htokens ▸ Directive.ofTokens_of_mark hc hmark),
    Item.read_clause hclause]
  cases Term.read {} t <;> cases Term.read {} v <;> cases Term.read {} (lastToken e₃ w) <;> rfl

theorem Clause.ofTokens_few {t : List Char} {ts : List (List Char)} (ht : quantifierKind? t = none)
    (hts : ts.length ≤ 1) : Clause.ofTokens (t :: ts) = .other (ts.length + 1) := by
  match ts with
  | [] => simp [Clause.ofTokens, ht]
  | [_] => simp [Clause.ofTokens, ht]
  | _ :: _ :: _ => simp at hts

/-- a sentence of which one of the first two words leaves something open is refused -/
theorem Document.ofText_sentence_error (h : Sentence u v w e₁ e₂ e₃) (hmark : ∃ c ∈ u.head?, c ∈ termMarks)
    (htake : takeRules (compact text.toList) = .ok ⟨u ++ ' ' :: (v ++ ' ' :: (w ++ [' ', '.'])), []⟩)
    (hin : ¬(e₁.isOutside ∧ e₂.isOutside)) : ∃ err, Document.ofText text = .error err := by
  obtain ⟨t, ts, htokens, hhead, hts⟩ := h.tokens
  obtain ⟨c, hc, hmark⟩ := hmark
  rw [if_neg hin] at hts
  have hc' : c ∈ t.head? := by rwa [hhead]
  have hclause : Clause.ofStatement (u ++ ' ' :: (v ++ ' ' :: lastToken e₃ w)) = .other (ts.length + 1) := by
    rw [Clause.ofStatement, htokens]
    exact Clause.ofTokens_few (quantifierKind?_of_mark hc' hmark) hts
  rw [Document.ofText_statement htake h.statements (htokens ▸ Directive.ofTokens_of_mark hc' hmark), Item.read]
  split <;> simp_all [Except.map]

end Sentence

end N3Rules
