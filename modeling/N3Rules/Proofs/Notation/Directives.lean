/-
Directives as phrases, and where they may stand.

A directive is written as a keyword, a label for a `@prefix`, and a reference, with spaces between them. None of these
words opens anything that it does not close, so a full stop after them ends the statement, and the text is a passage. Which
namespaces and which base a document has is settled before anything in it is read; so it makes no difference whether a
directive stands before the names it is about, between them or after them.

- `IsPhrase`: words with spaces between them that the scans pass over; names and references are such words;
- `isDirectiveText_of_phrase`: a phrase that spells a directive, with a full stop after it, is a passage;
- `labelPhrase`, `basePhrase`: the two kinds of directives, from their keyword on;
- `directive_anywhere`: the written directives are directives, and each may stand anywhere among passages, if no other
  statement there declares the same label, or respectively a base.
-/
import N3Rules.Proofs.Notation.Passages

namespace N3Rules

open Text

namespace Text

/-! ## Phrases -/

/-- words with spaces between them that the scans pass over and the cuts keep in one piece each: they open nothing that
they do not close, and nothing in them ends a statement or a token -/
structure IsPhrase (words : List (List Char)) (w : List Char) : Prop where
  bare : IsBare w
  plain : ∀ c ∈ w, Quote.opening? c = none ∧ c ≠ '{' ∧ c ≠ '}'
  tokens : ∀ t : List Char, (∀ c ∈ t.head?, c = ' ') → tokens (w ++ t) = words ++ Text.tokens t
  woven : ∀ {gap : Bool} {u : List Char}, Woven IsStatementChar false u → Woven IsStatementChar gap (w ++ u)
  layout : ∀ next, Layout.plain.after next w = .plain
  closed : ∀ u, ({} : Enclosure).after (w ++ u) = ({} : Enclosure).after u

theorem isStatementChar_of_isNameChar {c : Char} (h : isNameChar c = true) : IsStatementChar c := by
  have hblank := isBlank_of_isNameChar h
  simp only [isNameChar, Bool.and_eq_true, bne_iff_ne] at h
  refine ⟨h.1.2, h.2, ?_⟩
  rintro rfl
  exact absurd hblank (by decide)

theorem isWordChar_of_isReferenceChar {c : Char} (h : isReferenceChar c = true) : IsWordChar c := by
  obtain ⟨hblank, hmem⟩ := isReferenceChar_iff.1 h
  simp only [enclosers, List.mem_cons, not_or] at hmem
  exact ⟨hblank, hmem.2.2.1, hmem.2.2.2.1⟩

/-- a row of the characters of names -/
theorem isPhrase_row {w : List Char} (hne : w ≠ []) (hw : ∀ c ∈ w, isNameChar c = true) : IsPhrase [w] w := by
  have hplain : ∀ c ∈ w, isPlain c = true := fun c hc => isPlain_of_isNameChar (hw c hc)
  have hreference : ∀ c ∈ w, isReferenceChar c = true := fun c hc => isReferenceChar_of_isPlain (hplain c hc)
  have hbare : IsBare w := isBare_row hne fun c hc => isBlank_of_isNameChar (hw c hc)
  constructor
  case bare => exact hbare
  case plain => exact fun c hc => opensNothing (hreference c hc)
  case tokens =>
    have hwoven : Woven IsWordChar false w := by
      have := Woven.plains (fun c hc => ⟨hplain c hc, isWordChar_of_isReferenceChar (hreference c hc)⟩) .nil
      rwa [List.append_nil] at this
    exact isToken_word hwoven hne hbare.trim_eq
  case woven =>
    intro gap u hu
    obtain ⟨c, s, rfl⟩ := List.exists_cons_of_ne_nil hne
    rw [List.forall_mem_cons] at hw hplain
    exact .plain hplain.1 (isStatementChar_of_isNameChar hw.1)
      (Woven.plains (fun d hd => ⟨hplain.2 d hd, isStatementChar_of_isNameChar (hw.2 d hd)⟩) hu)
  case layout =>
    intro next
    clear hne hbare
    induction w with
    | nil => rfl
    | cons c w ih =>
      rw [List.forall_mem_cons] at hw hplain hreference
      have hfeed : ∀ next, Layout.plain.feed c next = .plain := by
        intro next
        have hmem := (isReferenceChar_iff.1 hreference.1).2
        simp only [enclosers, List.mem_cons, not_or] at hmem
        have hcomment : c ≠ '#' := by
          rintro rfl
          exact absurd hplain.1 (by decide)
        simp [Layout.feed, hcomment, hmem.1, opening?_eq_none_of_isReferenceChar hreference.1]
      rw [Layout.after, hfeed, ih hw.2 hplain.2 hreference.2]
  case closed =>
    intro u
    clear hne hbare
    induction w with
    | nil => rfl
    | cons c w ih =>
      rw [List.forall_mem_cons] at hw hplain hreference
      rw [List.cons_append, Enclosure.after, Enclosure.feed_of_ordinary rfl _ (.inl hreference.1),
        ih hw.2 hplain.2 hreference.2]

/-- a reference -/
theorem isPhrase_reference {s : List Char} (hs : isReference s = true) :
    IsPhrase ['<' :: (s ++ ['>'])] ('<' :: (s ++ ['>'])) := by
  have hchars : ∀ c ∈ s, isReferenceChar c = true := by
    simp only [isReference, Bool.and_eq_true, List.all_eq_true] at hs
    exact hs.1
  have hbare : IsBare ('<' :: (s ++ ['>'])) := (isBare_char (c := '<') (by decide)).around (isBare_char (by decide)) s
  constructor
  case bare => exact hbare
  case plain =>
    intro c hc
    rcases List.mem_cons.1 hc with rfl | hc
    · decide
    · rcases List.mem_append.1 hc with hc | hc
      · exact opensNothing (hchars c hc)
      · rw [List.mem_singleton.1 hc]
        decide
  case tokens =>
    have hwoven : Woven IsWordChar false ('<' :: (s ++ '>' :: [])) := .reference hs .nil
    exact isToken_word hwoven hbare.ne_nil hbare.trim_eq
  case woven =>
    intro gap u hu
    simpa using (.reference hs hu : Woven _ gap _)
  case layout =>
    intro next
    have hopen : Layout.plain.feed '<' ((s ++ ['>']).head?.or next) = .iri := by
      have hangle := opensAngle_of_isReference hs []
      have hhead : (s ++ ['>']).head?.or next = (s ++ ['>']).head? := by cases s <;> rfl
      rw [hhead]
      simp only [Layout.feed, hangle]
      rfl
    have hinside : ∀ s : List Char, (∀ c ∈ s, isReferenceChar c = true) → Layout.iri.after next (s ++ ['>']) = .plain := by
      intro s
      induction s with
      | nil => exact fun _ => rfl
      | cons c s ih =>
        intro hs
        rw [List.forall_mem_cons] at hs
        have hne : c ≠ '>' := by
          rintro rfl
          exact absurd hs.1 (by decide)
        rw [List.cons_append, Layout.after, Layout.feed, if_neg hne, ih hs.2]
    rw [Layout.after, hopen, hinside s hchars]
  case closed =>
    intro u
    have hinside : ∀ s : List Char, (∀ c ∈ s, isReferenceChar c = true) →
        Enclosure.after ⟨none, 0, 0, 0, 1⟩ (s ++ '>' :: u) = ({} : Enclosure).after u := by
      intro s
      induction s with
      | nil => exact fun _ => rfl
      | cons c s ih =>
        intro hs
        rw [List.forall_mem_cons] at hs
        rw [List.cons_append, Enclosure.after, Enclosure.feed_of_ordinary rfl _ (.inl hs.1), ih hs.2]
    rw [List.cons_append, List.append_assoc, List.singleton_append, Enclosure.after,
      Enclosure.feed_angle rfl (opensAngle_of_isReference hs u)]
    exact hinside s hchars

theorem IsPhrase.append {us vs : List (List Char)} {u v : List Char} (hu : IsPhrase us u) (hv : IsPhrase vs v) :
    IsPhrase (us ++ vs) (u ++ ' ' :: v) := by
  constructor
  case bare => exact isBare_joined hu.bare hv.bare
  case plain =>
    intro c hc
    rcases List.mem_append.1 hc with hc | hc
    · exact hu.plain c hc
    · rcases List.mem_cons.1 hc with rfl | hc
      · decide
      · exact hv.plain c hc
  case tokens =>
    intro t ht
    rw [List.append_assoc, List.cons_append, hu.tokens _ (by simp), tokens_space, hv.tokens t ht, List.append_assoc]
  case woven =>
    intro gap w hw
    rw [List.append_assoc, List.cons_append]
    exact hu.woven (.space ⟨by decide, by decide, by decide⟩ (hv.woven hw))
  case layout =>
    intro next
    rw [Layout.after_append, hu.layout, Layout.after, feed_blank (by decide), hv.layout]
  case closed =>
    intro w
    rw [List.append_assoc, List.cons_append, hu.closed, Enclosure.after, Enclosure.feed_blank rfl (by decide), hv.closed]

theorem gapAfter_bare {w : List Char} (hw : IsBare w) (gap : Bool) : gapAfter gap w = false := by
  obtain ⟨c, hc, hblank⟩ := hw.last
  have hspace : c ≠ ' ' := by
    rintro rfl
    exact absurd hblank (by decide)
  rw [Option.mem_def] at hc
  simp [gapAfter, hc, hspace]

section Phrase

variable {words : List (List Char)} {w : List Char} (h : IsPhrase words w)

include h

theorem IsPhrase.tokens_eq : Text.tokens w = words := by
  have hself := h.tokens [] (by simp)
  rw [List.append_nil] at hself
  rw [hself]
  exact List.append_nil words

theorem IsPhrase.isWoven (gap : Bool) : Woven IsStatementChar gap w := by
  have hself : Woven IsStatementChar gap (w ++ []) := h.woven .nil
  rwa [List.append_nil] at hself

theorem IsPhrase.takeRulesFrom_stop : takeRulesFrom none (w ++ [' ', '.']) = .ok ⟨w ++ [' ', '.'], []⟩ := by
  refine takeRulesFrom_braceless ?_
  intro c hc
  rcases List.mem_append.1 hc with hc | hc
  · exact (h.plain c hc).2
  · simp only [List.mem_cons, List.not_mem_nil, or_false] at hc
    rcases hc with rfl | rfl <;> decide

theorem IsPhrase.compact_stop : compact (w ++ [' ', '.']) = w ++ [' ', '.'] := by
  have hcompact := (isCompact_woven (h.isWoven true)).append (gapAfter_bare h.bare true) isCompact_stop
  have hsqueeze := hcompact []
  rw [List.append_nil, show squeeze _ _ [] = [] from rfl, List.append_nil] at hsqueeze
  rw [compact, hsqueeze]
  refine trimEnd_eq_self ?_
  intro c hc
  obtain rfl : c = '.' := by simpa [List.getLast?_append] using hc.symm
  decide

/-- a phrase with a full stop after it is a passage, and its only statement -/
theorem IsPhrase.isPassage : IsPassage (w ++ [' ', '.']) where
  last := by simp [List.getLast?_append]
  layout := by
    rw [Layout.after_append, h.layout]
    rfl
  balanced := by
    have hstop : IsClosed [' ', '.'] :=
      (isClosed_char (by decide) (by decide) (by decide)).append
        (isClosed_char (c := '.') (by decide) (by decide) (by decide))
    rw [h.compact_stop, IsBalanced, (isClosed_of_woven (h.isWoven true)).append hstop 0]
    simp [closeGroup]
  closed := by
    intro e he
    rw [h.compact_stop, h.takeRulesFrom_stop] at he
    cases he
    exact h.closed _

theorem IsPhrase.parts?_stop : parts? (compact (w ++ [' ', '.'])) = some ([w], []) := by
  rw [h.compact_stop, parts?, h.takeRulesFrom_stop]
  exact congrArg (fun l => some (l, [])) (statements_statement (h.isWoven true) h.bare.ne_nil h.bare.trim_eq [])

end Phrase

end Text

/-! ## Directives -/

/-- a phrase that spells a directive is one, with a full stop after it -/
theorem isDirectiveText_of_phrase {words : List (List Char)} {w : List Char} (h : IsPhrase words w) {d : Directive}
    (hd : Directive.ofTokens words = .ok (some d)) {text : String} (htext : text.toList = w ++ [' ', '.']) :
    IsDirectiveText text d where
  passage := htext ▸ h.isPassage
  statement := ⟨w, htext ▸ h.parts?_stop, by rw [directive?, h.tokens_eq, hd]⟩

/-- a keyword, a label and a reference -/
def labelPhrase (keyword : String) (label iri : String) : List Char :=
  keyword.toList ++ ' ' :: ((label.toList ++ [':']) ++ ' ' :: reference iri)

/-- a keyword and a reference -/
def basePhrase (keyword : String) (iri : String) : List Char :=
  keyword.toList ++ ' ' :: reference iri

theorem isPhrase_keyword {keyword : String} (hkeyword : isName keyword.toList = true) :
    IsPhrase [keyword.toList] keyword.toList := by
  refine isPhrase_row ?_ (isNameChar_of_isName hkeyword)
  simp only [isName, Bool.and_eq_true] at hkeyword
  simpa using hkeyword.1

section Written

variable {keyword iri : String} (hkeyword : isName keyword.toList = true) (hiri : isReference iri.toList = true)

include hkeyword hiri

theorem isPhrase_base : IsPhrase [keyword.toList, reference iri] (basePhrase keyword iri) :=
  (isPhrase_keyword hkeyword).append (isPhrase_reference hiri)

theorem isPhrase_label {label : String} (hlabel : label.toList.all isNameChar = true) :
    IsPhrase [keyword.toList, label.toList ++ [':'], reference iri] (labelPhrase keyword label iri) := by
  have hcolon : ∀ c ∈ label.toList ++ [':'], isNameChar c = true := by
    intro c hc
    rcases List.mem_append.1 hc with hc | hc
    · exact List.all_eq_true.1 hlabel c hc
    · rw [List.mem_singleton.1 hc]
      decide
  exact (isPhrase_keyword hkeyword).append ((isPhrase_row (by simp) hcolon).append (isPhrase_reference hiri))

end Written

theorem iriReference?_reference (iri : String) : iriReference? (reference iri) = some iri.toList := by
  simp [reference, iriReference?]

/-- the label that a word stands for, when a colon ends it -/
def labelOf (word : String) : String :=
  String.ofList (dropColons (word.toList ++ [':']))

theorem labelOf_eq {label : String} (h : ':' ∉ label.toList) : labelOf label = label := by
  have hdrop : (label.toList ++ [':']).reverse.dropWhile (· == ':') = label.toList.reverse := by
    rw [List.reverse_append, List.reverse_singleton, List.singleton_append, List.dropWhile_cons_of_pos (by simp)]
    cases hrev : label.toList.reverse with
    | nil => rfl
    | cons c s =>
      have hc : c ≠ ':' := by
        rintro rfl
        exact h (List.mem_reverse.1 (by simp [hrev]))
      rw [List.dropWhile_cons_of_neg (by simpa using hc)]
  rw [labelOf, dropColons, hdrop, List.reverse_reverse, String.ofList_toList]

theorem labelDirective?_words (label iri : String) :
    labelDirective? [label.toList ++ [':'], reference iri] = some (.label (labelOf label) iri) := by
  simp [labelDirective?, iriReference?_reference, labelOf]

theorem Directive.ofTokens_label (label iri : String) :
    Directive.ofTokens ["@prefix".toList, label.toList ++ [':'], reference iri] =
      .ok (some (.label (labelOf label) iri)) := by
  simp only [Directive.ofTokens, String.ofList_toList, labelDirective?_words]
  rfl

theorem Directive.ofTokens_base (iri : String) :
    Directive.ofTokens ["@base".toList, reference iri] = .ok (some (.base iri)) := by
  simp only [Directive.ofTokens, String.ofList_toList, baseDirective?, iriReference?_reference, Option.map_some,
    Option.getD_some]

/-- **Directives hold for the whole text, wherever they stand.** A `@prefix` with a label and a reference of ordinary
characters is a directive, and so is a `@base` with such a reference. Take any passages: texts that end in a full stop and
leave nothing open, be it facts, rules, declarations or other directives. A directive that is such a passage too may be put
before, between or after them. If none of them declares its label, or respectively a base, then all the texts that come of
it are refused, or all are the same document. -/
theorem directive_anywhere :
    (∀ label iri : String, (label.toList.all fun c => isNameChar c && c != ':') = true →
      isReference iri.toList = true → IsDirectiveText ("@prefix " ++ label ++ ": <" ++ iri ++ "> .") (.label label iri)) ∧
    (∀ iri : String, isReference iri.toList = true → IsDirectiveText ("@base <" ++ iri ++ "> .") (.base iri)) ∧
    ∀ (texts : List String) (text : String) (d : Directive), (∀ t ∈ texts, IsPassage t.toList) →
      IsDirectiveText text d → (∀ t ∈ texts, ∀ d' ∈ directivesOf t, d'.subject ≠ d.subject) →
      ∀ j k, j ≤ texts.length → k ≤ texts.length →
        (Document.ofText (" ".intercalate (texts.insertIdx j text))).toOption =
          (Document.ofText (" ".intercalate (texts.insertIdx k text))).toOption := by
  refine ⟨?_, ?_, ?_⟩
  · intro label iri hlabel hiri
    rw [List.all_eq_true] at hlabel
    have hcolon : ':' ∉ label.toList := fun hmem => by simpa using hlabel ':' hmem
    have hname : label.toList.all isNameChar = true := by
      rw [List.all_eq_true]
      intro c hc
      exact (Bool.and_eq_true_iff.1 (hlabel c hc)).1
    have hspelled := Directive.ofTokens_label label iri
    rw [labelOf_eq hcolon] at hspelled
    refine isDirectiveText_of_phrase (isPhrase_label (by decide) hiri hname) hspelled ?_
    simp [labelPhrase, reference]
  · intro iri hiri
    refine isDirectiveText_of_phrase (isPhrase_base (by decide) hiri) (Directive.ofTokens_base iri) ?_
    simp [basePhrase, reference]
  · intro texts text d htexts hd hother j k hj hk
    obtain ⟨s, hs⟩ := hd.statement
    rw [Document.ofText_insertIdx htexts hd hs hother hj, Document.ofText_insertIdx htexts hd hs hother hk]

/-- facts, a rule, a base and a comment with a quote in it; three of them use the label `p` -/
def scatteredTexts : List String :=
  ["p:a p:b (p:c \x7b?x p:d \"1\"^^p:e\x7d) .", "{?x p:f ?y} => {?y p:f ?x} .", "@base <http://b/> .",
    "# it's\n<x> <y> 'p:z . ;' ."]

/-- the label may be declared before all of them or after the base, and either way it is the document that is meant -/
theorem scattered_directive_anywhere :
    (∀ t ∈ scatteredTexts, IsPassage t.toList) ∧
      IsDirectiveText "@prefix p: <http://e/> ." (.label "p" "http://e/") ∧
      (∀ t ∈ scatteredTexts, ∀ d' ∈ directivesOf t, d'.subject ≠ (Directive.label "p" "http://e/").subject) ∧
      (Document.ofText (" ".intercalate (scatteredTexts.insertIdx 0 "@prefix p: <http://e/> ."))).toOption =
        (Document.ofText (" ".intercalate (scatteredTexts.insertIdx 3 "@prefix p: <http://e/> ."))).toOption ∧
      (Document.ofText (" ".intercalate (scatteredTexts.insertIdx 3 "@prefix p: <http://e/> ."))).toOption.any
        (fun d => d.triples.map (·.subject) = [.iri "http://e/a", .iri "http://b/x"] ∧ d.rules.length = 1) = true := by
  have hpassages : ∀ t ∈ scatteredTexts, IsPassage t.toList := by decide +kernel
  have hdirective := directive_anywhere.1 "p" "http://e/" (by decide) (by decide)
  have hother : ∀ t ∈ scatteredTexts, ∀ d' ∈ directivesOf t,
      d'.subject ≠ (Directive.label "p" "http://e/").subject := by decide +kernel
  exact ⟨hpassages, hdirective, hother, directive_anywhere.2.2 scatteredTexts _ _ hpassages hdirective hother 0 3
    (by decide) (by decide), by decide +kernel⟩

end N3Rules
