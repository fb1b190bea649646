/-
Which IRIs can be written between `<` and `>`.

The characters between the two are copied as they are, and no separator or comment sign among them counts. But the cuts
into statements and tokens look at them for quotes and brackets: an apostrophe opens a quote, and `(` and `[` open
brackets, which may stay open after the `>`. The word then runs on into the next.

- `isIri`: what a reference may have between its marks;
- `reference`, `leavesNothingOpen_reference`: without those three characters a reference leaves nothing open;
- `keeps_reference`: it is kept in one piece, whatever is open before it or after it;
- `references_read_iff`: the text of three references is read as their triple exactly if all leave nothing open.
-/
import N3Rules.Proofs.Notation.Sentences

namespace N3Rules

open Text

/-! ## References -/

/-- the characters that may not stand in an IRI, besides blanks and controls -/
def iriDelimiters : List Char :=
  ['<', '>', '"', '{', '}', '|', '^', '\x60', '\\']

/-- a character of an IRI -/
def isIriChar (c : Char) : Bool :=
  !isBlank c && 0x20 < c.toNat && !iriDelimiters.contains c

/-- what may stand between `<` and `>`; if it started with `=`, the `<` would be taken for an arrow's -/
def isIri (s : String) : Bool :=
  s.toList.all isIriChar && s.toList.head? != some '='

theorem ne_of_isIriChar {c d : Char} (hc : isIriChar c = true) (hd : isIriChar d = false) : c ≠ d := by
  rintro rfl
  rw [hc] at hd
  cases hd

section Reference

variable {iri : String} (h : isIri iri = true)

include h

theorem isIriChar_of_mem : ∀ c ∈ iri.toList, isIriChar c = true := by
  rw [isIri, Bool.and_eq_true, List.all_eq_true] at h
  exact h.1

theorem opensAngle_iri (t : List Char) : opensAngle (iri.toList ++ '>' :: t).head? = true := by
  have hchars := isIriChar_of_mem h
  rw [isIri, Bool.and_eq_true] at h
  cases hs : iri.toList with
  | nil => rfl
  | cons c s =>
    rw [hs] at h hchars
    have hblank : isBlank c = false := by
      have hc := hchars c List.mem_cons_self
      simp only [isIriChar, Bool.and_eq_true, Bool.not_eq_true'] at hc
      exact hc.1.1
    simpa [opensAngle, hblank] using h.2

theorem not_mem_iri {c : Char} (hc : isIriChar c = false) : c ∉ iri.toList := by
  intro hmem
  exact ne_of_isIriChar (isIriChar_of_mem h c hmem) hc rfl

theorem isCompact_iri (gap : Bool) : IsCompact gap (reference iri) :=
  isCompact_reference (opensAngle_iri h) (not_mem_iri h (by decide)) gap

end Reference

/-! ## What a reference leaves open -/

theorem isFirm_closed {e : Enclosure} (he : 1 ≤ e.angles) (next : Option Char) : (e.feed '>' next).IsFirm := by
  cases hq : e.quote with
  | none => exact Enclosure.isFirm_of_quote (by simp [Enclosure.feed, hq])
  | some q =>
    intro _
    simpa [Enclosure.feed, hq] using he

/-- where a reference is open, its characters belong to it, up to the mark that closes it -/
theorem keeps_iriChars {s : List Char} (hs : ∀ c ∈ s, isIriChar c = true) {e : Enclosure} (he : 1 ≤ e.angles) :
    Keeps e (e.after (s ++ ['>'])) (s ++ ['>']) ∧ (e.after (s ++ ['>'])).IsFirm := by
  induction s generalizing e with
  | nil =>
    refine ⟨?_, isFirm_closed he none⟩
    intro rule hrule
    exact carries_char (e.feed_next (by decide) · none) (hrule.marks (by simp) e)
  | cons c s ih =>
    have hc := hs c List.mem_cons_self
    have hmarks : c ≠ '<' ∧ c ≠ '>' := ⟨ne_of_isIriChar hc (by decide), ne_of_isIriChar hc (by decide)⟩
    have hnext : 1 ≤ (e.feed c (s ++ ['>']).head?).angles := by rwa [Enclosure.angles_feed hmarks]
    obtain ⟨hkeeps, hfirm⟩ := ih (fun d hd => hs d (List.mem_cons_of_mem c hd)) hnext
    refine ⟨?_, hfirm⟩
    intro rule hrule
    exact carries_cons (by simp)
      (hrule.enclosed (Enclosure.isOutside_of_angles he) (Enclosure.isOutside_of_angles hnext)) (hkeeps rule hrule)

/-- a reference is kept in one piece, whatever quotes and brackets are open before it -/
theorem keeps_reference {iri : String} (h : isIri iri = true) {e : Enclosure} (he : e.IsFirm) :
    Keeps e (e.after (reference iri)) (reference iri) ∧ (e.after (reference iri)).IsFirm := by
  have hopen : 1 ≤ (e.feed '<' (iri.toList ++ ['>']).head?).angles := by
    cases hq : e.quote with
    | none =>
      rw [Enclosure.feed_angle hq (opensAngle_iri h [])]
      exact Nat.le_add_left 1 e.angles
    | some q =>
      simp only [Enclosure.feed, hq]
      exact he (by simp [hq])
  obtain ⟨hkeeps, hfirm⟩ := keeps_iriChars (isIriChar_of_mem h) hopen
  refine ⟨?_, hfirm⟩
  intro rule hrule
  exact carries_cons (by simp) (hrule.marks (by simp) _ _) (hkeeps rule hrule)

/-- without apostrophes, `(` and `[` a reference leaves nothing open -/
theorem leavesNothingOpen_reference {iri : String} (h : isIri iri = true)
    (hplain : ∀ c ∈ iri.toList, c ≠ apostrophe ∧ c ≠ '(' ∧ c ≠ '[') : leavesNothingOpen (reference iri) = true := by
  have hrow : ∀ s : List Char, (∀ c ∈ s, isIriChar c = true) → (∀ c ∈ s, c ≠ apostrophe ∧ c ≠ '(' ∧ c ≠ '[') →
      Enclosure.after ⟨none, 0, 0, 0, 1⟩ (s ++ ['>']) = {} := by
    intro s
    induction s with
    | nil => exact fun _ _ => rfl
    | cons c s ih =>
      intro hs hp
      have hc := hs c List.mem_cons_self
      have hfeed : ∀ next, Enclosure.feed ⟨none, 0, 0, 0, 1⟩ c next = ⟨none, 0, 0, 0, 1⟩ := by
        intro next
        obtain ⟨hapostrophe, hparen, hbracket⟩ := hp c List.mem_cons_self
        have hquote : Quote.opening? c = none := by
          simp [Quote.opening?, hapostrophe, ne_of_isIriChar hc (show isIriChar '"' = false by decide)]
        simp only [Enclosure.feed]
        split <;> first | rfl | contradiction | simp [hquote]
      rw [List.cons_append, Enclosure.after, hfeed]
      exact ih (fun d hd => hs d (List.mem_cons_of_mem c hd)) fun d hd => hp d (List.mem_cons_of_mem c hd)
  rw [leavesNothingOpen, Enclosure.isOutside_iff, reference, Enclosure.after]
  rw [Enclosure.feed_angle rfl (opensAngle_iri h [])]
  exact hrow _ (isIriChar_of_mem h) hplain

/-! ## Terms -/

/-- a reference with a full stop in the same token is a name -/
theorem Term.read_reference_stop (iri : String) :
    Term.read {} (reference iri ++ [' ', '.']) = .ok (.iri ("<" ++ iri ++ "> .")) := by
  have hbare : IsBare (reference iri ++ [' ', '.']) := isBare_joined (isBare_reference iri) (isBare_char (by decide))
  have hshape : Shape.ofToken (trim (reference iri ++ [' ', '.'])) = .name (reference iri ++ [' ', '.']) := by
    rw [hbare.trim_eq]
    simp [reference, Shape.ofToken, iriReference?, inside?, List.getLast?_cons]
  rw [Term.read_name hshape, iriOfName_default]
  refine congrArg (fun text => Except.ok (Term.iri text)) ?_
  rw [← String.toList_inj]
  simp [reference]

/-! ## Texts of three references -/

/-- the text of a triple of references -/
def referencesText (s p o : String) : String :=
  "<" ++ s ++ "> <" ++ p ++ "> <" ++ o ++ "> ."

theorem toList_referencesText (s p o : String) : (referencesText s p o).toList =
    reference s ++ ' ' :: (reference p ++ ' ' :: (reference o ++ [' ', '.'])) := by
  simp [referencesText, reference]

section Texts

variable {s p o : String} (hs : isIri s = true) (hp : isIri p = true) (ho : isIri o = true)

include hs hp ho

/-- nothing in three references is taken for a comment, a blank or a rule -/
theorem takeRules_references : takeRules (compact (referencesText s p o).toList) =
    .ok ⟨reference s ++ ' ' :: (reference p ++ ' ' :: (reference o ++ [' ', '.'])), []⟩ := by
  have hgap : ∀ iri gap, gapAfter gap (reference iri) = false := fun iri gap => gapAfter_reference gap iri.toList
  have hcompact : IsCompact true (referencesText s p o).toList := by
    rw [toList_referencesText]
    refine (isCompact_iri hs true).append (hgap s true) (isCompact_space.append rfl ?_)
    refine (isCompact_iri hp true).append (hgap p true) (isCompact_space.append rfl ?_)
    exact (isCompact_iri ho true).append (hgap o true) isCompact_stop
  have hbraces : ∀ c ∈ (referencesText s p o).toList, c ≠ '{' ∧ c ≠ '}' := by
    intro c hc
    constructor <;> rintro rfl <;>
      simp [referencesText, not_mem_iri hs, not_mem_iri hp, not_mem_iri ho, isIriChar, iriDelimiters] at hc
  have hsame : compact (referencesText s p o).toList = (referencesText s p o).toList := by
    have hsqueeze := hcompact []
    rw [List.append_nil, squeeze, List.append_nil] at hsqueeze
    rw [compact, hsqueeze]
    refine trimEnd_eq_self ?_
    intro c hc
    obtain rfl : '.' = c := by
      simpa [toList_referencesText, List.getLast?_append, List.getLast?_cons] using hc
    decide
  rw [hsame, takeRules, takeRulesFrom_braceless hbraces, toList_referencesText]
  rfl

/-- three references are a sentence -/
theorem sentence_references : ∃ e₂ e₃, Sentence (reference s) (reference p) (reference o)
    (({} : Enclosure).after (reference s)) e₂ e₃ ∧
    e₂ = (({} : Enclosure).after (reference s)).space.after (reference p) ∧ e₃ = e₂.space.after (reference o) := by
  obtain ⟨hfirst, hfirm⟩ := keeps_reference hs (Enclosure.isFirm_of_quote rfl : ({} : Enclosure).IsFirm)
  obtain ⟨hsecond, hfirm'⟩ := keeps_reference hp hfirm.space
  obtain ⟨hthird, hfirm''⟩ := keeps_reference ho hfirm'.space
  refine ⟨_, _, ⟨hfirst, hsecond, hthird, hfirm'', ?_⟩, rfl, rfl⟩
  intro x hx
  simp only [List.mem_cons, List.not_mem_nil, or_false] at hx
  rcases hx with rfl | rfl | rfl <;> exact isBare_reference _

end Texts

theorem references_read_ne {s p o : String} :
    ({ triples := [⟨.iri s, .iri p, .iri ("<" ++ o ++ "> .")⟩], rules := [] } : Document) ≠
      { triples := [⟨.iri s, .iri p, .iri o⟩], rules := [] } := by
  intro h
  have htext : "<" ++ o ++ "> ." = o := by
    have htriples := congrArg Document.triples h
    simpa using htriples
  have hlength := congrArg (fun t => t.toList.length) htext
  simp at hlength
  omega

/-- **References.** The text of three references is read as their triple exactly if each leaves nothing open, and so it
is if none has an apostrophe or an opening bracket. It is refused exactly if the first or the second leaves something
open. If only the third does, its word and the full stop are read as a name. -/
theorem references_read_iff (s p o : String) (hs : isIri s = true) (hp : isIri p = true) (ho : isIri o = true) :
    let settled := fun iri => leavesNothingOpen (reference iri) = true
    (∀ iri ∈ [s, p, o], (∀ c ∈ iri.toList, c ≠ apostrophe ∧ c ≠ '(' ∧ c ≠ '[') → settled iri) ∧
    (Document.ofText (referencesText s p o) = .ok { triples := [⟨.iri s, .iri p, .iri o⟩], rules := [] } ↔
      settled s ∧ settled p ∧ settled o) ∧
    ((∃ err, Document.ofText (referencesText s p o) = .error err) ↔ ¬(settled s ∧ settled p)) ∧
    (settled s → settled p → ¬settled o → Document.ofText (referencesText s p o) =
      .ok { triples := [⟨.iri s, .iri p, .iri ("<" ++ o ++ "> .")⟩], rules := [] }) := by
  intro settled
  have hplain : ∀ iri ∈ [s, p, o], (∀ c ∈ iri.toList, c ≠ apostrophe ∧ c ≠ '(' ∧ c ≠ '[') → settled iri := by
    simp only [List.forall_mem_cons, List.not_mem_nil, false_implies, implies_true, and_true]
    exact ⟨leavesNothingOpen_reference hs, leavesNothingOpen_reference hp, leavesNothingOpen_reference ho⟩
  refine ⟨hplain, ?_⟩
  have htake := takeRules_references hs hp ho
  have hmark : ∃ c ∈ (reference s).head?, c ∈ termMarks := ⟨'<', rfl, by decide⟩
  obtain ⟨e₂, e₃, hsentence, he₂, he₃⟩ := sentence_references hs hp ho
  -- where nothing is left open, the next reference starts outside
  have hsecond : settled s → e₂ = ({} : Enclosure).after (reference p) := by
    intro h
    rw [he₂, Enclosure.isOutside_iff.1 h]
    rfl
  have hthird : settled s → settled p → e₃ = ({} : Enclosure).after (reference o) := by
    intro h h'
    rw [he₃, hsecond h, Enclosure.isOutside_iff.1 h']
    rfl
  by_cases hout : settled s ∧ settled p
  · obtain ⟨h, h'⟩ := hout
    have hread := Document.ofText_sentence hsentence hmark htake ⟨h, (hsecond h).symm ▸ h'⟩
    rw [Term.read_reference, Term.read_reference] at hread
    by_cases hlast : settled o
    · rw [hthird h h', lastToken_after, if_pos hlast, Term.read_reference] at hread
      have hok : Document.ofText (referencesText s p o) = .ok { triples := [⟨.iri s, .iri p, .iri o⟩], rules := [] } :=
        hread.trans (congrArg Except.ok (Document.ofItem_triple rfl))
      refine ⟨iff_of_true hok ⟨h, h', hlast⟩, ?_, fun _ _ hopen => absurd hlast hopen⟩
      simp [hok, h, h']
    · rw [hthird h h', lastToken_after, if_neg hlast, Term.read_reference_stop] at hread
      have hok : Document.ofText (referencesText s p o) =
          .ok { triples := [⟨.iri s, .iri p, .iri ("<" ++ o ++ "> .")⟩], rules := [] } :=
        hread.trans (congrArg Except.ok (Document.ofItem_triple rfl))
      refine ⟨iff_of_false ?_ fun hall => hlast hall.2.2, ?_, fun _ _ _ => hok⟩
      · rw [hok]
        exact fun heq => references_read_ne (Except.ok.inj heq)
      · simp [hok, h, h']
  · have hin : ¬((({} : Enclosure).after (reference s)).isOutside = true ∧ e₂.isOutside = true) := by
      rintro ⟨h, h'⟩
      rw [hsecond h] at h'
      exact hout ⟨h, h'⟩
    obtain ⟨err, herr⟩ := Document.ofText_sentence_error hsentence hmark htake hin
    refine ⟨iff_of_false (by simp [herr]) fun hall => hout ⟨hall.1, hall.2.1⟩, iff_of_true ⟨err, herr⟩ hout, ?_⟩
    exact fun h h' => absurd ⟨h, h'⟩ hout

/-- apostrophes and brackets in pairs, separators, comment signs and nothing at all are read -/
theorem knotty_references_read :
    isIri "a'(b'[#.;,c](d)" = true ∧ isIri "urn:p#q;r.@s=?" = true ∧ isIri "" = true ∧
      Document.ofText (referencesText "a'(b'[#.;,c](d)" "urn:p#q;r.@s=?" "") =
        .ok { triples := [⟨.iri "a'(b'[#.;,c](d)", .iri "urn:p#q;r.@s=?", .iri ""⟩], rules := [] } := by
  have hs : isIri "a'(b'[#.;,c](d)" = true := by decide +kernel
  have hp : isIri "urn:p#q;r.@s=?" = true := by decide +kernel
  have ho : isIri "" = true := by decide +kernel
  refine ⟨hs, hp, ho, ?_⟩
  exact (references_read_iff _ _ _ hs hp ho).2.1.2 ⟨by decide +kernel, by decide +kernel, by decide +kernel⟩

/-- a single apostrophe opens a quote, and the text is refused -/
theorem apostrophe_refused :
    isIri "it's" = true ∧ isIri "p" = true ∧ isIri "o" = true ∧
      ∃ err, Document.ofText (referencesText "it's" "p" "o") = .error err := by
  have hrefused : (Document.ofText (referencesText "it's" "p" "o")).toOption.isNone = true := by decide +kernel
  refine ⟨by decide +kernel, by decide +kernel, by decide +kernel, ?_⟩
  cases hread : Document.ofText (referencesText "it's" "p" "o") with
  | error err => exact ⟨err, rfl⟩
  | ok d => simp [hread, Except.toOption] at hrefused

end N3Rules
