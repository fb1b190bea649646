/-
Cutting a text again that was put together from its pieces.

A text is cut where nothing is open, so what comes after a piece does not matter to it: only a mark `<` looks ahead, and
one that ends a piece has opened nothing. The last piece may leave something open, but nothing comes after that one. So
the pieces of a text are cut alike when they are put together with any gap between them.

- `CutRule.Stands`: a text that is a piece wherever a gap comes after it;
- `CutRule.Row`: texts that all stand, but possibly for the last one;
- `CutRule.Canonical.row_pieces`: the pieces of a text are such a row;
- `CutRule.Row.pieces_intercalate`: such a row is what its texts, put together with gaps, are cut into;
- `pieces_rejoined`: tokens put together with spaces, and statements put together with full stops.
-/
import N3Rules.Proofs.Text.Pieces

namespace N3Rules.Text

/-! ## Blanks -/

theorem trim_append_blanks {b : List Char} (hb : ∀ c ∈ b, isBlank c = true) (s : List Char) :
    trim (s ++ b) = trim s := by
  induction b using List.reverseRecOn with
  | nil => rw [List.append_nil]
  | append_singleton b c ih =>
    rw [← List.append_assoc, trim_append_blank (hb c (by simp)), ih fun d hd => hb d (by simp [hd])]

theorem trim_blanks {b : List Char} (hb : ∀ c ∈ b, isBlank c = true) : trim b = [] :=
  trim_append_blanks hb []

/-- an open quote is closed by no blank -/
def Enclosure.IsMarked (e : Enclosure) : Prop :=
  ∀ q ∈ e.quote, isBlank q.mark = false

theorem Enclosure.isMarked_outside : Enclosure.IsMarked {} := by
  simp [Enclosure.IsMarked]

theorem Enclosure.IsMarked.feed {e : Enclosure} (he : e.IsMarked) (c : Char) (next : Option Char) :
    (e.feed c next).IsMarked := by
  cases hquote : e.quote with
  | some q =>
    intro r hr
    simp only [Enclosure.feed, hquote] at hr
    rw [Quote.mark_of_feed hr]
    exact he q hquote
  | none =>
    intro q hq
    rw [Enclosure.quote_feed hquote] at hq
    simp only [Quote.opening?] at hq
    split at hq
    · rename_i hmark
      cases hq
      rcases hmark with rfl | rfl <;> decide
    · cases hq

/-- a blank closes nothing -/
theorem Enclosure.IsMarked.outside_of_blank {e : Enclosure} (he : e.IsMarked) {c : Char} (hc : isBlank c = true)
    {next : Option Char} (h : e.feed c next = {}) : e = {} := by
  cases hquote : e.quote with
  | none => rwa [Enclosure.feed_blank hquote hc] at h
  | some q =>
    have hclosed : q.feed c = none := by
      have := congrArg Enclosure.quote h
      simpa [Enclosure.feed, hquote] using this
    have hmark := he q hquote
    rw [← Quote.eq_mark_of_feed hclosed, hc] at hmark
    cases hmark

/-- a mark that opens nothing does as little before any other character that lets it open nothing -/
theorem Enclosure.feed_shut {e : Enclosure} {c : Char} {next next' : Option Char} (hnext' : opensAngle next' = false)
    (h : opensAngle next = false ∨ e.feed c next = {}) : e.feed c next' = e.feed c next := by
  by_cases hc : c = '<'
  · subst hc
    simp only [Enclosure.feed, hnext']
    cases hquote : e.quote with
    | some q => rfl
    | none =>
      have hshut : opensAngle next = false := by
        rcases h with h | h
        · exact h
        · have := congrArg Enclosure.angles h
          simp only [Enclosure.feed, hquote] at this
          cases hnext : opensAngle next with
          | false => rfl
          | true => simp [hnext] at this
      simp [hshut]
  · exact Enclosure.feed_next hc e next' next

/-! ## Rows of pieces -/

/-- a rule for which what comes after a piece does not matter to the piece -/
structure CutRule.Canonical (rule : CutRule) : Prop where
  restarts : rule.Restarts
  regular : rule.Regular
  blind : ∀ (e : Enclosure) (c : Char) (next next' : Option Char), rule e c next = rule e c next'

theorem canonical_statementCut : statementCut.Canonical :=
  ⟨restarts_statementCut, regular_statementCut, fun _ _ _ _ => rfl⟩

theorem canonical_tokenCut : tokenCut.Canonical := by
  refine ⟨restarts_tokenCut, regular_tokenCut, ?_⟩
  intro e c next next'
  by_cases hc : c = ')'
  · rw [tokenCut, Enclosure.feed_next (by simp [hc]) e next next']
    rfl
  · simp [tokenCut, hc]

/-- a text that starts with a gap: it lets no mark open anything, and its first piece is blank -/
structure CutRule.Breaks (rule : CutRule) (u : List Char) : Prop where
  shut : opensAngle u.head? = false
  blank : ∀ c ∈ (cut rule {} u).1, isBlank c = true

theorem breaks_nil (rule : CutRule) : rule.Breaks [] :=
  ⟨rfl, by simp [cut]⟩

theorem CutRule.Breaks.pieces_eq {rule : CutRule} {u : List Char} (hu : rule.Breaks u) :
    pieces rule u = finished (cut rule {} u).2 := by
  rw [pieces_eq_finished, finished_cons, trim_blanks hu.blank]
  rfl

/-- a text that is a piece wherever a gap comes after it -/
def CutRule.Stands (rule : CutRule) (p : List Char) : Prop :=
  ∀ u, rule.Breaks u → pieces rule (p ++ u) = p :: pieces rule u

theorem CutRule.Stands.pieces_self {rule : CutRule} {p : List Char} (hp : rule.Stands p) : pieces rule p = [p] := by
  have h := hp [] (breaks_nil rule)
  rwa [List.append_nil] at h

/-- texts that are pieces wherever gaps come after them, but possibly for the last one, after which nothing comes -/
inductive CutRule.Row (rule : CutRule) : List (List Char) → Prop where
  | nil : rule.Row []
  | last {p : List Char} : pieces rule p = [p] → rule.Row [p]
  | cons {p : List Char} {ps : List (List Char)} : rule.Stands p → rule.Row ps → rule.Row (p :: ps)

theorem CutRule.Row.pieces_self {rule : CutRule} {ps : List (List Char)} (h : rule.Row ps) :
    ∀ p ∈ ps, pieces rule p = [p] := by
  induction h with
  | nil => simp
  | last hp => simpa using hp
  | cons hp _ ih => simpa using ⟨hp.pieces_self, ih⟩

/-- texts that are put together with gaps are cut into themselves -/
theorem CutRule.Row.pieces_intercalate {rule : CutRule} {gap : List Char}
    (hgap : ∀ t, rule.Breaks (gap ++ t) ∧ pieces rule (gap ++ t) = pieces rule t) {ps : List (List Char)}
    (h : rule.Row ps) : pieces rule (gap.intercalate ps) = ps := by
  induction h with
  | nil => rfl
  | last hp => simpa using hp
  | @cons p ps hp _ ih =>
    cases ps with
    | nil => simpa using hp.pieces_self
    | cons q ps =>
      rw [List.intercalate_cons_cons, List.append_assoc, hp _ (hgap _).1, (hgap _).2, ih]

/-! ## The pieces of a text -/

section Canonical

variable {rule : CutRule} (hrule : rule.Canonical)

include hrule

/-- the character before a piece does what it did, if the piece is followed by a gap instead -/
theorem CutRule.Canonical.feed_alike {e : Enclosure} {c : Char} {s w b u : List Char}
    (hpiece : (cut rule (e.feed c s.head?) s).1 = w ++ b) (hb : ∀ d ∈ b, isBlank d = true)
    (hu : opensAngle u.head? = false) : e.feed c (w ++ u).head? = e.feed c s.head? := by
  obtain ⟨rest, hsplit, -⟩ := hrule.restarts.cut_split hrule.regular (e.feed c s.head?) s
  rw [hpiece] at hsplit
  cases w with
  | cons d w => rw [hsplit]; rfl
  | nil =>
    refine Enclosure.feed_shut hu ?_
    cases b with
    | cons d b =>
      left
      rw [hsplit]
      simp [opensAngle, hb d List.mem_cons_self]
    | nil =>
      cases s with
      | nil => exact .inl rfl
      | cons d s =>
        right
        rw [List.head?_cons] at hpiece ⊢
        cases hcut : rule (e.feed c (some d)) d s.head? with
        | drop => exact (hrule.restarts.drop hcut).1
        | before => exact hrule.restarts.before hcut
        | keep => simp [cut, hcut] at hpiece
        | after => simp [cut, hcut] at hpiece

/-- where a blank piece is cut off, nothing is open -/
theorem CutRule.Canonical.outside_of_blank {e : Enclosure} (he : e.IsMarked) {s : List Char}
    (hblank : ∀ c ∈ (cut rule e s).1, isBlank c = true) (hlater : (cut rule e s).2 ≠ []) : e = {} := by
  induction s generalizing e with
  | nil => exact absurd rfl hlater
  | cons c s ih =>
    cases hcut : rule e c s.head? with
    | drop => exact (hrule.restarts.drop hcut).1
    | before => exact hrule.restarts.before hcut
    | keep =>
      simp only [cut_cons_keep hcut, List.forall_mem_cons] at hblank hlater
      exact he.outside_of_blank hblank.1 (ih (he.feed c _) hblank.2 hlater)
    | after =>
      simp only [cut, hcut, List.forall_mem_cons] at hblank
      exact he.outside_of_blank hblank.1 (hrule.restarts.after hcut)

/-- a piece that is cut off is cut off by any gap, without the blanks it ends with -/
theorem CutRule.Canonical.cut_gap {e : Enclosure} (he : e.IsMarked) {s w b u : List Char}
    (hpiece : (cut rule e s).1 = w ++ b) (hb : ∀ c ∈ b, isBlank c = true) (hlater : (cut rule e s).2 ≠ [])
    (hu : rule.Breaks u) : ∃ b', (∀ c ∈ b', isBlank c = true) ∧ (cut rule e (w ++ u)).1 = w ++ b' ∧
      finished (cut rule e (w ++ u)).2 = pieces rule u := by
  induction w generalizing e s with
  | nil =>
    obtain rfl := hrule.outside_of_blank he (hpiece ▸ hb) hlater
    exact ⟨_, hu.blank, rfl, hu.pieces_eq.symm⟩
  | cons c w ih =>
    cases s with
    | nil => exact absurd rfl hlater
    | cons d s =>
      cases hcut : rule e d s.head? with
      | drop => simp [cut, hcut] at hpiece
      | before => simp [cut, hcut] at hpiece
      | keep =>
        simp only [cut_cons_keep hcut, List.cons_append, List.cons.injEq] at hpiece hlater
        obtain ⟨rfl, hpiece⟩ := hpiece
        obtain ⟨b', hb', hfirst, hrest⟩ := ih (he.feed d _) hpiece hlater
        rw [hrule.blind e d _ (w ++ u).head?] at hcut
        rw [List.cons_append, cut_cons_keep hcut, hrule.feed_alike hpiece hb hu.shut, hfirst]
        exact ⟨b', hb', rfl, hrest⟩
      | after =>
        simp only [cut, hcut, List.cons_append, List.cons.injEq] at hpiece
        obtain ⟨rfl, hpiece⟩ := hpiece
        obtain ⟨rfl, rfl⟩ := List.append_eq_nil_iff.1 hpiece.symm
        rw [hrule.blind e d _ u.head?] at hcut
        refine ⟨[], by simp, ?_, ?_⟩
        · simp [cut, hcut]
        · simp only [List.singleton_append, cut, hcut, hrule.restarts.after hcut, pieces_eq_finished]

/-- a piece that is not cut off is a piece without the blanks it ends with -/
theorem CutRule.Canonical.cut_last {e : Enclosure} {s w b : List Char} (hpiece : (cut rule e s).1 = w ++ b)
    (hb : ∀ c ∈ b, isBlank c = true) (hlater : (cut rule e s).2 = []) : cut rule e w = (w, []) := by
  induction w generalizing e s with
  | nil => rfl
  | cons c w ih =>
    cases s with
    | nil => simp [cut] at hpiece
    | cons d s =>
      cases hcut : rule e d s.head? with
      | drop => simp [cut, hcut] at hpiece
      | before => simp [cut, hcut] at hpiece
      | after => simp [cut, hcut] at hlater
      | keep =>
        simp only [cut_cons_keep hcut, List.cons_append, List.cons.injEq] at hpiece hlater
        obtain ⟨rfl, hpiece⟩ := hpiece
        have hfeed := hrule.feed_alike (u := []) hpiece hb rfl
        rw [List.append_nil] at hfeed
        rw [hrule.blind e d _ w.head?] at hcut
        rw [cut_cons_keep hcut, hfeed, ih hpiece hlater]

/-- the pieces of a text that starts with a piece are a row, if those of the text after the piece are -/
theorem CutRule.Canonical.row_cons {c : Char} {s : List Char} (hblank : isBlank c = false)
    (hcut : rule {} c s.head? = .keep ∨ rule {} c s.head? = .before)
    (hrest : ∀ rest : List Char, rest.length ≤ s.length → rule.Row (pieces rule rest)) :
    rule.Row (pieces rule (c :: s)) := by
  have he : (({} : Enclosure).feed c s.head?).IsMarked := Enclosure.isMarked_outside.feed c _
  obtain ⟨b, hpiece, hb⟩ := trimEnd_split (cut rule (({} : Enclosure).feed c s.head?) s).1
  have htrimmed := trimEnd_eq_self (getLast?_trimEnd (cut rule (({} : Enclosure).feed c s.head?) s).1)
  rw [pieces_cons hblank hcut]
  generalize trimEnd (cut rule (({} : Enclosure).feed c s.head?) s).1 = w at hpiece htrimmed ⊢
  have hcut' : ∀ u : List Char, rule {} c u.head? = .keep ∨ rule {} c u.head? = .before := by
    intro u
    rwa [hrule.blind {} c _ s.head?]
  by_cases hlater : (cut rule (({} : Enclosure).feed c s.head?) s).2 = []
  · rw [hlater]
    refine .last ?_
    have hfeed := hrule.feed_alike (u := []) hpiece hb rfl
    rw [List.append_nil] at hfeed
    rw [pieces_cons hblank (hcut' w), hfeed, hrule.cut_last hpiece hb hlater, htrimmed]
    rfl
  · obtain ⟨rest, hsplit, hpieces, -⟩ := hrule.restarts.cut_split hrule.regular (({} : Enclosure).feed c s.head?) s
    rw [hpieces]
    refine .cons ?_ (hrest rest ?_)
    · intro u hu
      obtain ⟨b', hb', hfirst, hgap⟩ := hrule.cut_gap he hpiece hb hlater hu
      rw [List.cons_append, pieces_cons hblank (hcut' _), hrule.feed_alike hpiece hb hu.shut, hfirst, hgap,
        ← trim_cons hblank, ← List.cons_append, trim_append_blanks hb', trim_cons hblank, htrimmed]
    · have := congrArg List.length hsplit
      rw [List.length_append] at this
      omega

/-- the pieces of a text are pieces wherever gaps come after them, but possibly for the last one -/
theorem CutRule.Canonical.row_pieces (s : List Char) : rule.Row (pieces rule s) := by
  induction hlength : s.length using Nat.strong_induction_on generalizing s with
  | _ n ih =>
    subst hlength
    cases s with
    | nil => exact .nil
    | cons c s =>
      by_cases hgap : isBlank c = true ∨ rule {} c s.head? = .drop
      · rw [hrule.restarts.pieces_gap hgap]
        exact ih _ (by simp) s rfl
      · rw [not_or, Bool.not_eq_true] at hgap
        obtain ⟨hblank, hdrop⟩ := hgap
        cases hcut : rule {} c s.head? with
        | drop => exact absurd hcut hdrop
        | keep => exact hrule.row_cons hblank (.inl hcut) fun rest h => ih _ (by simp; omega) rest rfl
        | before => exact hrule.row_cons hblank (.inr hcut) fun rest h => ih _ (by simp; omega) rest rfl
        | after =>
          have hpieces : ∀ u, pieces rule (c :: u) = [c] :: pieces rule u := by
            intro u
            rw [hrule.blind {} c _ u.head?] at hcut
            simp only [pieces_eq_finished, cut, hcut, hrule.restarts.after hcut]
            rw [finished_cons, trim_cons hblank]
            rfl
          rw [hpieces]
          exact .cons (fun u _ => hpieces u) (ih _ (by simp) s rfl)

end Canonical

/-! ## Tokens and statements -/

theorem tokens_gap (t : List Char) : tokenCut.Breaks ([' '] ++ t) ∧ tokens ([' '] ++ t) = tokens t := by
  have hcut : tokenCut {} ' ' t.head? = .drop := rfl
  refine ⟨⟨rfl, ?_⟩, tokens_space t⟩
  simp [cut, hcut]

theorem statements_gap (t : List Char) :
    statementCut.Breaks ([' ', '.', ' '] ++ t) ∧ statements ([' ', '.', ' '] ++ t) = statements t := by
  have hspace : statementCut {} ' ' (some '.') = .keep := rfl
  have hfeed : ({} : Enclosure).feed ' ' (some '.') = {} := rfl
  have hstop : statementCut {} '.' (some ' ') = .drop := rfl
  refine ⟨⟨rfl, ?_⟩, ?_⟩
  · simp [cut, hspace, hfeed, hstop, show isBlank ' ' = true by decide]
  · calc statements (' ' :: '.' :: ' ' :: t)
      _ = statements ('.' :: ' ' :: t) := statements_space _
      _ = statements (' ' :: t) := statements_stop _
      _ = statements t := statements_space _

/-- the tokens of a text, put together with spaces, are its tokens again, and so are its statements, put together with
full stops; a single one is the only one of itself -/
theorem pieces_rejoined (s : List Char) :
    tokens ([' '].intercalate (tokens s)) = tokens s ∧
      statements ([' ', '.', ' '].intercalate (statements s)) = statements s ∧
      (∀ t ∈ tokens s, tokens t = [t]) ∧ ∀ p ∈ statements s, statements p = [p] := by
  have htokens : tokenCut.Row (tokens s) := canonical_tokenCut.row_pieces s
  have hstatements : statementCut.Row (statements s) := canonical_statementCut.row_pieces s
  exact ⟨htokens.pieces_intercalate tokens_gap, hstatements.pieces_intercalate statements_gap, htokens.pieces_self,
    hstatements.pieces_self⟩

/-- pieces that touch, end in a mark that opens nothing, hold separators, or leave something open -/
theorem knotty_pieces_rejoined : statements "<a>(1 ')') < \n b{x . y} <\n; 'it \\' . (".toList =
      ["<a>(1 ')') <".toList, "b{x . y} <".toList, "'it \\' . (".toList] ∧
    tokens "<a>(1 ')') <".toList = ["<a>".toList, "(1 ')')".toList, "<".toList] ∧
    statements "<a>(1 ')') < . b{x . y} < . 'it \\' . (".toList =
      ["<a>(1 ')') <".toList, "b{x . y} <".toList, "'it \\' . (".toList] ∧
    tokens "<a> (1 ')') <".toList = ["<a>".toList, "(1 ')')".toList, "<".toList] ∧
    statements "'it \\' . (".toList = ["'it \\' . (".toList] ∧ tokens "(1 ')')".toList = ["(1 ')')".toList] := by
  have hstatements : statements "<a>(1 ')') < \n b{x . y} <\n; 'it \\' . (".toList =
      ["<a>(1 ')') <".toList, "b{x . y} <".toList, "'it \\' . (".toList] := by decide +kernel
  have htokens : tokens "<a>(1 ')') <".toList = ["<a>".toList, "(1 ')')".toList, "<".toList] := by decide +kernel
  obtain ⟨-, hstatements', -, halone⟩ := pieces_rejoined "<a>(1 ')') < \n b{x . y} <\n; 'it \\' . (".toList
  obtain ⟨htokens', -, halone', -⟩ := pieces_rejoined "<a>(1 ')') <".toList
  rw [hstatements] at hstatements' halone
  rw [htokens] at htokens' halone'
  exact ⟨hstatements, htokens, hstatements', htokens', halone _ (by simp), halone' _ (by simp)⟩

end N3Rules.Text
