/-
How woven text is cut into pieces.

- `cut_woven`: cutting leaves woven text in one piece, where it is enclosed or its outer characters are no places to
  cut at;
- `pieces_dropped`, `pieces_blank`, `pieces_piece`: the pieces of a text, from those of the text after its first piece;
- `statements_statement`: a statement of woven text, up to its full stop, is a piece;
- `IsToken`: a text that is the first token of every text in which a space or nothing comes after it;
- `isToken_word`, `isToken_list`: words without blanks and parentheses are tokens, and so are lists.
-/
import N3Rules.Text.Piece
import N3Rules.Proofs.Text.Woven

namespace N3Rules.Text

/-! ## Cutting -/

theorem Enclosure.isOutside_iff {e : Enclosure} : e.isOutside = true ↔ e = {} := by
  obtain ⟨quote, p, b, r, a⟩ := e
  simp [Enclosure.isOutside, and_assoc]

theorem Enclosure.isOutside_of_quote {e : Enclosure} {q : Quote} : { e with quote := some q }.isOutside = false := by
  simp [Enclosure.isOutside]

/-- nothing happens at a blank or at what may stand in a reference -/
theorem Enclosure.feed_of_ordinary {e : Enclosure} (he : e.quote = none) {c : Char} (next : Option Char)
    (hc : isReferenceChar c = true ∨ c = ' ') : e.feed c next = e := by
  obtain ⟨quote, parens, brackets, braces, angles⟩ := e
  subst he
  rcases hc with hc | rfl
  · have hmem := (isReferenceChar_iff.1 hc).2
    have hq := opening?_eq_none_of_isReferenceChar hc
    simp only [enclosers, List.mem_cons, not_or] at hmem
    simp only [Enclosure.feed]
    split <;> simp_all
  · rfl

/-- what comes next matters to nothing but an opening mark of a reference -/
theorem Enclosure.feed_next {c : Char} (hc : c ≠ '<') (e : Enclosure) (next next' : Option Char) :
    e.feed c next = e.feed c next' := by
  unfold Enclosure.feed
  split
  · rfl
  · split <;> simp_all

/-- outside of quotes, only a mark opens one -/
theorem Enclosure.quote_feed {e : Enclosure} (he : e.quote = none) (c : Char) (next : Option Char) :
    (e.feed c next).quote = Quote.opening? c := by
  simp only [Enclosure.feed, he]
  split
  case h_7 => split <;> simp [he, Quote.opening?, apostrophe]
  all_goals simp [Quote.opening?, apostrophe]

/-- a rule that only looks at what is not enclosed, and never cuts at the marks of quotes, references and braces -/
structure CutRule.Regular (rule : CutRule) : Prop where
  enclosed : ∀ {e : Enclosure} {c : Char} {next : Option Char}, e.isOutside = false →
    (e.feed c next).isOutside = false → rule e c next = .keep
  marks : ∀ {c : Char}, c ∈ ['"', '<', '>', '{', '}'] → ∀ (e : Enclosure) (next : Option Char), rule e c next = .keep

theorem regular_statementCut : statementCut.Regular := by
  constructor
  · intro e c next he _
    simp [statementCut, he]
  · intro c hc e next
    simp only [List.mem_cons, List.not_mem_nil, or_false] at hc
    rcases hc with rfl | rfl | rfl | rfl | rfl <;> simp [statementCut]

theorem regular_tokenCut : tokenCut.Regular := by
  constructor
  · intro e c next he hfeed
    simp [tokenCut, he, hfeed]
  · intro c hc e next
    have hblank : isBlank c = false := by
      simp only [List.mem_cons, List.not_mem_nil, or_false] at hc
      rcases hc with rfl | rfl | rfl | rfl | rfl <;> decide
    simp only [List.mem_cons, List.not_mem_nil, or_false] at hc
    rcases hc with rfl | rfl | rfl | rfl | rfl <;> simp [tokenCut, hblank]

/-- a text is kept in front of the piece that follows, and takes the enclosure `e` to `e'` -/
def CutRule.Carries (rule : CutRule) (e e' : Enclosure) (w : List Char) : Prop :=
  ∀ t, cut rule e (w ++ t) = (w ++ (cut rule e' t).1, (cut rule e' t).2)

theorem cut_cons_keep {rule : CutRule} {e : Enclosure} {c : Char} {s : List Char} (h : rule e c s.head? = .keep) :
    cut rule e (c :: s) = (c :: (cut rule (e.feed c s.head?) s).1, (cut rule (e.feed c s.head?) s).2) := by
  simp only [cut, h]

section Carries

variable {rule : CutRule} {e e' e'' : Enclosure}

theorem CutRule.Carries.append {u v : List Char} (hu : rule.Carries e e' u) (hv : rule.Carries e' e'' v) :
    rule.Carries e e'' (u ++ v) := by
  intro t
  rw [List.append_assoc, hu, hv, List.append_assoc]

theorem carries_char {c : Char} (hfeed : ∀ next, e.feed c next = e') (hkeep : ∀ next, rule e c next = .keep) :
    rule.Carries e e' [c] := by
  intro t
  rw [List.singleton_append, cut_cons_keep (hkeep _), hfeed]
  rfl

/-- a character is kept if it is enclosed on both sides, or is no place to cut at -/
theorem CutRule.Regular.carries_kept (hrule : rule.Regular) {c : Char} (hfeed : ∀ next, e.feed c next = e')
    (h : e.isOutside = false ∧ e'.isOutside = false ∨ ∀ next, rule e c next = .keep) : rule.Carries e e' [c] := by
  refine carries_char hfeed ?_
  intro next
  rcases h with ⟨he, he'⟩ | hkeep
  · refine hrule.enclosed he ?_
    rw [hfeed]
    exact he'
  · exact hkeep next

/-- a quote is kept up to the mark that closes it -/
theorem CutRule.Regular.carries_quoted (hrule : rule.Regular) (he : e.quote = none) {q : Quote} {s : List Char}
    (h : q.ClosedBy s) (hq : q.mark = '"') : rule.Carries { e with quote := some q } e s := by
  induction h with
  | @last q c hc =>
    have hmark : c = '"' := (Quote.eq_mark_of_feed hc).trans hq
    refine carries_char ?_ (hrule.marks (by simp [hmark]) _)
    intro next
    obtain ⟨quote, parens, brackets, braces, angles⟩ := e
    simp_all [Enclosure.feed]
  | next hc _ ih =>
    refine CutRule.Carries.append (hrule.carries_kept ?_ (Or.inl ⟨Enclosure.isOutside_of_quote,
      Enclosure.isOutside_of_quote⟩)) (ih ((Quote.mark_of_feed hc).trans hq))
    intro next
    simp [Enclosure.feed, hc]

/-- a row of characters at which nothing happens is kept where it is enclosed -/
theorem CutRule.Regular.carries_row (hrule : rule.Regular) (he : e.quote = none) (hout : e.isOutside = false)
    {s : List Char} (hs : s.all isReferenceChar = true) : rule.Carries e e s := by
  induction s with
  | nil =>
    intro t
    rfl
  | cons c s ih =>
    simp only [List.all_cons, Bool.and_eq_true] at hs
    have hfeed : ∀ next, e.feed c next = e := fun next => Enclosure.feed_of_ordinary he next (Or.inl hs.1)
    exact (hrule.carries_kept hfeed (Or.inl ⟨hout, hout⟩)).append (ih hs.2)

theorem CutRule.Regular.carries_reference (hrule : rule.Regular) (he : e.quote = none) {s : List Char}
    (hs : isReference s = true) : rule.Carries e e ('<' :: (s ++ ['>'])) := by
  obtain ⟨quote, p, b, r, a⟩ := e
  obtain rfl : quote = none := he
  have hrow : rule.Carries ⟨none, p, b, r, a + 1⟩ ⟨none, p, b, r, a + 1⟩ s := by
    simp only [isReference, Bool.and_eq_true] at hs
    exact hrule.carries_row rfl (by simp [Enclosure.isOutside]) hs.1
  have hclose : rule.Carries ⟨none, p, b, r, a + 1⟩ ⟨none, p, b, r, a⟩ ['>'] :=
    carries_char (fun _ => rfl) (hrule.marks (by simp) _)
  intro t
  have hopen : Enclosure.feed ⟨none, p, b, r, a⟩ '<' (s ++ '>' :: t).head? = ⟨none, p, b, r, a + 1⟩ := by
    simp only [Enclosure.feed, opensAngle_of_isReference hs, if_true]
  have hrest := hrow.append hclose t
  rw [List.append_assoc, List.singleton_append] at hrest
  rw [List.cons_append, List.append_assoc, List.singleton_append, cut_cons_keep (hrule.marks (by simp) _ _), hopen,
    hrest]
  simp

end Carries

/-- woven text is kept in one piece, if it is enclosed or no character outside its brackets is a place to cut at -/
theorem cut_woven {rule : CutRule} (hrule : rule.Regular) {ok : Char → Prop} {gap : Bool} {w : List Char}
    (h : Woven ok gap w) {e : Enclosure} (he : e.quote = none)
    (hok : e.isOutside = false ∨ ∀ c, ok c → ∀ e next, rule e c next = .keep) : rule.Carries e e w := by
  induction h generalizing e with
  | nil =>
    intro t
    rfl
  | space hspace _ ih =>
    have hfeed : ∀ next, e.feed ' ' next = e := fun next => Enclosure.feed_of_ordinary he next (Or.inr rfl)
    exact (hrule.carries_kept hfeed (hok.imp (fun h => ⟨h, h⟩) fun h => h ' ' hspace e)).append (ih he hok)
  | @plain ok gap c w hc hokc _ ih =>
    have hfeed : ∀ next, e.feed c next = e :=
      fun next => Enclosure.feed_of_ordinary he next (Or.inl (isReferenceChar_of_isPlain hc))
    exact (hrule.carries_kept hfeed (hok.imp (fun h => ⟨h, h⟩) fun h => h c hokc e)).append (ih he hok)
  | quoted hs _ ih =>
    have hmark : rule.Carries e { e with quote := some ⟨'"', false⟩ } ['"'] := by
      refine carries_char ?_ (hrule.marks (by simp) _)
      intro next
      simp [Enclosure.feed, he, Quote.opening?]
    exact hmark.append ((hrule.carries_quoted he hs rfl).append (ih he hok))
  | reference hs _ ih =>
    simpa using (hrule.carries_reference he hs).append (ih he hok)
  | parens ho hc _ _ ihs ih =>
    obtain ⟨quote, p, b, r, a⟩ := e
    obtain rfl : quote = none := he
    have hin : Enclosure.isOutside ⟨none, p + 1, b, r, a⟩ = false := by simp [Enclosure.isOutside]
    have hopen : rule.Carries ⟨none, p, b, r, a⟩ ⟨none, p + 1, b, r, a⟩ ['('] :=
      hrule.carries_kept (fun _ => rfl) (hok.imp (fun h => ⟨h, hin⟩) fun h => h '(' ho _)
    have hclose : rule.Carries ⟨none, p + 1, b, r, a⟩ ⟨none, p, b, r, a⟩ [')'] :=
      hrule.carries_kept (fun _ => rfl) (hok.imp (fun h => ⟨hin, h⟩) fun h => h ')' hc _)
    exact hopen.append ((ihs rfl (Or.inl hin)).append (hclose.append (ih rfl hok)))
  | braces _ _ ihs ih =>
    obtain ⟨quote, p, b, r, a⟩ := e
    obtain rfl : quote = none := he
    have hin : Enclosure.isOutside ⟨none, p, b, r + 1, a⟩ = false := by simp [Enclosure.isOutside]
    have hopen : rule.Carries ⟨none, p, b, r, a⟩ ⟨none, p, b, r + 1, a⟩ ['{'] :=
      carries_char (fun _ => rfl) (hrule.marks (by simp) _)
    have hclose : rule.Carries ⟨none, p, b, r + 1, a⟩ ⟨none, p, b, r, a⟩ ['}'] :=
      carries_char (fun _ => rfl) (hrule.marks (by simp) _)
    exact hopen.append ((ihs rfl (Or.inl hin)).append (hclose.append (ih rfl hok)))

/-! ## Pieces -/

theorem cut_cons_drop {rule : CutRule} {e : Enclosure} {c : Char} {s : List Char} (h : rule e c s.head? = .drop) :
    cut rule e (c :: s) = ([], (cut rule (e.feed c s.head?) s).1 :: (cut rule (e.feed c s.head?) s).2) := by
  simp only [cut, h]

/-- the pieces of a text whose cut is known -/
theorem pieces_eq {rule : CutRule} {s piece : List Char} {later : List (List Char)}
    (h : cut rule {} s = (piece, later)) :
    pieces rule s = ((piece :: later).map trim).filter fun p => !p.isEmpty := by
  rw [pieces, h]

section Pieces

variable {rule : CutRule} {c : Char} {t : List Char}

/-- a separator in front does not matter -/
theorem pieces_dropped (hdrop : rule {} c t.head? = .drop) (hfeed : Enclosure.feed {} c t.head? = {}) :
    pieces rule (c :: t) = pieces rule t := by
  rw [pieces_eq (cut_cons_drop hdrop), hfeed]
  rfl

/-- a blank in front does not matter -/
theorem pieces_blank (hblank : isBlank c = true) (hkeep : rule {} c t.head? = .keep)
    (hfeed : Enclosure.feed {} c t.head? = {}) : pieces rule (c :: t) = pieces rule t := by
  rw [pieces_eq (cut_cons_keep hkeep), hfeed, List.map_cons, trim_cons_blank hblank]
  rfl

/-- a text that is kept in one piece is the first piece, up to a separator -/
theorem pieces_piece {w p : List Char} (hw : rule.Carries {} {} w) (htrim : trim w = p) (hp : p ≠ [])
    (hdrop : rule {} c t.head? = .drop) (hfeed : Enclosure.feed {} c t.head? = {}) :
    pieces rule (w ++ c :: t) = p :: pieces rule t := by
  rw [pieces_eq (hw _), cut_cons_drop hdrop, hfeed]
  simp [pieces, htrim, hp]

/-- a text that is kept in one piece is the only piece of itself -/
theorem pieces_last {e : Enclosure} {w p : List Char} (hw : rule.Carries {} e w) (htrim : trim w = p) (hp : p ≠ []) :
    pieces rule w = [p] := by
  have hcut := hw []
  rw [List.append_nil] at hcut
  rw [pieces_eq hcut]
  simp [cut, htrim, hp]

end Pieces

/-! ## Statements -/

/-- a character that ends no statement -/
def IsStatementChar (c : Char) : Prop :=
  c ≠ '.' ∧ c ≠ ';' ∧ c ≠ '\n'

theorem carries_statement {gap : Bool} {w : List Char} (h : Woven IsStatementChar gap w) :
    statementCut.Carries {} {} w := by
  refine cut_woven regular_statementCut h rfl (Or.inr ?_)
  rintro c ⟨hstop, hsemicolon, hline⟩ e next
  simp [statementCut, hstop, hsemicolon, hline]

theorem statements_space (t : List Char) : statements (' ' :: t) = statements t :=
  pieces_blank (by decide) rfl rfl

theorem statements_stop (t : List Char) : statements ('.' :: t) = statements t :=
  pieces_dropped rfl rfl

/-- a statement is the first of a text that starts with it, a space and a full stop -/
theorem statements_statement {gap : Bool} {w : List Char} (h : Woven IsStatementChar gap w) (hne : w ≠ [])
    (htrim : trim w = w) (t : List Char) : statements (w ++ ' ' :: '.' :: t) = w :: statements t := by
  have hspace : statementCut.Carries {} {} [' '] := carries_char (fun _ => rfl) fun _ => rfl
  have htrim' : trim (w ++ [' ']) = w := by rw [trim_append_blank (by decide), htrim]
  have hpiece := pieces_piece (c := '.') (t := t) ((carries_statement h).append hspace) htrim' hne rfl rfl
  rw [List.append_assoc] at hpiece
  exact hpiece

/-! ## Tokens -/

/-- a text that is the first token of every text in which a space or nothing comes after it -/
def IsToken (w : List Char) : Prop :=
  ∀ t, (∀ c ∈ t.head?, c = ' ') → tokens (w ++ t) = w :: tokens t

theorem tokens_space (t : List Char) : tokens (' ' :: t) = tokens t :=
  pieces_dropped rfl rfl

/-- a character that neither ends a token nor begins one -/
def IsWordChar (c : Char) : Prop :=
  isBlank c = false ∧ c ≠ '(' ∧ c ≠ ')'

/-- a text without blanks and parentheses, outside of quotes and braces, is a token -/
theorem isToken_word {gap : Bool} {w : List Char} (h : Woven IsWordChar gap w) (hne : w ≠ []) (htrim : trim w = w) :
    IsToken w := by
  have hcarries : tokenCut.Carries {} {} w := by
    refine cut_woven regular_tokenCut h rfl (Or.inr ?_)
    rintro c ⟨hblank, hopen, hclose⟩ e next
    simp [tokenCut, hblank, hopen, hclose]
  intro t ht
  cases t with
  | nil =>
    rw [List.append_nil]
    exact pieces_last hcarries htrim hne
  | cons c t =>
    obtain rfl : c = ' ' := ht c rfl
    rw [tokens_space]
    exact pieces_piece hcarries htrim hne rfl rfl

/-- parentheses around woven text make a token -/
theorem isToken_list {ok : Char → Prop} {gap : Bool} {w : List Char} (h : Woven ok gap w) :
    IsToken ('(' :: (w ++ [')'])) := by
  intro t _
  have hopen : tokenCut {} '(' (w ++ ')' :: t).head? = .before := rfl
  have hclose : cut tokenCut ⟨none, 1, 0, 0, 0⟩ (')' :: t) =
      ([')'], (cut tokenCut {} t).1 :: (cut tokenCut {} t).2) := rfl
  have hinside : cut tokenCut ⟨none, 1, 0, 0, 0⟩ (w ++ ')' :: t) =
      (w ++ [')'], (cut tokenCut {} t).1 :: (cut tokenCut {} t).2) := by
    rw [cut_woven regular_tokenCut h rfl (Or.inl rfl), hclose]
  have hcut : cut tokenCut {} ('(' :: (w ++ ')' :: t)) =
      ([], ('(' :: (w ++ [')'])) :: (cut tokenCut {} t).1 :: (cut tokenCut {} t).2) := by
    simp only [cut, hopen, Enclosure.feed, hinside]
  have htrim : trim ('(' :: (w ++ [')'])) = '(' :: (w ++ [')']) :=
    trim_eq_self (by simp; decide) (by simp [List.getLast?_cons]; decide)
  rw [List.cons_append, List.append_assoc, List.singleton_append, tokens, pieces_eq hcut]
  simp [tokens, pieces, htrim, show trim [] = [] from rfl]

end N3Rules.Text
