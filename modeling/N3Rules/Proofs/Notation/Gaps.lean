/-
Layout and comments do not matter.

Between two words of a document stand blanks and comments, as many as one likes. Of such a gap the compact form of the text
keeps a single space, and nothing if it already ends in one or has not begun; and a document is read off the compact form.

- `Filler`, `IsGap`: blanks and comments, and those that begin with a blank;
- `squeeze_gap`: what is left of a gap does not hang on what is in it;
- `after_of_isBlank`: whether a `<` before a gap opens a reference does not hang on it either;
- `compact_gap`: so texts that differ in a gap have the same compact form;
- `gaps_alike`: and they are the same document, or refused for the same reason, at the same byte.

A gap has to begin with a blank: a comment right after a word is dropped without a trace, and the word would run on.
-/
import N3Rules.Document
import N3Rules.Proofs.Text.Compact

namespace N3Rules

namespace Text

/-- blanks and comments, each comment up to its line feed -/
inductive Filler : List Char → Prop where
  | nil : Filler []
  | blank {c : Char} {s : List Char} : isBlank c = true → Filler s → Filler (c :: s)
  | comment {body s : List Char} : '\n' ∉ body → Filler s → Filler ('#' :: (body ++ '\n' :: s))

/-- blanks and comments, of which a blank comes first -/
def IsGap (w : List Char) : Prop :=
  ∃ c s, w = c :: s ∧ isBlank c = true ∧ Filler s

theorem feed_blank {c : Char} (hc : isBlank c = true) (next : Option Char) : Layout.plain.feed c next = .plain := by
  have hne : ∀ d, isBlank d = false → c ≠ d := by
    rintro d hd rfl
    rw [hd] at hc
    cases hc
  have hopen : Quote.opening? c = none := by
    rw [Quote.opening?, if_neg]
    exact not_or.2 ⟨hne '"' (by decide), hne apostrophe (by decide)⟩
  simp [Layout.feed, hne '#' (by decide), hne '<' (by decide), hopen]

theorem write_blank {c : Char} (hc : isBlank c = true) (gap : Bool) :
    Layout.plain.write gap c = if gap then [] else [' '] := by
  have hne : c ≠ '#' := by
    rintro rfl
    exact absurd hc (by decide)
  rw [Layout.write, if_neg hne, if_pos hc]

/-- a blank is squeezed to a space, and to nothing after another -/
theorem squeeze_blank {c : Char} (hc : isBlank c = true) (gap : Bool) (t : List Char) :
    squeeze .plain gap (c :: t) = (if gap then [] else [' ']) ++ squeeze .plain true t := by
  have hgap : gapAfter gap (if gap then [] else [' ']) = true := by cases gap <;> rfl
  rw [squeeze_cons, feed_blank hc, write_blank hc, hgap]

/-- after a blank, a comment is dropped with its line feed -/
theorem squeeze_comment {body : List Char} (hbody : '\n' ∉ body) (t : List Char) :
    squeeze .plain true ('#' :: (body ++ '\n' :: t)) = squeeze .plain true t := by
  have hinside : squeeze .comment true (body ++ '\n' :: t) = squeeze .plain true t := by
    induction body with
    | nil => rfl
    | cons c body ih =>
      rw [List.mem_cons, not_or] at hbody
      have hfeed : ∀ next, Layout.comment.feed c next = .comment := by
        intro next
        rw [Layout.feed, if_neg (Ne.symm hbody.1)]
      have hwrite : Layout.comment.write true c = [] := by simp [Layout.write]
      rw [List.cons_append, squeeze_cons, hfeed, hwrite, gapAfter_nil, List.nil_append, ih hbody.2]
  rw [squeeze_cons, ← hinside]
  rfl

/-- nothing is left of filler after a blank -/
theorem squeeze_filler {w : List Char} (h : Filler w) (t : List Char) :
    squeeze .plain true (w ++ t) = squeeze .plain true t := by
  induction h with
  | nil => rfl
  | blank hc _ ih =>
    rw [List.cons_append, squeeze_blank hc, ih]
    rfl
  | comment hbody _ ih => rw [List.cons_append, List.append_assoc, List.cons_append, squeeze_comment hbody, ih]

/-- of a gap a single space is left, or nothing after another -/
theorem squeeze_gap {w : List Char} (h : IsGap w) (gap : Bool) (t : List Char) :
    squeeze .plain gap (w ++ t) = (if gap then [] else [' ']) ++ squeeze .plain true t := by
  obtain ⟨c, s, rfl, hc, hs⟩ := h
  rw [List.cons_append, squeeze_blank hc, squeeze_filler hs]

/-- it makes no difference which blank follows a text -/
theorem after_of_isBlank {b b' : Char} (hb : isBlank b = true) (hb' : isBlank b' = true) (l : Layout)
    (u : List Char) : l.after (some b) u = l.after (some b') u := by
  induction u generalizing l with
  | nil => rfl
  | cons c u ih =>
    have hopen : opensAngle (u.head?.or (some b)) = opensAngle (u.head?.or (some b')) := by
      cases u with
      | nil => simp [opensAngle, hb, hb']
      | cons d u => rfl
    have hfeed : l.feed c (u.head?.or (some b)) = l.feed c (u.head?.or (some b')) := by
      cases l with
      | plain => simp only [Layout.feed, hopen]
      | _ => rfl
    rw [Layout.after, Layout.after, hfeed, ih]

/-- texts that differ in a gap have the same compact form, if no quote, reference or comment is open before it -/
theorem compact_gap {u w w' : List Char} {b : Char} (hb : isBlank b = true)
    (hu : Layout.plain.after (some b) u = .plain) (hw : IsGap w) (hw' : IsGap w') (v : List Char) :
    compact (u ++ (w ++ v)) = compact (u ++ (w' ++ v)) := by
  have hsqueeze : ∀ {w : List Char}, IsGap w → squeeze .plain true (u ++ (w ++ v)) =
      squeeze .plain true u ++ ((if gapAfter true (squeeze .plain true u) then [] else [' ']) ++
        squeeze .plain true v) := by
    intro w hw
    have hplain : Layout.plain.after (w ++ v).head? u = .plain := by
      obtain ⟨c, s, rfl, hc, -⟩ := hw
      rw [List.cons_append, List.head?_cons, after_of_isBlank hc hb, hu]
    rw [squeeze_append, hplain, squeeze_gap hw]
  rw [compact, compact, hsqueeze hw, hsqueeze hw']

end Text

open Text

/-- **Layout and comments do not matter.** Where no quote, reference or comment is open, any gap may stand for any other: the
two texts are the same document, or they are refused for the same reason. -/
theorem gaps_alike {u w w' v : String} {b : Char} (hb : isBlank b = true)
    (hu : Layout.plain.after (some b) u.toList = .plain) (hw : IsGap w.toList) (hw' : IsGap w'.toList) :
    Document.ofText (u ++ w ++ v) = Document.ofText (u ++ w' ++ v) := by
  have hlist : ∀ w : String, (u ++ w ++ v).toList = u.toList ++ (w.toList ++ v.toList) := by
    intro w
    rw [String.toList_append, String.toList_append, List.append_assoc]
  unfold Document.ofText
  rw [hlist, hlist, compact_gap hb hu hw hw']

/-- a gap with comments that look like a quote, a rule and a reference, and blanks of all kinds -/
def knottyGap : String :=
  "\u2003# it's \"\x7b\n\t#\x7d => <\n# \u00a0#\n\u0085"

/-- a `<` with a gap after it is a name, whatever is in the gap; and a brace without a partner is found at byte 8 -/
theorem knotty_gap_alike :
    isBlank '\t' = true ∧ Layout.plain.after (some '\t') "<a> <".toList = .plain ∧
      Layout.plain.after (some '\t') "<a> <b>".toList = .plain ∧ IsGap knottyGap.toList ∧ IsGap " ".toList ∧
      Document.ofText ("<a> <" ++ knottyGap ++ "'#' .") = Document.ofText ("<a> <" ++ " " ++ "'#' .") ∧
      (Document.ofText ("<a> <" ++ knottyGap ++ "'#' .")).map (·.triples.length) = .ok 1 ∧
      (Document.ofText ("<a> <b>" ++ knottyGap ++ "\x7d .")).map (·.triples.length) = .error (.unbalancedBraces 8) := by
  have hblank : isBlank '\t' = true := by decide
  have hname : Layout.plain.after (some '\t') "<a> <".toList = .plain := by decide
  have hreference : Layout.plain.after (some '\t') "<a> <b>".toList = .plain := by decide
  have hgap : IsGap knottyGap.toList := by
    have hlast : Filler ['\u0085'] := .blank (by decide) .nil
    have hthird : Filler ('#' :: (" \u00a0#".toList ++ '\n' :: ['\u0085'])) := .comment (by decide) hlast
    have hsecond : Filler ('#' :: ("\x7d => <".toList ++ '\n' :: _)) := .comment (by decide) hthird
    have hfirst : Filler ('#' :: (" it's \"\x7b".toList ++ '\n' :: '\t' :: _)) :=
      .comment (by decide) (.blank (by decide) hsecond)
    exact ⟨'\u2003', _, by decide +kernel, by decide, hfirst⟩
  have hspace : IsGap " ".toList := ⟨' ', [], rfl, by decide, .nil⟩
  have hsame := gaps_alike (v := "'#' .") hblank hname hgap hspace
  refine ⟨hblank, hname, hreference, hgap, hspace, hsame, ?_, ?_⟩
  · rw [hsame]
    decide +kernel
  · rw [gaps_alike hblank hreference hgap hspace]
    decide +kernel

end N3Rules
