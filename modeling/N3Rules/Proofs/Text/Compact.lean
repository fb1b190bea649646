/-
The compact form of woven text is the text itself.

- `IsCompact`: a text that squeezing leaves as it is, whatever comes after it;
- `isCompact_woven`: woven text is compact;
- `squeeze_group`: what stands between two braces is squeezed on its own, if it leaves nothing open;
- `compact_lines`: compact lines that end in a full stop are joined by spaces.
-/
import N3Rules.Text.Layout
import N3Rules.Proofs.Text.Woven

namespace N3Rules.Text

theorem gapAfter_nil (gap : Bool) : gapAfter gap [] = gap := rfl

theorem gapAfter_cons (gap : Bool) (c : Char) (s : List Char) : gapAfter gap (c :: s) = gapAfter (c == ' ') s := by
  cases h : s.getLast? with
  | none => simp_all [gapAfter]
  | some d => simp [gapAfter, List.getLast?_cons, h]

theorem gapAfter_append (gap : Bool) (u v : List Char) : gapAfter gap (u ++ v) = gapAfter (gapAfter gap u) v := by
  induction u generalizing gap with
  | nil => rfl
  | cons c u ih => rw [List.cons_append, gapAfter_cons, gapAfter_cons, ih]

theorem squeeze_cons (l : Layout) (gap : Bool) (c : Char) (t : List Char) :
    squeeze l gap (c :: t) =
      l.write gap c ++ squeeze (l.feed c t.head?) (gapAfter gap (l.write gap c)) t := rfl

/-- a text that squeezing leaves as it is, whatever comes after it; `gap` says that it comes after a space -/
def IsCompact (gap : Bool) (w : List Char) : Prop :=
  ∀ t, squeeze .plain gap (w ++ t) = w ++ squeeze .plain (gapAfter gap w) t

theorem isCompact_nil (gap : Bool) : IsCompact gap [] := by
  intro t
  rfl

theorem IsCompact.append {gap gap' : Bool} {u v : List Char} (hu : IsCompact gap u) (hgap : gapAfter gap u = gap')
    (hv : IsCompact gap' v) : IsCompact gap (u ++ v) := by
  intro t
  rw [List.append_assoc, hu, hgap, hv, gapAfter_append, hgap, List.append_assoc]

/-- a single space is compact -/
theorem isCompact_space : IsCompact false [' '] := by
  intro t
  have hfeed : ∀ next, Layout.plain.feed ' ' next = .plain := by simp [Layout.feed, Quote.opening?, apostrophe]
  rw [List.singleton_append, squeeze_cons, hfeed]
  rfl

theorem write_plain {c : Char} (hblank : isBlank c = false) (hc : c ≠ '#') (gap : Bool) :
    Layout.plain.write gap c = [c] := by
  simp [Layout.write, hblank, hc]

/-- a character that opens nothing and is not blank is compact -/
theorem isCompact_char {c : Char} (hblank : isBlank c = false) (hc : c ≠ '#' ∧ c ≠ '<')
    (hq : Quote.opening? c = none) (gap : Bool) : IsCompact gap [c] := by
  intro t
  rw [List.singleton_append, squeeze_cons, write_plain hblank hc.1]
  simp [Layout.feed, hc, hq]

theorem squeeze_quoted {q : Quote} {s : List Char} (h : q.ClosedBy s) (gap : Bool) (t : List Char) :
    squeeze (.quoted q) gap (s ++ t) = s ++ squeeze .plain (gapAfter gap s) t := by
  induction h generalizing gap with
  | last hc => simp [squeeze_cons, Layout.write, Layout.feed, hc]
  | next hc _ ih => simp [squeeze_cons, Layout.write, Layout.feed, hc, gapAfter_cons, gapAfter_nil, ih]

theorem isCompact_quoted {s : List Char} (h : Quote.ClosedBy ⟨'"', false⟩ s) (gap : Bool) :
    IsCompact gap ('"' :: s) := by
  intro t
  have hfeed : ∀ next, Layout.plain.feed '"' next = .quoted ⟨'"', false⟩ := by simp [Layout.feed, Quote.opening?]
  rw [List.cons_append, squeeze_cons, write_plain (by decide) (by decide), hfeed, squeeze_quoted h, gapAfter_cons,
    gapAfter_nil, gapAfter_cons]
  rfl

theorem squeeze_referenceChars {s : List Char} (hs : '>' ∉ s) (gap : Bool) (t : List Char) :
    squeeze .iri gap (s ++ '>' :: t) = s ++ '>' :: squeeze .plain false t := by
  induction s generalizing gap with
  | nil => simp [squeeze_cons, Layout.write, Layout.feed, gapAfter_cons, gapAfter_nil]
  | cons c s ih =>
    rw [List.mem_cons, not_or] at hs
    simp [squeeze_cons, Layout.write, Layout.feed, Ne.symm hs.1, ih hs.2]

theorem gapAfter_reference (gap : Bool) (s : List Char) : gapAfter gap ('<' :: (s ++ ['>'])) = false := by
  rw [gapAfter_cons, gapAfter_append]
  rfl

/-- a reference is compact, whatever stands in it -/
theorem isCompact_reference {s : List Char} (hopen : ∀ t, opensAngle (s ++ '>' :: t).head? = true) (hs : '>' ∉ s)
    (gap : Bool) : IsCompact gap ('<' :: (s ++ ['>'])) := by
  intro t
  have hfeed : Layout.plain.feed '<' (s ++ '>' :: t).head? = .iri := by
    simp only [Layout.feed, hopen]
    rfl
  rw [gapAfter_reference, List.cons_append, List.append_assoc, List.singleton_append, squeeze_cons,
    write_plain (by decide) (by decide), hfeed, squeeze_referenceChars hs]
  simp

theorem gapAfter_quoted {q : Quote} {s : List Char} (h : q.ClosedBy s) (hq : q.mark = '"') (gap : Bool) :
    gapAfter gap s = false := by
  induction h generalizing gap with
  | last hc =>
    rw [gapAfter_cons, (Quote.eq_mark_of_feed hc).trans hq]
    rfl
  | next hc _ ih => rw [gapAfter_cons, ih ((Quote.mark_of_feed hc).trans hq)]

/-- woven text is compact -/
theorem isCompact_woven {ok : Char → Prop} {gap : Bool} {w : List Char} (h : Woven ok gap w) : IsCompact gap w := by
  have hmark : ∀ c ∈ ['(', ')', '{', '}'], ∀ gap, IsCompact gap [c] ∧ gapAfter gap [c] = false := by
    intro c hc gap
    simp only [List.mem_cons, List.not_mem_nil, or_false] at hc
    rcases hc with rfl | rfl | rfl | rfl <;> exact ⟨isCompact_char (by decide) (by decide) (by decide) gap, rfl⟩
  -- one pair of brackets around compact text, with compact text after it
  have hpair : ∀ {o c : Char} {s w : List Char} {gap : Bool}, o ∈ ['(', ')', '{', '}'] → c ∈ ['(', ')', '{', '}'] →
      IsCompact false s → IsCompact false w → IsCompact gap (o :: (s ++ c :: w)) := by
    intro o c s w gap ho hc hs hw
    have hclose := (hmark c hc (gapAfter false s)).1.append (hmark c hc _).2 hw
    exact (hmark o ho gap).1.append (hmark o ho gap).2 (hs.append rfl hclose)
  induction h with
  | nil => exact isCompact_nil _
  | space _ _ ih => exact isCompact_space.append rfl ih
  | @plain ok gap c w hc _ _ ih =>
    have hr := isReferenceChar_of_isPlain hc
    have hne : ∀ d, isPlain d = false → c ≠ d := by
      rintro d hd rfl
      simp [hc] at hd
    have hgap : gapAfter gap [c] = false := by
      simp [gapAfter, hne ' ' (by decide)]
    exact (isCompact_char (isReferenceChar_iff.1 hr).1 ⟨hne '#' (by decide), hne '<' (by decide)⟩
      (opening?_eq_none_of_isReferenceChar hr) gap).append hgap ih
  | quoted hs _ ih =>
    refine (isCompact_quoted hs _).append ?_ ih
    rw [gapAfter_cons, gapAfter_quoted hs rfl]
  | reference hs _ ih =>
    have href := isCompact_reference (opensAngle_of_isReference hs) (not_mem_of_isReference hs)
    simpa using (href _).append (gapAfter_reference _ _) ih
  | parens _ _ _ _ ihs ih => exact hpair (by simp) (by simp) ihs ih
  | braces _ _ ihs ih => exact hpair (by simp) (by simp) ihs ih

/-! ## Groups -/

/-- the layout after a text that `next` follows -/
def Layout.after (l : Layout) (next : Option Char) : List Char → Layout
  | [] => l
  | c :: s => (l.feed c (s.head?.or next)).after next s

/-- a text is squeezed part by part -/
theorem squeeze_append (l : Layout) (gap : Bool) (s u : List Char) :
    squeeze l gap (s ++ u) = squeeze l gap s ++ squeeze (l.after u.head? s) (gapAfter gap (squeeze l gap s)) u := by
  induction s generalizing l gap with
  | nil => rfl
  | cons c s ih =>
    -- what is written of the rest goes by the next character, which is the same unless there is no rest
    have hnext : ∀ gap, squeeze (l.feed c (s.head?.or u.head?)) gap s = squeeze (l.feed c s.head?) gap s := by
      intro gap
      cases s <;> rfl
    rw [List.cons_append, squeeze_cons, List.head?_append, ih, hnext, squeeze_cons, Layout.after, gapAfter_append,
      List.append_assoc]

/-- what stands between two braces is squeezed on its own, if it leaves no quote, reference or comment open -/
theorem squeeze_group {s : List Char} (h : Layout.plain.after (some '}') s = .plain) (gap : Bool) (t : List Char) :
    squeeze .plain gap ('{' :: (s ++ '}' :: t)) = '{' :: (squeeze .plain false s ++ '}' :: squeeze .plain false t) := by
  have hmark : ∀ c ∈ ['{', '}'], ∀ gap t, squeeze .plain gap (c :: t) = c :: squeeze .plain false t := by
    intro c hc gap t
    simp only [List.mem_cons, List.not_mem_nil, or_false] at hc
    rcases hc with rfl | rfl <;> exact isCompact_char (by decide) (by decide) (by decide) gap t
  rw [hmark '{' (by simp), squeeze_append, List.head?_cons, h, hmark '}' (by simp)]

/-! ## Lines -/

/-- a compact line that ends in a full stop -/
structure IsLine (l : List Char) : Prop where
  compact : IsCompact true l
  last : l.getLast? = some '.'

/-- lines with a separator in front of each -/
def following (c : Char) (lines : List (List Char)) : List Char :=
  lines.flatMap (c :: ·)

theorem intercalate_cons (c : Char) (l : List Char) (lines : List (List Char)) :
    [c].intercalate (l :: lines) = l ++ following c lines := by
  induction lines generalizing l with
  | nil => simp [following]
  | cons m lines ih =>
    rw [List.intercalate_cons_cons, ih]
    simp [following]

theorem gapAfter_line {l : List Char} (hl : IsLine l) (gap : Bool) : gapAfter gap l = false := by
  simp [gapAfter, hl.last]

theorem squeeze_following {lines : List (List Char)} (h : ∀ l ∈ lines, IsLine l) :
    squeeze .plain false (following '\n' lines) = following ' ' lines := by
  induction lines with
  | nil => rfl
  | cons l lines ih =>
    have hl := h l List.mem_cons_self
    have hfeed : ∀ next, Layout.plain.feed '\n' next = .plain := by
      simp [Layout.feed, Quote.opening?, apostrophe]
    have hwrite : Layout.plain.write false '\n' = [' '] := by decide
    have hgap : gapAfter false [' '] = true := rfl
    calc squeeze .plain false (following '\n' (l :: lines))
        = squeeze .plain false ('\n' :: (l ++ following '\n' lines)) := rfl
      _ = ' ' :: squeeze .plain true (l ++ following '\n' lines) := by
          rw [squeeze_cons, hwrite, hfeed, hgap, List.singleton_append]
      _ = ' ' :: (l ++ following ' ' lines) := by
          rw [hl.compact, gapAfter_line hl, ih fun m hm => h m (List.mem_cons_of_mem l hm)]

/-- the last line ends in a full stop, and what comes before does not matter -/
theorem getLast?_following {c : Char} {lines : List (List Char)} (h : ∀ l ∈ lines, IsLine l) (hne : lines ≠ []) :
    (following c lines).getLast? = some '.' := by
  obtain ⟨init, l, rfl⟩ := List.eq_nil_or_concat lines |>.resolve_left hne
  have hl := (h l (by simp)).last
  simp [following, List.getLast?_append, List.getLast?_cons, hl]

/-- the compact form of lines is the lines with a space between them -/
theorem compact_lines {lines : List (List Char)} (h : ∀ l ∈ lines, IsLine l) :
    compact (['\n'].intercalate lines) = [' '].intercalate lines := by
  cases lines with
  | nil => rfl
  | cons l lines =>
    have hl := h l List.mem_cons_self
    have hlines : ∀ m ∈ lines, IsLine m := fun m hm => h m (List.mem_cons_of_mem l hm)
    rw [intercalate_cons, intercalate_cons, compact, hl.compact, gapAfter_line hl,
      squeeze_following hlines]
    refine trimEnd_eq_self ?_
    intro c hc
    have hdot : c = '.' := by
      rw [List.getLast?_append] at hc
      by_cases hnil : lines = []
      · simpa [hnil, following, hl.last] using hc.symm
      · simpa [getLast?_following hlines hnil] using hc.symm
    rw [hdot]
    decide

end N3Rules.Text
