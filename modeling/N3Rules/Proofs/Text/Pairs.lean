/-
Which parts of a text are rules, by the places of their braces.

Braces pair up from the left: a group is a pair of partners that no other partners enclose, and a rule is two groups
with an arrow between them, the first of which is not the second of a rule itself. The definitions read places off
partners and levels alone; they do not follow a scan.

- `IsGroup`, `IsPair`: the groups of a text, and the pairs of groups that are rules;
- `IsLone`, `IsMalformed`: the two faults, a brace without partner and an arrow before no group;
- `afterArrow?_drop`, `skipStop_drop`: what the scan steps over is what `pastArrow?` and `pastStop` say;
- `IsGroup.idle`, `IsGroup.idle_left`: inside of a group nothing starts, nor at one that is the second of a rule.
-/
import N3Rules.Proofs.Text.Braces

namespace N3Rules.Text

/-! ## Groups, arrows and rules -/

/-- the place after the ASCII blanks at a place -/
def pastBlanks (s : List Char) (n : Nat) : Nat :=
  n + (s.drop n).findIdx (!isAsciiBlank ·)

/-- the place after an arrow and the blanks on its two sides -/
def pastArrow? (s : List Char) (n : Nat) : Option Nat :=
  if s[pastBlanks s n]? = some '=' ∧ s[pastBlanks s n + 1]? = some '>' then some (pastBlanks s (pastBlanks s n + 2))
  else none

/-- the place after blanks and the full stop behind them, if there is one -/
def pastStop (s : List Char) (n : Nat) : Nat :=
  if s[pastBlanks s n]? = some '.' then pastBlanks s n + 1 else pastBlanks s n

/-- the places of the two braces of a group -/
structure Span where
  left : Nat
  right : Nat
  deriving DecidableEq, Repr

/-- a brace and its partner, with no partners around them -/
structure IsGroup (s : List Char) (g : Span) : Prop where
  partners : Partners s g.left g.right
  outermost : ∀ a b, Partners s a b → ¬(a < g.left ∧ g.right < b)

/-- the group is the second of a rule: an arrow leads to it from a group that is not the second of a rule -/
def IsSecond (s : List Char) (h : Span) : Prop :=
  ∃ g : Span, ∃ _ : g.left < h.left,
    IsGroup s g ∧ IsGroup s h ∧ pastArrow? s (g.right + 1) = some h.left ∧ ¬IsSecond s g
termination_by h.left

/-- the groups of a rule -/
structure Pair where
  first : Span
  second : Span
  deriving DecidableEq, Repr

/-- an arrow leads from one group, which is not the second of a rule, to another -/
structure IsPair (s : List Char) (p : Pair) : Prop where
  first : IsGroup s p.first
  second : IsGroup s p.second
  arrow : pastArrow? s (p.first.right + 1) = some p.second.left
  free : ¬IsSecond s p.first

/-- a brace without partner -/
def IsLone (s : List Char) (n : Nat) : Prop :=
  (visible? s n = some '{' ∧ ∀ j, ¬Partners s n j) ∨ (visible? s n = some '}' ∧ ∀ i, ¬Partners s i n)

/-- a group that an arrow follows, and is not the second of a rule, where no brace opens after the arrow, at `k` -/
structure IsMalformed (s : List Char) (g : Span) (k : Nat) : Prop where
  group : IsGroup s g
  free : ¬IsSecond s g
  arrow : pastArrow? s (g.right + 1) = some k
  brace : s[k]? ≠ some '{'

/-- the insides of the groups of a rule -/
def Pair.text (s : List Char) (p : Pair) : RuleText :=
  ⟨slice s (p.first.left + 1) p.first.right, slice s (p.second.left + 1) p.second.right⟩

/-- the text from a place on, where a full stop takes the place of each rule, of the blanks behind the rule and of the
full stop that may end it -/
def blankOut (s : List Char) (n : Nat) : List Pair → List Char
  | [] => s.drop n
  | p :: pairs => slice s n p.first.left ++ " . ".toList ++ blankOut s (pastStop s (p.second.right + 1)) pairs

section Spacing

variable {s : List Char} {n m : Nat}

/-- the text between two places is made of blanks and the characters of arrows and full stops -/
def IsSpacing (s : List Char) (n m : Nat) : Prop :=
  ∀ i, n ≤ i → i < m → ∃ c, s[i]? = some c ∧ (isAsciiBlank c = true ∨ c ∈ ['=', '>', '.'])

theorem IsSpacing.append {k : Nat} (h : IsSpacing s n m) (h' : IsSpacing s m k) : IsSpacing s n k := by
  intro i hn hk
  by_cases hm : i < m
  · exact h i hn hm
  · exact h' i (by omega) hk

theorem isSpacing_char {c : Char} (h : s[n]? = some c) (hc : c ∈ ['=', '>', '.']) : IsSpacing s n (n + 1) := by
  intro i hn hm
  obtain rfl : i = n := by omega
  exact ⟨c, h, .inr hc⟩

theorem le_pastBlanks : n ≤ pastBlanks s n :=
  Nat.le_add_right _ _

theorem drop_pastBlanks (s : List Char) (n : Nat) : s.drop (pastBlanks s n) = skipBlanks (s.drop n) := by
  rw [pastBlanks, ← List.drop_drop, skipBlanks, List.dropWhile_eq_drop_findIdx_not]

theorem isSpacing_blanks : IsSpacing s n (pastBlanks s n) := by
  intro i hn hm
  obtain ⟨d, rfl⟩ := Nat.exists_eq_add_of_le hn
  have hd : d < (s.drop n).findIdx (!isAsciiBlank ·) := Nat.lt_of_add_lt_add_left hm
  have hlength : d < (s.drop n).length := hd.trans_le List.findIdx_le_length
  have hblank := List.not_of_lt_findIdx hd
  refine ⟨(s.drop n)[d], ?_, .inl (by simpa using hblank)⟩
  rw [← List.getElem?_drop, List.getElem?_eq_getElem hlength]

/-- the characters of spacing open and close nothing -/
theorem opensNothing_of_spacing {c : Char} (h : isAsciiBlank c = true ∨ c ∈ ['=', '>', '.']) :
    Quote.opening? c = none ∧ c ≠ '{' ∧ c ≠ '}' := by
  rcases h with hblank | hmem
  · simp only [isAsciiBlank, Bool.or_eq_true, beq_iff_eq] at hblank
    rcases hblank with (((rfl | rfl) | rfl) | rfl) | rfl <;> decide
  · simp only [List.mem_cons, List.not_mem_nil, or_false] at hmem
    rcases hmem with rfl | rfl | rfl <;> decide

/-- no quote opens in spacing -/
theorem IsSpacing.quoteAt (h : IsSpacing s n m) (hq : quoteAt s n = none) {i : Nat} (hn : n ≤ i) (hm : i ≤ m) :
    Text.quoteAt s i = none := by
  induction i, hn using Nat.le_induction with
  | base => exact hq
  | succ i hn ih =>
    obtain ⟨c, hc, hkind⟩ := h i hn hm
    rw [quoteAt_succ hc, ih (by omega)]
    exact (opensNothing_of_spacing hkind).1

/-- no brace is in spacing -/
theorem IsSpacing.visible? (h : IsSpacing s n m) {i : Nat} (hn : n ≤ i) (hm : i < m) :
    Text.visible? s i ≠ some '{' ∧ Text.visible? s i ≠ some '}' := by
  obtain ⟨c, hc, hkind⟩ := h i hn hm
  obtain ⟨-, ho, hclose⟩ := opensNothing_of_spacing hkind
  constructor
  · intro hv
    exact ho (Option.some.inj (hc.symm.trans (quoteAt_of_visible? hv).2))
  · intro hv
    exact hclose (Option.some.inj (hc.symm.trans (quoteAt_of_visible? hv).2))

/-- where an arrow is, and what follows it -/
theorem afterArrow?_drop (s : List Char) (n : Nat) : afterArrow? (s.drop n) = (pastArrow? s n).map (s.drop ·) := by
  rw [afterArrow?, ← drop_pastBlanks, pastArrow?]
  split
  · rename_i t ht
    have hlast := drop_succ_of_drop ht
    have hrest := drop_succ_of_drop hlast
    rw [if_pos ⟨getElem?_of_drop ht, getElem?_of_drop hlast⟩, Option.map_some, drop_pastBlanks, hrest]
  · rename_i hne
    rw [if_neg, Option.map_none]
    rintro ⟨hequals, hangle⟩
    exact hne _ ((drop_of_getElem? hequals).trans (congrArg _ (drop_of_getElem? hangle)))

theorem isSpacing_arrow {k : Nat} (h : pastArrow? s n = some k) : n ≤ k ∧ IsSpacing s n k := by
  rw [pastArrow?] at h
  split at h
  · rename_i harrow
    obtain rfl := Option.some.inj h
    have hequals := isSpacing_char harrow.1 (by simp)
    have hangle := isSpacing_char harrow.2 (by simp)
    exact ⟨(le_pastBlanks.trans (Nat.le_add_right _ 2)).trans le_pastBlanks,
      ((isSpacing_blanks.append hequals).append hangle).append isSpacing_blanks⟩
  · simp at h

theorem skipStop_drop (s : List Char) (n : Nat) : skipStop (s.drop n) = s.drop (pastStop s n) := by
  rw [skipStop, ← drop_pastBlanks, pastStop]
  split
  · rename_i t ht
    rw [if_pos (getElem?_of_drop ht), drop_succ_of_drop ht]
  · rename_i hne
    rw [if_neg]
    intro hstop
    exact hne _ (drop_of_getElem? hstop)

theorem isSpacing_stop : n ≤ pastStop s n ∧ IsSpacing s n (pastStop s n) := by
  rw [pastStop]
  split
  · rename_i hstop
    exact ⟨le_pastBlanks.trans (Nat.le_succ _), isSpacing_blanks.append (isSpacing_char hstop (by simp))⟩
  · exact ⟨le_pastBlanks, isSpacing_blanks⟩

end Spacing

/-! ## Groups and partners -/

section Groups

variable {s : List Char} {n m : Nat}

/-- one group starts at a place -/
theorem IsGroup.unique {g h : Span} (hg : IsGroup s g) (hh : IsGroup s h) (heq : g.left = h.left) : g = h := by
  obtain ⟨a, b⟩ := g
  obtain ⟨a', b'⟩ := h
  obtain rfl : a = a' := heq
  obtain rfl : b = b' := hg.partners.right_unique hh.partners
  rfl

/-- the second of a rule, by the rule -/
theorem isSecond_iff {h : Span} : IsSecond s h ↔ ∃ g, IsPair s ⟨g, h⟩ := by
  rw [IsSecond]
  constructor
  · rintro ⟨g, -, hg, hh, harrow, hfree⟩
    exact ⟨g, hg, hh, harrow, hfree⟩
  · rintro ⟨g, hg, hh, harrow, hfree⟩
    have hlt : g.left < h.left := hg.partners.lt.trans (isSpacing_arrow harrow).1
    exact ⟨g, hlt, hg, hh, harrow, hfree⟩

/-- the first group of a rule is before the second -/
theorem IsPair.lt {p : Pair} (hp : IsPair s p) : p.first.right < p.second.left :=
  (isSpacing_arrow hp.arrow).1

/-- one rule starts at a place -/
theorem IsPair.unique {p q : Pair} (hp : IsPair s p) (hq : IsPair s q) (heq : p.first.left = q.first.left) : p = q := by
  obtain ⟨g, h⟩ := p
  obtain ⟨g', h'⟩ := q
  obtain rfl : g = g' := hp.first.unique hq.first heq
  have harrow : h.left = h'.left := Option.some.inj (hp.arrow.symm.trans hq.arrow)
  obtain rfl : h = h' := hp.second.unique hq.second harrow
  rfl

/-- partners that begin before a place end before it -/
def Settled (s : List Char) (n : Nat) : Prop :=
  ∀ a b, Partners s a b → a < n → b < n

theorem Settled.isGroup (h : Settled s n) {j : Nat} (hj : Partners s n j) : IsGroup s ⟨n, j⟩ := by
  refine ⟨hj, fun a b hab hout => ?_⟩
  have hbn : b < n := h a b hab hout.1
  exact absurd (hj.lt.trans hout.2) hbn.not_gt

theorem Settled.skip (h : Settled s n) (hopen : ∀ i, n ≤ i → i < m → visible? s i ≠ some '{') (hnm : n ≤ m) :
    Settled s m := by
  intro a b hab ham
  by_cases han : a < n
  · exact (h a b hab han).trans_le hnm
  · exact absurd hab.opening (hopen a (by omega) ham)

theorem Settled.after (h : Settled s n) {j : Nat} (hj : Partners s n j) : Settled s (j + 1) := by
  intro a b hab haj
  have hlt := hj.lt
  rcases lt_trichotomy a n with han | rfl | hna
  · have := h a b hab han
    omega
  · rw [hab.right_unique hj]
    exact Nat.lt_succ_self _
  · have := hj.right_lt hab hna (by omega)
    omega

/-- no fault starts at the place -/
structure Faultless (s : List Char) (i : Nat) : Prop where
  partnered : ¬IsLone s i
  formed : ∀ g k, IsMalformed s g k → g.left ≠ i

/-- neither a fault nor a rule starts at the place -/
structure Idle (s : List Char) (i : Nat) : Prop extends Faultless s i where
  noPair : ∀ p, IsPair s p → p.first.left ≠ i

/-- a place is idle where no brace is visible -/
theorem idle_of_plain {i : Nat} (ho : visible? s i ≠ some '{') (hc : visible? s i ≠ some '}') : Idle s i where
  partnered := by
    rintro (⟨h, -⟩ | ⟨h, -⟩)
    · exact ho h
    · exact hc h
  formed := by
    rintro g k hg rfl
    exact ho hg.group.partners.opening
  noPair := by
    rintro p hp rfl
    exact ho hp.first.partners.opening

/-- a place inside of a group, or at its end, is idle -/
theorem IsGroup.idle {g : Span} (hg : IsGroup s g) {i : Nat} (hl : g.left < i) (hr : i ≤ g.right) : Idle s i where
  partnered := by
    obtain ⟨hopen, hclose⟩ := hg.partners.exists_partner hl hr
    rintro (⟨h, hnone⟩ | ⟨h, hnone⟩)
    · obtain ⟨b, hb⟩ := hopen h
      exact hnone b hb
    · obtain ⟨b, hb⟩ := hclose h
      exact hnone b hb
  formed := by
    rintro h k hh rfl
    exact hh.group.outermost _ _ hg.partners ⟨hl, hg.partners.right_lt hh.group.partners hl hr⟩
  noPair := by
    rintro p hp rfl
    exact hp.first.outermost _ _ hg.partners ⟨hl, hg.partners.right_lt hp.first.partners hl hr⟩

/-- the brace of a group has a partner -/
theorem IsGroup.not_isLone {g : Span} (hg : IsGroup s g) : ¬IsLone s g.left := by
  rintro (⟨-, hnone⟩ | ⟨hclose, -⟩)
  · exact hnone _ hg.partners
  · simp [hg.partners.opening] at hclose

/-- no rule and no fault starts at a group that no arrow follows, or that is the second of a rule -/
theorem IsGroup.idle_left {g : Span} (hg : IsGroup s g) (h : pastArrow? s (g.right + 1) = none ∨ IsSecond s g) :
    Idle s g.left where
  partnered := hg.not_isLone
  formed := by
    intro g' k hg' heq
    obtain rfl := hg'.group.unique hg heq
    rcases h with hnone | hsecond
    · exact absurd hg'.arrow (by simp [hnone])
    · exact hg'.free hsecond
  noPair := by
    rintro ⟨g', h'⟩ hp heq
    obtain rfl := hp.first.unique hg heq
    rcases h with hnone | hsecond
    · exact absurd hp.arrow (by simp [hnone])
    · exact hp.free hsecond

end Groups

end N3Rules.Text
