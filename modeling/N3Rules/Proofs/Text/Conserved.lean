/-
What cutting keeps of a text.

Cutting a text and trimming its pieces takes no character away but blanks and, from statements, the full stops and
semicolons that nothing encloses. It adds nothing, and leaves the characters in their order.

- `ink`: the characters of a text that are not blank;
- `traced`: the characters of a text, each with what encloses it, where boundaries are passed over;
- `spoken`: a text without the full stops and semicolons that nothing encloses;
- `ink_pieces`: trimming takes away no ink;
- `ink_conserved`: the ink of a text is that of its tokens; without full stops and semicolons, it is that of its
  statements; and there is some at both ends of each token and statement.
-/
import N3Rules.Proofs.Text.Pieces

namespace N3Rules.Text

/-! ## Ink -/

/-- the characters of a text that are not blank -/
def ink (s : List Char) : List Char :=
  s.filter fun c => !isBlank c

theorem ink_append (s t : List Char) : ink (s ++ t) = ink s ++ ink t :=
  List.filter_append s t

theorem ink_cons (c : Char) (s : List Char) : ink (c :: s) = ink [c] ++ ink s :=
  ink_append [c] s

theorem ink_of_isBlank {c : Char} (hc : isBlank c = true) : ink [c] = [] := by
  simp [ink, hc]

theorem ink_blanks {b : List Char} (hb : ∀ c ∈ b, isBlank c = true) : ink b = [] := by
  simpa [ink] using hb

theorem ink_trimStart (s : List Char) : ink (trimStart s) = ink s := by
  induction s with
  | nil => rfl
  | cons c s ih =>
    cases hc : isBlank c with
    | true =>
      rw [trimStart, List.dropWhile_cons_of_pos hc, ← trimStart, ih, ink_cons, ink_of_isBlank hc, List.nil_append]
    | false => rw [trimStart, List.dropWhile_cons_of_neg (by simp [hc])]

theorem ink_trimEnd (s : List Char) : ink (trimEnd s) = ink s := by
  obtain ⟨b, hsplit, hb⟩ := trimEnd_split s
  conv_rhs => rw [hsplit, ink_append, ink_blanks hb, List.append_nil]

theorem ink_trim (s : List Char) : ink (trim s) = ink s := by
  rw [trim, ink_trimEnd, ink_trimStart]

/-- trimming pieces and leaving out the empty ones takes away no ink -/
theorem ink_finished (ps : List (List Char)) : ink (finished ps).flatten = ink ps.flatten := by
  induction ps with
  | nil => rfl
  | cons p ps ih =>
    rw [List.flatten_cons, ink_append, ← ih, ← ink_trim p, finished_cons]
    split
    · rename_i hempty
      rw [List.isEmpty_iff.1 hempty]
      rfl
    · rw [List.flatten_cons, ink_append]

/-! ## Cuts -/

/-- the characters that a cut keeps, in the order of the pieces -/
def CutRule.left (rule : CutRule) (e : Enclosure) (s : List Char) : List Char :=
  ((cut rule e s).1 :: (cut rule e s).2).flatten

theorem ink_pieces (rule : CutRule) (s : List Char) : ink (pieces rule s).flatten = ink (rule.left {} s) := by
  rw [pieces_eq_finished, ink_finished]
  rfl

/-- a cut leaves out the characters it drops, and only these -/
theorem CutRule.left_cons (rule : CutRule) (e : Enclosure) (c : Char) (s : List Char) :
    rule.left e (c :: s) = (if rule e c s.head? = .drop then [] else [c]) ++ rule.left (e.feed c s.head?) s := by
  cases hcut : rule e c s.head? <;> simp [CutRule.left, cut, hcut]

/-- tokens are cut apart at blanks only -/
theorem ink_left_tokenCut (e : Enclosure) (s : List Char) : ink (tokenCut.left e s) = ink s := by
  induction s generalizing e with
  | nil => rfl
  | cons c s ih =>
    rw [CutRule.left_cons, ink_append, ih, ink_cons c s]
    split
    · rename_i hdrop
      have hblank : isBlank c = true := by
        simp only [tokenCut] at hdrop
        repeat' split at hdrop
        all_goals cases hdrop
        simp_all
      rw [ink_of_isBlank hblank]
      rfl
    · rfl

/-! ## Boundaries of statements -/

/-- whether a character that is enclosed so ends a statement -/
def Enclosure.isBoundary (e : Enclosure) (c : Char) : Bool :=
  e.isOutside && (c == '.' || c == ';' || c == '\n')

/-- whether a character that is enclosed so is a full stop or a semicolon between statements -/
def Enclosure.isStop (e : Enclosure) (c : Char) : Bool :=
  e.isOutside && (c == '.' || c == ';')

/-- the characters of a text, each with what encloses it; a boundary neither opens nor closes anything -/
def traced (e : Enclosure) : List Char → List (Enclosure × Char)
  | [] => []
  | c :: s => (e, c) :: traced (if e.isBoundary c then e else e.feed c s.head?) s

/-- a text without the full stops and semicolons that nothing encloses -/
def spoken (e : Enclosure) (s : List Char) : List Char :=
  ((traced e s).filter fun m => !m.1.isStop m.2).map Prod.snd

theorem spoken_cons (e : Enclosure) (c : Char) (s : List Char) : spoken e (c :: s) =
    (if e.isStop c then [] else [c]) ++ spoken (if e.isBoundary c then e else e.feed c s.head?) s := by
  rw [spoken, traced, List.filter_cons]
  cases e.isStop c <;> simp [spoken]

theorem statementCut_eq_drop_iff {e : Enclosure} {c : Char} {next : Option Char} :
    statementCut e c next = .drop ↔ e.isBoundary c = true := by
  unfold statementCut Enclosure.isBoundary
  split <;> simp_all

/-- passing a boundary over or not makes no difference -/
theorem Enclosure.feed_boundary {e : Enclosure} {c : Char} (h : e.isBoundary c = true) (next : Option Char) :
    e.feed c next = e := by
  have hdrop : statementCut e c next = .drop := statementCut_eq_drop_iff.2 h
  obtain ⟨rfl, hfeed⟩ := restarts_statementCut.drop hdrop
  exact hfeed

/-- of the boundaries, only line feeds are blank -/
theorem Enclosure.ink_boundary {e : Enclosure} {c : Char} (h : e.isBoundary c = true) :
    ink (if e.isStop c then [] else [c]) = [] := by
  cases hstop : e.isStop c with
  | true => rfl
  | false =>
    obtain rfl : c = '\n' := by
      simp only [Enclosure.isBoundary, Enclosure.isStop, Bool.and_eq_true, Bool.or_eq_true, beq_iff_eq,
        Bool.and_eq_false_iff, Bool.or_eq_false_iff, beq_eq_false_iff_ne] at h hstop
      grind
    rfl

theorem Enclosure.isStop_of_not_boundary {e : Enclosure} {c : Char} (h : ¬e.isBoundary c = true) :
    e.isStop c = false := by
  simp only [Enclosure.isBoundary, Enclosure.isStop] at h ⊢
  grind

/-- statements are cut apart at line feeds, and at full stops and semicolons that nothing encloses -/
theorem ink_left_statementCut (e : Enclosure) (s : List Char) :
    ink (statementCut.left e s) = ink (spoken e s) := by
  induction s generalizing e with
  | nil => rfl
  | cons c s ih =>
    rw [CutRule.left_cons, spoken_cons, ink_append, ink_append, ih]
    by_cases hboundary : e.isBoundary c = true
    · rw [if_pos (statementCut_eq_drop_iff.2 hboundary), if_pos hboundary, Enclosure.feed_boundary hboundary,
        Enclosure.ink_boundary hboundary]
      rfl
    · rw [if_neg (mt statementCut_eq_drop_iff.1 hboundary), if_neg hboundary,
        Enclosure.isStop_of_not_boundary hboundary]
      rfl

/-! ## Tokens and statements -/

theorem ne_nil_of_mem_pieces {rule : CutRule} {s p : List Char} (h : p ∈ pieces rule s) : p ≠ [] := by
  have hne := (List.mem_filter.1 h).2
  rintro rfl
  simp at hne

/-- pieces neither start nor end with a blank -/
theorem ends_of_mem_pieces {rule : CutRule} {s p : List Char} (h : p ∈ pieces rule s) :
    (∀ c ∈ p.head?, isBlank c = false) ∧ ∀ c ∈ p.getLast?, isBlank c = false := by
  rw [← trim_of_mem_pieces h]
  exact ⟨head?_trim p, getLast?_trim p⟩

/-- the tokens of a text have its ink, and its statements have its ink without the full stops and semicolons that
nothing encloses; none is empty, starts with a blank or ends with one -/
theorem ink_conserved (s : List Char) :
    ink (tokens s).flatten = ink s ∧ ink (statements s).flatten = ink (spoken {} s) ∧
      ∀ p, p ∈ tokens s ∨ p ∈ statements s →
        p ≠ [] ∧ (∀ c ∈ p.head?, isBlank c = false) ∧ ∀ c ∈ p.getLast?, isBlank c = false := by
  refine ⟨?_, ?_, ?_⟩
  · rw [tokens, ink_pieces, ink_left_tokenCut]
  · rw [statements, ink_pieces, ink_left_statementCut]
  · rintro p (hp | hp)
    · exact ⟨ne_nil_of_mem_pieces hp, ends_of_mem_pieces hp⟩
    · exact ⟨ne_nil_of_mem_pieces hp, ends_of_mem_pieces hp⟩

/-- separators in references, quotes and lists, in a row, and after a quote that stays open -/
theorem knotty_ink_conserved :
    statements "<a.b> \"c;\"  .; (d\n. e) < .\t'f. ".toList =
        ["<a.b> \"c;\"".toList, "(d\n. e) <".toList, "'f.".toList] ∧
      tokens "<a.b> \"c;\"  .; (d\n. e) < .\t'f. ".toList =
        ["<a.b>", "\"c;\"", ".;", "(d\n. e)", "<", ".", "'f."].map String.toList ∧
      ink (spoken {} "<a.b> \"c;\"  .; (d\n. e) < .\t'f. ".toList) = "<a.b>\"c;\"(d.e)<'f.".toList ∧
      ink "<a.b> \"c;\"(d\n. e) <'f.".toList = ink (spoken {} "<a.b> \"c;\"  .; (d\n. e) < .\t'f. ".toList) ∧
      ∀ c ∈ "'f.".toList.getLast?, isBlank c = false := by
  have hstatements : statements "<a.b> \"c;\"  .; (d\n. e) < .\t'f. ".toList =
      ["<a.b> \"c;\"".toList, "(d\n. e) <".toList, "'f.".toList] := by decide +kernel
  obtain ⟨-, hink, hends⟩ := ink_conserved "<a.b> \"c;\"  .; (d\n. e) < .\t'f. ".toList
  rw [hstatements] at hink
  exact ⟨hstatements, by decide +kernel, by decide +kernel, hink, (hends _ (.inr (by rw [hstatements]; simp))).2.2⟩

end N3Rules.Text
