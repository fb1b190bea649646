/-
How the scans for brackets pass over woven text.

- `closeGroup_woven`: no brace is closed in it that is not opened in it;
- `takeRulesFrom_woven`: there are no rules in it, when no arrow follows it;
- `takeRulesFrom_rule`: two groups of woven text with an arrow between them are a rule;
- `inside?_woven`: the brackets around it close at the end, and not before.
-/
import N3Rules.Term.Shape
import N3Rules.Text.RuleText
import N3Rules.Proofs.Text.Woven

namespace N3Rules.Text

/-! ## The end of a group -/

/-- the characters of a reference open and close nothing -/
theorem opensNothing {c : Char} (hc : isReferenceChar c = true) :
    Quote.opening? c = none ∧ c ≠ '{' ∧ c ≠ '}' := by
  have hmem := (isReferenceChar_iff.1 hc).2
  simp only [enclosers, List.mem_cons, not_or] at hmem
  exact ⟨opening?_eq_none_of_isReferenceChar hc, by simp [hmem], by simp [hmem]⟩

/-- looking for the end of a group goes over a text, whatever comes after it -/
def IsClosed (w : List Char) : Prop :=
  ∀ d t, closeGroup none d (w ++ t) = (closeGroup none d t).map fun g => (w ++ g.1, g.2)

theorem isClosed_nil : IsClosed [] := by
  intro d t
  simp

theorem IsClosed.append {u v : List Char} (hu : IsClosed u) (hv : IsClosed v) : IsClosed (u ++ v) := by
  intro d t
  rw [List.append_assoc, hu, hv, Option.map_map]
  simp [Function.comp_def]

theorem isClosed_char {c : Char} (hq : Quote.opening? c = none) (ho : c ≠ '{') (hc : c ≠ '}') : IsClosed [c] := by
  intro d t
  simp [closeGroup, hq, hc]

theorem isClosed_row {s : List Char} (hs : s.all isReferenceChar = true) : IsClosed s := by
  induction s with
  | nil => exact isClosed_nil
  | cons c s ih =>
    simp only [List.all_cons, Bool.and_eq_true] at hs
    obtain ⟨hq, ho, hc⟩ := opensNothing hs.1
    exact (isClosed_char hq ho hc).append (ih hs.2)

theorem closeGroup_quoted {q : Quote} {s : List Char} (h : q.ClosedBy s) (d : Nat) (t : List Char) :
    closeGroup (some q) d (s ++ t) = (closeGroup none d t).map fun g => (s ++ g.1, g.2) := by
  induction h with
  | last hc => simp [closeGroup, hc]
  | next hc _ ih =>
    rw [List.cons_append, closeGroup, hc, ih, Option.map_map]
    rfl

theorem isClosed_quoted {s : List Char} (hs : Quote.ClosedBy ⟨'"', false⟩ s) : IsClosed ('"' :: s) := by
  intro d t
  have hopen : Quote.opening? '"' = some ⟨'"', false⟩ := rfl
  simp [closeGroup, hopen, closeGroup_quoted hs, Function.comp_def]

theorem isClosed_braces {s : List Char} (hs : IsClosed s) : IsClosed ('{' :: (s ++ ['}'])) := by
  intro d t
  simp [closeGroup, hs (d + 1), Function.comp_def]

/-- every brace that is opened in woven text is closed in it -/
theorem isClosed_of_woven {ok : Char → Prop} {gap : Bool} {w : List Char} (h : Woven ok gap w) : IsClosed w := by
  induction h with
  | nil => exact isClosed_nil
  | space _ _ ih => exact (isClosed_char (by decide) (by decide) (by decide)).append ih
  | @plain ok gap c w hc _ _ ih =>
    have hrow : [c].all isReferenceChar = true := by simp [isReferenceChar_of_isPlain hc]
    exact (isClosed_row hrow).append ih
  | quoted hs _ ih => exact (isClosed_quoted hs).append ih
  | reference hs _ ih =>
    simp only [isReference, Bool.and_eq_true] at hs
    have hmark : IsClosed ['<'] := isClosed_char (by decide) (by decide) (by decide)
    have hmark' : IsClosed ['>'] := isClosed_char (by decide) (by decide) (by decide)
    exact hmark.append ((isClosed_row hs.1).append (hmark'.append ih))
  | parens _ _ _ _ ihs ih =>
    have hmark : IsClosed ['('] := isClosed_char (by decide) (by decide) (by decide)
    have hmark' : IsClosed [')'] := isClosed_char (by decide) (by decide) (by decide)
    exact hmark.append (ihs.append (hmark'.append ih))
  | braces _ _ ihs ih => simpa using (isClosed_braces ihs).append ih

/-- the group that woven text is the inside of -/
theorem closeGroup_woven {ok : Char → Prop} {gap : Bool} {w : List Char} (h : Woven ok gap w) (t : List Char) :
    closeGroup none 0 (w ++ '}' :: t) = some (w, t) := by
  rw [isClosed_of_woven h 0]
  simp [closeGroup]

/-- whatever comes after a group, its inside is the same -/
theorem closeGroup_append {quote : Option Quote} {depth : Nat} {s inside after : List Char}
    (h : closeGroup quote depth s = some (inside, after)) (t : List Char) :
    closeGroup quote depth (s ++ t) = some (inside, after ++ t) := by
  induction s generalizing quote depth inside with
  | nil => simp [closeGroup] at h
  | cons c s ih =>
    rw [List.cons_append]
    simp only [closeGroup] at h ⊢
    split at h
    all_goals
      simp only [Option.map_eq_some_iff, Option.some.injEq, Prod.mk.injEq] at h ⊢
      grind

/-- how the inside of a group goes on after its first character -/
theorem closeGroup_cons {quote : Option Quote} {depth : Nat} {c : Char} {s inside after : List Char}
    (h : closeGroup quote depth (c :: s) = some (c :: inside, after)) :
    (∃ q, quote = some q ∧ closeGroup (q.feed c) depth s = some (inside, after)) ∨
    (quote = none ∧ c = '{' ∧ closeGroup none (depth + 1) s = some (inside, after)) ∨
    (quote = none ∧ c = '}' ∧ ∃ d, depth = d + 1 ∧ closeGroup none d s = some (inside, after)) ∨
    (quote = none ∧ c ≠ '{' ∧ c ≠ '}' ∧ closeGroup (Quote.opening? c) depth s = some (inside, after)) := by
  simp only [closeGroup] at h
  split at h
  all_goals
    simp only [Option.map_eq_some_iff, Option.some.injEq, Prod.mk.injEq, List.cons.injEq, reduceCtorEq, false_and] at h
  all_goals
    obtain ⟨⟨i, a⟩, hrest, ⟨-, rfl⟩, rfl⟩ := h
  · exact .inl ⟨_, rfl, hrest⟩
  · exact .inr (.inl ⟨rfl, rfl, hrest⟩)
  · exact .inr (.inr (.inl ⟨rfl, rfl, _, rfl, hrest⟩))
  · refine .inr (.inr (.inr ⟨rfl, ?_, ?_, hrest⟩))
    · simp_all
    · rintro rfl
      cases depth <;> simp_all

/-- the end of a group is not in a quote, nor in a group inside -/
theorem closeGroup_end {quote : Option Quote} {depth : Nat} (h : closeGroup quote depth ['}'] = some ([], [])) :
    quote = none ∧ depth = 0 := by
  cases quote with
  | some q => simp [closeGroup] at h
  | none => cases depth <;> simp_all [closeGroup]

/-! ## Rules -/

/-- a text in front of what remains -/
def Extract.behind (w : List Char) (e : Extract) : Extract :=
  { e with remainder := w ++ e.remainder }

theorem map_behind {ε : Type} (u v : List Char) (x : Except ε Extract) :
    (x.map (Extract.behind v)).map (Extract.behind u) = x.map (Extract.behind (u ++ v)) := by
  cases x with
  | error _ => rfl
  | ok e => simp [Except.map, Extract.behind]

theorem map_behind_nil {ε : Type} (x : Except ε Extract) : x.map (Extract.behind []) = x := by
  cases x <;> rfl

theorem takeRulesFrom_char {quote : Option Quote} {c : Char} (h : quote = none → c ≠ '{' ∧ c ≠ '}') (t : List Char) :
    takeRulesFrom quote (c :: t) =
      (takeRulesFrom ((quote.map (·.feed c)).getD (Quote.opening? c)) t).map (.behind [c]) := by
  rw [takeRulesFrom]
  cases quote with
  | none =>
    simp only [h rfl, and_false, if_false]
    rfl
  | some q =>
    simp only [Option.isNone_some, Bool.false_eq_true, false_and, if_false]
    rfl

theorem takeRulesFrom_quoted {q : Quote} {s : List Char} (h : q.ClosedBy s) (t : List Char) :
    takeRulesFrom (some q) (s ++ t) = (takeRulesFrom none t).map (.behind s) := by
  induction h with
  | last hc => simp [takeRulesFrom_char, hc]
  | next hc _ ih => simp [takeRulesFrom_char, hc, ih, map_behind]

/-- nothing is taken out of a row of characters that open and close nothing -/
theorem takeRulesFrom_row {s : List Char} (hs : ∀ c ∈ s, Quote.opening? c = none ∧ c ≠ '{' ∧ c ≠ '}') (t : List Char) :
    takeRulesFrom none (s ++ t) = (takeRulesFrom none t).map (.behind s) := by
  induction s with
  | nil => exact (map_behind_nil _).symm
  | cons c s ih =>
    obtain ⟨hq, hc⟩ := hs c List.mem_cons_self
    rw [List.cons_append, takeRulesFrom_char fun _ => hc]
    simp only [Option.map_none, Option.getD_none, hq]
    rw [ih fun d hd => hs d (List.mem_cons_of_mem c hd), map_behind]
    rfl

theorem takeRulesFrom_space (t : List Char) :
    takeRulesFrom none (' ' :: t) = (takeRulesFrom none t).map (.behind [' ']) :=
  takeRulesFrom_row (List.forall_mem_singleton.2 (by decide)) t

theorem takeRulesFrom_nil : takeRulesFrom none [] = .ok {} := by
  rw [takeRulesFrom]

/-- nothing is taken out of a text without braces -/
theorem takeRulesFrom_braceless {quote : Option Quote} {s : List Char} (hs : ∀ c ∈ s, c ≠ '{' ∧ c ≠ '}') :
    takeRulesFrom quote s = .ok ⟨s, []⟩ := by
  induction s generalizing quote with
  | nil => rw [takeRulesFrom]
  | cons c s ih =>
    rw [takeRulesFrom_char fun _ => hs c List.mem_cons_self, ih fun d hd => hs d (List.mem_cons_of_mem c hd)]
    rfl

/-- a text that starts with a brace: the rule or the fault that begins there, or a group that stays where it is -/
theorem takeRulesFrom_opening (t : List Char) : takeRulesFrom none ('{' :: t) =
    match closeGroup none 0 t with
    | none => .error (.unbalanced ('{' :: t))
    | some (inside, after) =>
      match afterArrow? after with
      | none => (takeRulesFrom none after).map (.behind ('{' :: (inside ++ ['}'])))
      | some ('{' :: u) =>
        match closeGroup none 0 u with
        | none => .error (.unbalanced ('{' :: u))
        | some (consequent, rest) =>
          (takeRulesFrom none (skipStop rest)).map fun e =>
            ⟨" . ".toList ++ e.remainder, ⟨inside, consequent⟩ :: e.rules⟩
      | some place => .error (.noConsequent place) := by
  have hstay : ∀ inside, (fun e : Extract => ({ e with remainder := '{' :: inside ++ '}' :: e.remainder } : Extract)) =
      .behind ('{' :: (inside ++ ['}'])) := by
    intro inside
    funext e
    simp [Extract.behind]
  rw [takeRulesFrom, if_neg (by simp), if_pos (by simp)]
  split
  · rename_i hgroup
    rw [hgroup]
  · rename_i hgroup
    rw [hgroup]
    split
    · rename_i harrow
      simp only [harrow, hstay]
    · rename_i harrow
      simp only [harrow]
      split <;> simp_all
    · rename_i harrow
      simp only [harrow]

/-- a group that no arrow follows stays where it is -/
theorem takeRulesFrom_group {inside after t : List Char} (hinside : closeGroup none 0 t = some (inside, after))
    (ha : afterArrow? after = none) : takeRulesFrom none ('{' :: t) =
      (takeRulesFrom none after).map (.behind ('{' :: (inside ++ ['}']))) := by
  simp [takeRulesFrom_opening, hinside, ha]

/-- two groups with an arrow between them are a rule -/
theorem takeRulesFrom_rule {antecedent consequent after u rest t : List Char}
    (hantecedent : closeGroup none 0 t = some (antecedent, after)) (ha : afterArrow? after = some ('{' :: u))
    (hconsequent : closeGroup none 0 u = some (consequent, rest)) : takeRulesFrom none ('{' :: t) =
      (takeRulesFrom none (skipStop rest)).map fun e =>
        ⟨" . ".toList ++ e.remainder, ⟨antecedent, consequent⟩ :: e.rules⟩ := by
  simp [takeRulesFrom_opening, hantecedent, ha, hconsequent]

/-- no arrow comes next, nor its second half -/
def NoArrow (t : List Char) : Prop :=
  afterArrow? t = none ∧ t.head? ≠ some '>'

theorem noArrow_cons {c : Char} (hblank : isAsciiBlank c = false) (hc : c ≠ '=' ∧ c ≠ '>') (t : List Char) :
    NoArrow (c :: t) := by
  simp [NoArrow, afterArrow?, skipBlanks, hblank, hc]

/-- an equals sign begins an arrow only if the second half follows -/
theorem noArrow_equals {t : List Char} (ht : t.head? ≠ some '>') : NoArrow ('=' :: t) := by
  refine ⟨?_, by simp⟩
  have hskip : skipBlanks ('=' :: t) = '=' :: t := by simp [skipBlanks, isAsciiBlank]
  unfold afterArrow?
  rw [hskip]
  split
  · rename_i h
    cases h
    simp at ht
  · rfl

/-- no arrow begins in woven text -/
theorem NoArrow.woven {ok : Char → Prop} {gap : Bool} {w t : List Char} (h : Woven ok gap w) (ht : NoArrow t) :
    NoArrow (w ++ t) := by
  induction h with
  | nil => exact ht
  | space _ _ ih =>
    refine ⟨?_, by simp⟩
    simpa [afterArrow?, skipBlanks, isAsciiBlank] using ih.1
  | @plain ok gap c w hc _ _ ih =>
    have hr := isReferenceChar_iff.1 (isReferenceChar_of_isPlain hc)
    by_cases he : c = '='
    · rw [he]
      exact noArrow_equals ih.2
    · refine noArrow_cons ?_ ⟨he, ?_⟩ _
      · cases hb : isAsciiBlank c with
        | false => rfl
        | true => exact absurd (isBlank_of_isAsciiBlank hb) (by simp [hr.1])
      · rintro rfl
        exact hr.2 (by decide)
  | quoted _ _ _ => exact noArrow_cons (by decide) (by decide) _
  | reference _ _ _ => exact noArrow_cons (by decide) (by decide) _
  | parens _ _ _ _ _ _ => exact noArrow_cons (by decide) (by decide) _
  | braces _ _ _ _ => exact noArrow_cons (by decide) (by decide) _

/-- there are no rules in woven text, when no arrow follows it -/
theorem takeRulesFrom_woven {ok : Char → Prop} {gap : Bool} {w t : List Char} (h : Woven ok gap w) (ht : NoArrow t) :
    takeRulesFrom none (w ++ t) = (takeRulesFrom none t).map (.behind w) := by
  -- one character before the rest of the text
  have hchar : ∀ {c : Char} (t : List Char), Quote.opening? c = none ∧ c ≠ '{' ∧ c ≠ '}' →
      takeRulesFrom none (c :: t) = (takeRulesFrom none t).map (.behind [c]) := by
    intro c t hc
    rw [takeRulesFrom_char fun _ => hc.2]
    simp [hc.1]
  induction h generalizing t with
  | nil => exact (map_behind_nil _).symm
  | space _ _ ih =>
    rw [List.cons_append, hchar _ (by decide), ih ht, map_behind]
    rfl
  | plain hc _ _ ih =>
    rw [List.cons_append, hchar _ (opensNothing (isReferenceChar_of_isPlain hc)), ih ht, map_behind]
    rfl
  | quoted hs _ ih =>
    have hopen : Quote.opening? '"' = some ⟨'"', false⟩ := rfl
    rw [List.cons_append, List.append_assoc, takeRulesFrom_char (by simp)]
    simp only [Option.map_none, Option.getD_none, hopen]
    rw [takeRulesFrom_quoted hs, ih ht, map_behind, map_behind]
    rfl
  | reference hs _ ih =>
    simp only [isReference, Bool.and_eq_true, List.all_eq_true] at hs
    rw [List.cons_append, List.append_assoc, List.cons_append, hchar _ (by decide),
      takeRulesFrom_row fun c hc => opensNothing (hs.1 c hc), hchar _ (by decide), ih ht, map_behind, map_behind,
      map_behind]
    simp
  | parens _ _ _ hw ihs ih =>
    have hclose : ∀ u, NoArrow (')' :: u) := noArrow_cons (by decide) (by decide)
    rw [List.cons_append, List.append_assoc, List.cons_append, hchar _ (by decide), ihs (hclose _), hchar _ (by decide),
      ih ht, map_behind, map_behind, map_behind]
    simp
  | braces hs hw _ ih =>
    rw [List.cons_append, List.append_assoc, List.cons_append,
      takeRulesFrom_group (closeGroup_woven hs _) (NoArrow.woven hw ht).1, ih ht, map_behind]
    simp

/-- the text of a rule is taken out, up to its full stop -/
theorem takeRulesFrom_ruleText {ok ok' : Char → Prop} {gap gap' : Bool} {a c : List Char} (ha : Woven ok gap a)
    (hc : Woven ok' gap' c) (t : List Char) :
    takeRulesFrom none ('{' :: (a ++ '}' :: ' ' :: '=' :: '>' :: ' ' :: '{' :: (c ++ '}' :: ' ' :: '.' :: t))) =
      (takeRulesFrom none t).map fun e => ⟨" . ".toList ++ e.remainder, ⟨a, c⟩ :: e.rules⟩ := by
  have harrow : ∀ u, afterArrow? (' ' :: '=' :: '>' :: ' ' :: '{' :: u) = some ('{' :: u) := by
    intro u
    simp [afterArrow?, skipBlanks, isAsciiBlank]
  have hstop : skipStop (' ' :: '.' :: t) = t := by simp [skipStop, skipBlanks, isAsciiBlank]
  rw [takeRulesFrom_rule (closeGroup_woven ha _) (harrow _) (closeGroup_woven hc _), hstop]

/-! ## The brackets of a token -/

/-- where no apostrophe hides a brace, the brace that closes a group is seen to close it -/
theorem closesAtEnd_group {quote : Option Quote} {depth : Nat} {s : List Char} (hquote : ∀ q ∈ quote, q.mark = '"')
    (hs : apostrophe ∉ s) (h : closeGroup quote depth (s ++ ['}']) = some (s, [])) :
    closesAtEnd '{' '}' quote (depth + 1) (s ++ ['}']) = true := by
  induction s generalizing quote depth with
  | nil =>
    obtain ⟨rfl, rfl⟩ := closeGroup_end h
    decide
  | cons c s ih =>
    rw [List.mem_cons, not_or] at hs
    obtain ⟨q, rfl, hrest⟩ | ⟨rfl, rfl, hrest⟩ | ⟨rfl, rfl, d, rfl, hrest⟩ | ⟨rfl, hopen, hclose, hrest⟩ :=
      closeGroup_cons h
    · have hmark : ∀ r ∈ q.feed c, r.mark = '"' := fun r hr => (Quote.mark_of_feed hr).trans (hquote q rfl)
      exact ih hmark hs.2 hrest
    · simpa [closesAtEnd] using ih (by simp) hs.2 hrest
    · simpa [closesAtEnd] using ih (by simp) hs.2 hrest
    · by_cases hc : c = '"'
      · have hquoted := ih (by simp [Quote.opening?, hc]) hs.2 hrest
        simpa [closesAtEnd, hc, Quote.opening?] using hquoted
      · have hplain : Quote.opening? c = none := by simp [Quote.opening?, hc, Ne.symm hs.1]
        rw [hplain] at hrest
        simpa [closesAtEnd, hc, hopen, hclose] using ih (by simp) hs.2 hrest

section Brackets

variable {opening closing : Char} (hpair : opening = '(' ∧ closing = ')' ∨ opening = '{' ∧ closing = '}')

theorem closesAtEnd_char {c : Char} (hc : c ≠ '"' ∧ c ≠ opening ∧ c ≠ closing) (d : Nat) (t : List Char) :
    closesAtEnd opening closing none d (c :: t) = closesAtEnd opening closing none d t := by
  simp [closesAtEnd, hc]

theorem closesAtEnd_quoted {q : Quote} {s : List Char} (h : q.ClosedBy s) (d : Nat) (t : List Char) :
    closesAtEnd opening closing (some q) d (s ++ t) = closesAtEnd opening closing none d t := by
  induction h with
  | last hc => simp [closesAtEnd, hc]
  | next hc _ ih => simp [closesAtEnd, hc, ih]

include hpair

theorem closesAtEnd_row {s : List Char} (hs : s.all isReferenceChar = true) (d : Nat) (t : List Char) :
    closesAtEnd opening closing none d (s ++ t) = closesAtEnd opening closing none d t := by
  induction s with
  | nil => rfl
  | cons c s ih =>
    simp only [List.all_cons, Bool.and_eq_true] at hs
    have hmem := (isReferenceChar_iff.1 hs.1).2
    simp only [enclosers, List.mem_cons, not_or] at hmem
    have hc : c ≠ '"' ∧ c ≠ opening ∧ c ≠ closing := by
      rcases hpair with ⟨rfl, rfl⟩ | ⟨rfl, rfl⟩ <;> simp [hmem]
    rw [List.cons_append, closesAtEnd_char hc, ih hs.2]

/-- what is open before woven text is open after it -/
theorem closesAtEnd_woven {ok : Char → Prop} {gap : Bool} {w : List Char} (h : Woven ok gap w) (d : Nat)
    (t : List Char) :
    closesAtEnd opening closing none (d + 1) (w ++ t) = closesAtEnd opening closing none (d + 1) t := by
  induction h generalizing d t with
  | nil => rfl
  | space _ _ ih =>
    have hc : ' ' ≠ '"' ∧ ' ' ≠ opening ∧ ' ' ≠ closing := by
      rcases hpair with ⟨rfl, rfl⟩ | ⟨rfl, rfl⟩ <;> decide
    rw [List.cons_append, closesAtEnd_char hc, ih]
  | @plain ok gap c w hc _ _ ih =>
    have hrow : [c].all isReferenceChar = true := by simp [isReferenceChar_of_isPlain hc]
    exact (closesAtEnd_row hpair hrow _ _).trans (ih d t)
  | quoted hs _ ih => simp [closesAtEnd, closesAtEnd_quoted hs, ih]
  | reference hs _ ih =>
    simp only [isReference, Bool.and_eq_true] at hs
    have hc : ∀ c ∈ ['<', '>'], c ≠ '"' ∧ c ≠ opening ∧ c ≠ closing := by
      rcases hpair with ⟨rfl, rfl⟩ | ⟨rfl, rfl⟩ <;> simp
    rw [List.cons_append, List.append_assoc, List.cons_append, closesAtEnd_char (hc '<' (by simp)),
      closesAtEnd_row hpair hs.1, closesAtEnd_char (hc '>' (by simp)), ih]
  | parens _ _ _ _ ihs ih => rcases hpair with ⟨rfl, rfl⟩ | ⟨rfl, rfl⟩ <;> simp [closesAtEnd, ihs, ih]
  | braces _ _ ihs ih => rcases hpair with ⟨rfl, rfl⟩ | ⟨rfl, rfl⟩ <;> simp [closesAtEnd, ihs, ih]

/-- the inside of brackets around woven text -/
theorem inside?_woven {ok : Char → Prop} {gap : Bool} {w : List Char} (h : Woven ok gap w) :
    inside? opening closing (opening :: (w ++ [closing])) = some w := by
  have hne : closing ≠ '"' ∧ opening ≠ '"' ∧ closing ≠ opening := by
    rcases hpair with ⟨rfl, rfl⟩ | ⟨rfl, rfl⟩ <;> decide
  have hlast : closesAtEnd opening closing none 1 [closing] = true := by simp [closesAtEnd, hne]
  have hall : closesAtEnd opening closing none 0 (opening :: (w ++ [closing])) = true := by
    rw [← hlast, ← closesAtEnd_woven hpair h 0 [closing]]
    simp [closesAtEnd, hne]
  simp [inside?, hall]

end Brackets

end N3Rules.Text
