/-
Balanced texts: the rules in them are taken out whatever follows.

A text is balanced when it closes the groups it opens and no others, and leaves no quote open. If it also ends in a full
stop, then every look ahead within it, for an arrow or for the full stop after a rule, is decided within it. So the rules of
such a text, or its fault, are found in front of any other text as they are found in the text alone.

- `IsBalanced`: the text closes what it opens, so that a brace after it would close a group that was open before it;
- `IsBalanced.group`: what follows the first group of a balanced text is balanced;
- `IsPart`: a balanced text that ends in a full stop, or is over;
- `IsPart.past_blanks`, `IsPart.past_arrow`, `IsPart.past_stop`: the three looks ahead within a part;
- `IsPart.standsAlone`: what comes of a part and another text is what comes of each, one after the other.
-/
import N3Rules.Proofs.Text.Pairs

namespace N3Rules.Text

/-! ## Balanced texts -/

/-- a text closes the groups that it opens and no others, and leaves no quote open: a brace after it would close a group
that was open before it -/
def IsBalanced (quote : Option Quote) (s : List Char) : Prop :=
  closeGroup quote 0 (s ++ ['}']) = some (s, [])

instance (quote : Option Quote) (s : List Char) : Decidable (IsBalanced quote s) :=
  inferInstanceAs (Decidable (closeGroup quote 0 (s ++ ['}']) = some (s, [])))

/-- where several groups are closed, the innermost is closed first -/
theorem closeGroup_split {quote : Option Quote} (depth outer : Nat) {s inside after : List Char}
    (h : closeGroup quote (depth + outer + 1) s = some (inside, after)) :
    ∃ first rest second, closeGroup quote depth s = some (first, rest) ∧
      closeGroup none outer rest = some (second, after) ∧ inside = first ++ '}' :: second := by
  induction s generalizing quote depth inside with
  | nil => simp [closeGroup] at h
  | cons c s ih =>
    by_cases hbrace : quote = none ∧ (c = '{' ∨ c = '}')
    · obtain ⟨rfl, rfl | rfl⟩ := hbrace
      · rw [closeGroup, Option.map_eq_some_iff] at h
        obtain ⟨⟨inside', after'⟩, hrest, heq⟩ := h
        cases heq
        rw [Nat.add_right_comm depth outer 1] at hrest
        obtain ⟨first, rest, second, hfirst, hsecond, rfl⟩ := ih _ hrest
        exact ⟨'{' :: first, rest, second, by rw [closeGroup, hfirst]; rfl, hsecond, rfl⟩
      · rw [closeGroup, Option.map_eq_some_iff] at h
        obtain ⟨⟨inside', after'⟩, hrest, heq⟩ := h
        cases heq
        cases depth with
        | zero => exact ⟨[], s, inside', rfl, by rwa [Nat.zero_add] at hrest, rfl⟩
        | succ depth =>
          rw [Nat.add_right_comm depth 1 outer] at hrest
          obtain ⟨first, rest, second, hfirst, hsecond, rfl⟩ := ih _ hrest
          exact ⟨'}' :: first, rest, second, by rw [closeGroup, hfirst]; rfl, hsecond, rfl⟩
    · have hchar : quote = none → c ≠ '{' ∧ c ≠ '}' := by
        rintro rfl
        simpa [not_or] using hbrace
      rw [closeGroup_char hchar, Option.map_eq_some_iff] at h
      obtain ⟨⟨inside', after'⟩, hrest, heq⟩ := h
      cases heq
      obtain ⟨first, rest, second, hfirst, hsecond, rfl⟩ := ih _ hrest
      exact ⟨c :: first, rest, second, by rw [closeGroup_char hchar, hfirst]; rfl, hsecond, rfl⟩

/-- what follows the end of a group does not matter to the group -/
theorem closeGroup_tail {quote : Option Quote} {depth : Nat} {inside after : List Char}
    (h : closeGroup quote depth (inside ++ '}' :: after) = some (inside, after)) (t : List Char) :
    closeGroup quote depth (inside ++ '}' :: t) = some (inside, t) := by
  induction inside generalizing quote depth with
  | nil =>
    cases quote with
    | some q => simp [closeGroup] at h
    | none => cases depth <;> simp_all [closeGroup]
  | cons c s ih =>
    rw [List.cons_append] at h ⊢
    obtain ⟨q, rfl, hrest⟩ | ⟨rfl, rfl, hrest⟩ | ⟨rfl, rfl, d, rfl, hrest⟩ | ⟨rfl, hopen, hclose, hrest⟩ :=
      closeGroup_cons h
    · rw [closeGroup, ih hrest]
      rfl
    · rw [closeGroup, ih hrest]
      rfl
    · rw [closeGroup, ih hrest]
      rfl
    · rw [closeGroup_char fun _ => ⟨hopen, hclose⟩, quoteNext, Option.map_none, Option.getD_none, ih hrest]
      rfl

theorem isBalanced_nil {quote : Option Quote} (h : IsBalanced quote []) : quote = none :=
  (closeGroup_end h).1

/-- a balanced text that starts with a brace starts with a group, and goes on balanced -/
theorem IsBalanced.group {s : List Char} (h : IsBalanced none ('{' :: s)) :
    ∃ inside after, closeGroup none 0 s = some (inside, after) ∧ s = inside ++ '}' :: after ∧
      IsBalanced none after := by
  obtain ⟨q, hq, -⟩ | ⟨-, -, hrest⟩ | ⟨-, hbrace, -⟩ | ⟨-, hbrace, -⟩ := closeGroup_cons h
  · cases hq
  · obtain ⟨first, rest, second, hfirst, hsecond, rfl⟩ := closeGroup_split 0 0 hrest
    have hsplit := closeGroup_eq_some hfirst
    have happend : (first ++ '}' :: second).append ['}'] = first ++ '}' :: (second ++ ['}']) := by simp
    rw [happend, List.append_cancel_left_eq, List.cons.injEq] at hsplit
    obtain rfl := hsplit.2.symm
    refine ⟨first, second, ?_, rfl, hsecond⟩
    rw [happend] at hfirst
    exact closeGroup_tail hfirst second
  · exact absurd hbrace (by decide)
  · exact absurd rfl hbrace

/-- a balanced text does not start by closing a group -/
theorem IsBalanced.ne_closing {c : Char} {s : List Char} (h : IsBalanced none (c :: s)) : c ≠ '}' := by
  rintro rfl
  obtain ⟨q, hq, -⟩ | ⟨-, hbrace, -⟩ | ⟨-, -, d, hd, -⟩ | ⟨-, -, hbrace, -⟩ := closeGroup_cons h
  · cases hq
  · exact absurd hbrace (by decide)
  · cases hd
  · exact absurd rfl hbrace

theorem IsBalanced.char {quote : Option Quote} {c : Char} {s : List Char} (h : IsBalanced quote (c :: s))
    (hc : quote = none → c ≠ '{' ∧ c ≠ '}') : IsBalanced (quoteNext quote c) s := by
  rw [IsBalanced, List.cons_append, closeGroup_char hc, Option.map_eq_some_iff] at h
  obtain ⟨⟨inside, after⟩, hrest, heq⟩ := h
  cases heq
  exact hrest

/-- what follows spacing is balanced -/
theorem IsBalanced.spacing {c : Char} {s : List Char} (h : IsBalanced none (c :: s))
    (hc : isAsciiBlank c = true ∨ c ∈ ['=', '>', '.']) : IsBalanced none s := by
  obtain ⟨hquote, hopen, hclose⟩ := opensNothing_of_spacing hc
  have hnext := h.char fun _ => ⟨hopen, hclose⟩
  rwa [quoteNext, Option.map_none, Option.getD_none, hquote] at hnext

/-! ## Parts -/

/-- a balanced text that ends in a full stop, or is over -/
structure IsPart (quote : Option Quote) (s : List Char) : Prop where
  balanced : IsBalanced quote s
  last : ∀ c ∈ s.getLast?, c = '.'

/-- a text of a part that is not over at some place ends in a full stop after it too -/
theorem last_of_cons {c : Char} {s : List Char} (h : ∀ d ∈ (c :: s).getLast?, d = '.') : ∀ d ∈ s.getLast?, d = '.' := by
  intro d hd
  refine h d ?_
  rw [List.getLast?_cons, hd]
  rfl

theorem ne_nil_of_last {c : Char} {s : List Char} (h : ∀ d ∈ (c :: s).getLast?, d = '.') (hc : c ≠ '.') : s ≠ [] := by
  rintro rfl
  exact hc (h c rfl)

theorem afterArrow?_arrow {s u : List Char} (h : skipBlanks s = '=' :: '>' :: u) :
    afterArrow? s = some (skipBlanks u) := by
  simp [afterArrow?, h]

theorem afterArrow?_eq_none {s : List Char} (h : ∀ u, skipBlanks s ≠ '=' :: '>' :: u) : afterArrow? s = none := by
  unfold afterArrow?
  split
  · exact absurd ‹_› (h _)
  · rfl

section Spacing

variable {s : List Char} (h : IsPart none s)

include h

/-- within a part, blanks are skipped up to some other character -/
theorem IsPart.past_blanks (hne : s ≠ []) : IsPart none (skipBlanks s) ∧ skipBlanks s ≠ [] ∧
    ∀ t, skipBlanks (s ++ t) = skipBlanks s ++ t := by
  induction s with
  | nil => exact absurd rfl hne
  | cons c s ih =>
    cases hc : isAsciiBlank c with
    | true =>
      have hdot : c ≠ '.' := by
        rintro rfl
        exact absurd hc (by decide)
      obtain ⟨hpart, hne', happend⟩ := ih ⟨h.balanced.spacing (.inl hc), last_of_cons h.last⟩ (ne_nil_of_last h.last hdot)
      have hskip : ∀ u, skipBlanks (c :: u) = skipBlanks u := by
        intro u
        rw [skipBlanks, List.dropWhile_cons_of_pos hc]
        rfl
      refine ⟨?_, ?_, ?_⟩
      · rwa [hskip]
      · rwa [hskip]
      · intro t
        rw [List.cons_append, hskip, hskip, happend]
    | false =>
      have hskip : ∀ u, skipBlanks (c :: u) = c :: u := by
        intro u
        rw [skipBlanks, List.dropWhile_cons_of_neg (by simp [hc])]
      refine ⟨?_, ?_, ?_⟩
      · rwa [hskip]
      · rw [hskip]
        exact List.cons_ne_nil c s
      · intro t
        rw [List.cons_append, hskip, hskip, List.cons_append]

/-- within a part, whether an arrow comes next can be told, and something follows it -/
theorem IsPart.past_arrow (hne : s ≠ []) : (∀ p ∈ afterArrow? s, IsPart none p ∧ p ≠ []) ∧
    ∀ t, afterArrow? (s ++ t) = (afterArrow? s).map (· ++ t) := by
  obtain ⟨hpart, hne', happend⟩ := h.past_blanks hne
  by_cases harrow : ∃ u, skipBlanks s = '=' :: '>' :: u
  · obtain ⟨u, hu⟩ := harrow
    rw [hu] at hpart happend
    have hne'' : u ≠ [] := ne_nil_of_last (last_of_cons hpart.last) (by decide)
    have hbalanced := (hpart.balanced.spacing (.inr (by simp))).spacing (.inr (by simp))
    obtain ⟨hpart', hne''', happend'⟩ :=
      IsPart.past_blanks ⟨hbalanced, last_of_cons (last_of_cons hpart.last)⟩ hne''
    rw [afterArrow?_arrow hu]
    refine ⟨?_, ?_⟩
    · intro p hp
      cases hp
      exact ⟨hpart', hne'''⟩
    · intro t
      rw [afterArrow?_arrow (happend t)]
      exact congrArg some (happend' t)
  · -- the text is not over after an equals sign, so what follows it is no second half of an arrow
    have hnone : ∀ t u, skipBlanks (s ++ t) ≠ '=' :: '>' :: u := by
      intro t u hu
      rw [happend] at hu
      generalize skipBlanks s = r at hpart hne' harrow hu
      match r, hu with
      | [], _ => exact hne' rfl
      | [c], hu =>
        obtain rfl := hpart.last c rfl
        cases hu
      | c :: d :: r, hu =>
        rw [List.cons_append, List.cons_append] at hu
        cases hu
        exact harrow ⟨r, rfl⟩
    have hself : afterArrow? s = none := by
      refine afterArrow?_eq_none fun u => ?_
      have hne := hnone [] u
      rwa [List.append_nil] at hne
    rw [hself]
    exact ⟨by simp, fun t => afterArrow?_eq_none (hnone t)⟩

/-- within a part, whether a full stop comes next can be told -/
theorem IsPart.past_stop (hne : s ≠ []) : IsPart none (skipStop s) ∧
    ∀ t, skipStop (s ++ t) = skipStop s ++ t := by
  obtain ⟨hpart, hne', happend⟩ := h.past_blanks hne
  unfold skipStop
  simp only [happend]
  generalize skipBlanks s = r at hpart hne'
  cases r with
  | nil => exact absurd rfl hne'
  | cons c u =>
    by_cases hc : c = '.'
    · subst hc
      exact ⟨⟨hpart.balanced.spacing (.inr (by simp)), last_of_cons hpart.last⟩, fun t => rfl⟩
    · simp only [List.cons_append]
      split
      · simp_all
      · refine ⟨hpart, ?_⟩
        intro t
        split
        · simp_all
        · rfl

end Spacing

/-! ## Rules -/

/-- what comes of two texts, one after the other -/
def Extract.append (e e' : Extract) : Extract :=
  ⟨e.remainder ++ e'.remainder, e.rules ++ e'.rules⟩

theorem toOption_map {ε α β : Type} (f : α → β) (x : Except ε α) : (x.map f).toOption = x.toOption.map f := by
  cases x <;> rfl

/-- a text ends in a full stop, up to blanks -/
def EndsInStop (s : List Char) : Prop :=
  ∃ w b, s = w ++ '.' :: b ∧ ∀ c ∈ b, isBlank c = true

theorem EndsInStop.behind {s : List Char} (h : EndsInStop s) (w : List Char) : EndsInStop (w ++ s) := by
  obtain ⟨v, b, rfl, hb⟩ := h
  exact ⟨w ++ v, b, by rw [List.append_assoc], hb⟩

/-- the rules of a text are taken out of it, whatever follows it, and what remains ends in a full stop -/
structure StandsAlone (quote : Option Quote) (s : List Char) : Prop where
  append : ∀ t, (takeRulesFrom quote (s ++ t)).toOption =
    (takeRulesFrom quote s).toOption.bind fun e => (takeRulesFrom none t).toOption.map e.append
  stop : ∀ e, takeRulesFrom quote s = .ok e → s = [] ∨ EndsInStop e.remainder

theorem standsAlone_nil : StandsAlone none [] := by
  refine ⟨?_, fun _ _ => .inl rfl⟩
  intro t
  rw [takeRulesFrom_nil, List.nil_append]
  cases takeRulesFrom none t <;> rfl

/-- a text with a fault in it has it whatever follows -/
theorem standsAlone_fault {quote : Option Quote} {s : List Char} (hs : ∃ f, takeRulesFrom quote s = .error f)
    (h : ∀ t, ∃ f, takeRulesFrom quote (s ++ t) = .error f) : StandsAlone quote s := by
  obtain ⟨f, hf⟩ := hs
  refine ⟨?_, ?_⟩
  · intro t
    obtain ⟨f', hf'⟩ := h t
    rw [hf, hf']
    rfl
  · intro e he
    rw [hf] at he
    cases he

/-- one step before a text that stands alone: something is put in front of what comes of it -/
theorem StandsAlone.step {quote quote' : Option Quote} {s s' : List Char} (h : StandsAlone quote' s')
    {g : Extract → Extract} (hg : ∀ e e', g (e.append e') = (g e).append e')
    (htake : ∀ t, takeRulesFrom quote (s ++ t) = (takeRulesFrom quote' (s' ++ t)).map g)
    (hstop : ∀ e, takeRulesFrom quote' s' = .ok e → EndsInStop (g e).remainder) : StandsAlone quote s := by
  have hself : takeRulesFrom quote s = (takeRulesFrom quote' s').map g := by
    have := htake []
    rwa [List.append_nil, List.append_nil] at this
  refine ⟨?_, ?_⟩
  · intro t
    rw [htake, hself, toOption_map, toOption_map, h.append]
    cases (takeRulesFrom quote' s').toOption <;> cases (takeRulesFrom none t).toOption <;> simp [hg]
  · intro e he
    rw [hself] at he
    cases hrest : takeRulesFrom quote' s' with
    | error f =>
      rw [hrest] at he
      cases he
    | ok e' =>
      rw [hrest] at he
      cases he
      exact .inr (hstop e' hrest)

/-- a part that starts with a brace starts with a group, and goes on as a part that is not over -/
theorem IsPart.group {s : List Char} (h : IsPart none ('{' :: s)) :
    ∃ inside after, closeGroup none 0 s = some (inside, after) ∧ IsPart none after ∧ after ≠ [] ∧
      after.length < s.length := by
  obtain ⟨inside, after, hgroup, rfl, hbalanced⟩ := h.balanced.group
  have hlast : ∀ d ∈ ('}' :: after).getLast?, d = '.' := by
    intro d hd
    refine h.last d ?_
    rw [← List.cons_append, List.getLast?_append, hd]
    rfl
  refine ⟨inside, after, hgroup, ⟨hbalanced, last_of_cons hlast⟩, ne_nil_of_last hlast (by decide), ?_⟩
  simp only [List.length_append, List.length_cons]
  omega

theorem Extract.behind_append (w : List Char) (e e' : Extract) :
    (e.append e').behind w = (e.behind w).append e' := by
  simp [Extract.append, Extract.behind]

section Opening

variable {s inside after : List Char} (hgroup : closeGroup none 0 s = some (inside, after)) (hafter : IsPart none after)
  (hne : after ≠ [])

include hgroup hafter hne

/-- a group that no arrow follows -/
theorem standsAlone_group (harrow : afterArrow? after = none) (halone : StandsAlone none after) :
    StandsAlone none ('{' :: s) := by
  refine halone.step (Extract.behind_append ('{' :: (inside ++ ['}']))) ?_ ?_
  · intro t
    refine takeRulesFrom_group (closeGroup_append hgroup t) ?_
    rw [(hafter.past_arrow hne).2, harrow]
    rfl
  · intro e he
    exact ((halone.stop e he).resolve_left hne).behind _

/-- a group that an arrow follows, and then something else than a group -/
theorem standsAlone_noConsequent {c : Char} {u : List Char} (harrow : afterArrow? after = some (c :: u))
    (hc : c ≠ '{') : StandsAlone none ('{' :: s) := by
  have hfault : ∀ t, takeRulesFrom none ('{' :: (s ++ t)) = .error (.noConsequent (c :: u ++ t)) := by
    intro t
    have harrow' : afterArrow? (after ++ t) = some (c :: (u ++ t)) := by
      rw [(hafter.past_arrow hne).2, harrow]
      rfl
    rw [takeRulesFrom_opening, closeGroup_append hgroup]
    simp only [harrow']
    split <;> simp_all
  refine standsAlone_fault ⟨.noConsequent (c :: u), ?_⟩ fun t => ⟨_, hfault t⟩
  have hself := hfault []
  rwa [List.append_nil, List.append_nil] at hself

/-- two groups with an arrow between them -/
theorem standsAlone_rule {consequent u rest : List Char} (harrow : afterArrow? after = some ('{' :: u))
    (hconsequent : closeGroup none 0 u = some (consequent, rest)) (hrest : IsPart none rest) (hrestne : rest ≠ [])
    (halone : StandsAlone none (skipStop rest)) : StandsAlone none ('{' :: s) := by
  refine halone.step (g := fun e => ⟨" . ".toList ++ e.remainder, ⟨inside, consequent⟩ :: e.rules⟩) ?_ ?_ ?_
  · intro e e'
    simp [Extract.append]
  · intro t
    have harrow' : afterArrow? (after ++ t) = some ('{' :: (u ++ t)) := by
      rw [(hafter.past_arrow hne).2, harrow]
      rfl
    rw [← (hrest.past_stop hrestne).2]
    exact takeRulesFrom_rule (closeGroup_append hgroup t) harrow' (closeGroup_append hconsequent t)
  · intro e he
    rcases halone.stop e he with hnil | hstop
    · rw [hnil, takeRulesFrom_nil] at he
      cases he
      refine ⟨[' '], [' '], rfl, fun c hc => ?_⟩
      rw [List.mem_singleton.1 hc]
      decide
    · exact hstop.behind _

end Opening

/-- a part that starts with a brace, if shorter parts stand alone -/
theorem IsPart.standsAlone_opening {s : List Char} (h : IsPart none ('{' :: s))
    (ih : ∀ u, u.length < s.length → IsPart none u → StandsAlone none u) : StandsAlone none ('{' :: s) := by
  obtain ⟨inside, after, hgroup, hafter, hne, hlength⟩ := h.group
  cases harrow : afterArrow? after with
  | none => exact standsAlone_group hgroup hafter hne harrow (ih after hlength hafter)
  | some p =>
    obtain ⟨hp, hpne⟩ := (hafter.past_arrow hne).1 p harrow
    obtain ⟨c, u, rfl⟩ := List.exists_cons_of_ne_nil hpne
    by_cases hc : c = '{'
    · subst hc
      obtain ⟨consequent, rest, hconsequent, hrest, hrestne, hlength'⟩ := hp.group
      refine standsAlone_rule hgroup hafter hne harrow hconsequent hrest hrestne
        (ih _ ?_ (hrest.past_stop hrestne).1)
      have hskip := length_skipStop_le rest
      have harrow' := length_afterArrow_lt harrow
      rw [List.length_cons] at harrow'
      omega
    · exact standsAlone_noConsequent hgroup hafter hne harrow hc

/-- a part stands alone; the induction is on its length, since groups and rules are taken at once -/
theorem IsPart.standsAlone {quote : Option Quote} {s : List Char} (h : IsPart quote s) : StandsAlone quote s := by
  induction hn : s.length using Nat.strong_induction_on generalizing quote s with
  | _ n ih =>
    subst hn
    cases s with
    | nil =>
      obtain rfl := isBalanced_nil h.balanced
      exact standsAlone_nil
    | cons c s =>
      by_cases hopening : quote = none ∧ c = '{'
      · obtain ⟨rfl, rfl⟩ := hopening
        exact h.standsAlone_opening fun u hu hpart => ih u.length (Nat.lt_succ_of_lt hu) hpart rfl
      · have hchar : quote = none → c ≠ '{' ∧ c ≠ '}' := by
          rintro rfl
          exact ⟨fun hc => hopening ⟨rfl, hc⟩, h.balanced.ne_closing⟩
        have hpart : IsPart (quoteNext quote c) s := ⟨h.balanced.char hchar, last_of_cons h.last⟩
        have halone := ih s.length (Nat.lt_succ_self _) hpart rfl
        refine halone.step (Extract.behind_append [c]) (fun t => takeRulesFrom_char hchar (s ++ t)) ?_
        intro e he
        rcases halone.stop e he with rfl | hstop
        · -- the part was the full stop
          obtain rfl := h.last c rfl
          rw [isBalanced_nil hpart.balanced, takeRulesFrom_nil] at he
          cases he
          exact ⟨[], [], rfl, by simp⟩
        · exact hstop.behind [c]

end N3Rules.Text
