/-
Taking the rules out of a text is exact.

The scan moves from place to place and jumps over whole groups. Where it stands, all partners and rules that begin
before have ended (`Clear`), so that a brace it meets is the brace of a group, or has no partner. What it has found when
it stops (`Outcome`) is put together backwards: text on which nothing starts, and the text of one rule, go in front.

- `takeRulesFrom_outcome`: the scan from a place on finds the first fault, or all the rules;
- `takeRules_exact`: of a whole text, the leftmost fault is reported at its byte, or else the rules are taken out, all
  of them and in order.
-/
import N3Rules.Proofs.Text.Pairs

namespace N3Rules.Text

/-! ## The scan -/

/-- what is found from a place on: the first fault, or all the rules in order -/
inductive Outcome (s : List Char) (n : Nat) : Except BraceFault Extract → Prop where
  | unbalanced {m : Nat} (hnm : n ≤ m) (hm : IsLone s m) (hbefore : ∀ i, n ≤ i → i < m → Faultless s i) :
      Outcome s n (.error (.unbalanced (s.drop m)))
  | noConsequent {g : Span} {k : Nat} (hng : n ≤ g.left) (hg : IsMalformed s g k)
      (hbefore : ∀ i, n ≤ i → i < g.left → Faultless s i) : Outcome s n (.error (.noConsequent (s.drop k)))
  | taken {pairs : List Pair} (hfaultless : ∀ i, n ≤ i → Faultless s i)
      (hall : ∀ p, p ∈ pairs ↔ IsPair s p ∧ n ≤ p.first.left)
      (hsorted : pairs.Pairwise fun p q => p.second.right < q.first.left) :
      Outcome s n (.ok ⟨blankOut s n pairs, pairs.map (·.text s)⟩)

/-- all partners and rules that begin before a place have ended there -/
structure Clear (s : List Char) (n : Nat) : Prop where
  settled : Settled s n
  ended : ∀ p, IsPair s p → p.first.left < n → p.second.left < n

section Scan

variable {s : List Char} {n m : Nat} {r : Except BraceFault Extract}

theorem clear_zero (s : List Char) : Clear s 0 where
  settled := by
    intro a b _ ha
    omega
  ended := by
    intro p _ hp
    omega

/-- where all before has ended, a group is not the second of a rule -/
theorem Clear.not_isSecond (h : Clear s n) {g : Span} (hg : g.left = n) : ¬IsSecond s g := by
  intro hsecond
  obtain ⟨f, hp⟩ := isSecond_iff.1 hsecond
  have hlt : f.left < g.left := hp.first.partners.lt.trans hp.lt
  have hended : g.left < n := h.ended ⟨f, g⟩ hp (hlt.trans_eq hg)
  exact hended.ne hg

theorem Clear.skip (h : Clear s n) (hm : Settled s m) (hnm : n ≤ m) (hidle : ∀ i, n ≤ i → i < m → Idle s i) :
    Clear s m where
  settled := hm
  ended := by
    intro p hp hpm
    by_cases hpn : p.first.left < n
    · exact (h.ended p hp hpn).trans_le hnm
    · exact absurd rfl ((hidle _ (by omega) hpm).noPair p hp)

theorem blankOut_skip (s : List Char) (hnm : n ≤ m) {pairs : List Pair} (hpairs : ∀ p ∈ pairs, m ≤ p.first.left) :
    blankOut s n pairs = slice s n m ++ blankOut s m pairs := by
  cases pairs with
  | nil => exact (slice_append_drop hnm).symm
  | cons p pairs =>
    rw [blankOut, blankOut, ← slice_append hnm (hpairs p List.mem_cons_self)]
    simp

/-- the first fault from a place on is the first from an earlier place on, when there is none between -/
theorem Outcome.error {e : BraceFault} (h : Outcome s m (.error e)) (hnm : n ≤ m)
    (hfaultless : ∀ i, n ≤ i → i < m → Faultless s i) : Outcome s n (.error e) := by
  have hbetween : ∀ {k}, (∀ i, m ≤ i → i < k → Faultless s i) → ∀ i, n ≤ i → i < k → Faultless s i := by
    intro k hk i hni hik
    by_cases him : i < m
    · exact hfaultless i hni him
    · exact hk i (by omega) hik
  cases h with
  | unbalanced hmk hlone hbefore => exact .unbalanced (hnm.trans hmk) hlone (hbetween hbefore)
  | noConsequent hmg hg hbefore => exact .noConsequent (hnm.trans hmg) hg (hbetween hbefore)

/-- text on which nothing starts stays where it is -/
theorem Outcome.skip (h : Outcome s m r) (hnm : n ≤ m) (hidle : ∀ i, n ≤ i → i < m → Idle s i) :
    Outcome s n (r.map (.behind (slice s n m))) := by
  cases r with
  | error e => exact h.error hnm fun i hni him => (hidle i hni him).toFaultless
  | ok e =>
    cases h with
    | @taken pairs hafter hall hsorted =>
      have hall' : ∀ p, p ∈ pairs ↔ IsPair s p ∧ n ≤ p.first.left := by
        intro p
        rw [hall p]
        refine and_congr_right fun hp => ⟨hnm.trans, fun hnp => ?_⟩
        by_contra! hpm
        exact (hidle _ hnp hpm).noPair p hp rfl
      have hblank := blankOut_skip s hnm fun p hp => ((hall p).1 hp).2
      simp only [Except.map, Extract.behind, ← hblank]
      refine .taken (fun i hni => ?_) hall' hsorted
      by_cases him : i < m
      · exact (hidle i hni him).toFaultless
      · exact hafter i (by omega)

/-- the text of a rule is taken out -/
theorem Outcome.take {p : Pair} (h : Outcome s m r) (hm : pastStop s (p.second.right + 1) = m) (hp : IsPair s p)
    (hfirst : Faultless s p.first.left) (hidle : ∀ i, p.first.left < i → i < m → Idle s i) :
    Outcome s p.first.left (r.map fun e => ⟨" . ".toList ++ e.remainder, p.text s :: e.rules⟩) := by
  have hend : p.second.right < m := by
    rw [← hm]
    exact isSpacing_stop.1
  have hlt : p.first.left < m :=
    calc p.first.left < p.first.right := hp.first.partners.lt
      _ < p.second.left := hp.lt
      _ < p.second.right := hp.second.partners.lt
      _ < m := hend
  have hfaultless : ∀ i, p.first.left ≤ i → i < m → Faultless s i := by
    intro i hpi him
    rcases hpi.eq_or_lt with rfl | hlt
    · exact hfirst
    · exact (hidle i hlt him).toFaultless
  cases r with
  | error e => exact h.error hlt.le hfaultless
  | ok e =>
    cases h with
    | @taken pairs hafter hall hsorted =>
      have hall' : ∀ q, q ∈ p :: pairs ↔ IsPair s q ∧ p.first.left ≤ q.first.left := by
        intro q
        rw [List.mem_cons, hall q]
        constructor
        · rintro (rfl | ⟨hq, hmq⟩)
          · exact ⟨hp, le_rfl⟩
          · exact ⟨hq, hlt.le.trans hmq⟩
        · rintro ⟨hq, hpq⟩
          rcases hpq.eq_or_lt with heq | hpq
          · exact .inl (hq.unique hp heq.symm)
          · refine .inr ⟨hq, ?_⟩
            by_contra! hqm
            exact (hidle _ hpq hqm).noPair q hq rfl
      have hsorted' := hsorted.cons (a := p) fun q hq => hend.trans_le ((hall q).1 hq).2
      have htaken : Outcome s p.first.left
          (.ok ⟨blankOut s p.first.left (p :: pairs), (p :: pairs).map (·.text s)⟩) := by
        refine .taken (fun i hpi => ?_) hall' hsorted'
        by_cases him : i < m
        · exact hfaultless i hpi him
        · exact hafter i (by omega)
      simpa [Except.map, blankOut, hm, slice] using htaken

/-- nothing starts between a group and the place that an arrow leads to, after the brace that opens the group -/
theorem IsGroup.idle_to_arrow {g : Span} (hg : IsGroup s g) {k : Nat} (harrow : pastArrow? s (g.right + 1) = some k)
    {i : Nat} (hgi : g.left < i) (hik : i < k) : Idle s i := by
  by_cases hi : i ≤ g.right
  · exact hg.idle hgi hi
  · obtain ⟨ho, hc⟩ := (isSpacing_arrow harrow).2.visible? (by omega) hik
    exact idle_of_plain ho hc

/-- a group that no arrow follows ends, and nothing starts in it -/
theorem Clear.group (h : Clear s n) {j : Nat} (hj : Partners s n j) (hnone : pastArrow? s (j + 1) = none) :
    Clear s (j + 1) ∧ ∀ i, n ≤ i → i < j + 1 → Idle s i := by
  have hg := h.settled.isGroup hj
  have hlt := hj.lt
  have hidle : ∀ i, n ≤ i → i < j + 1 → Idle s i := by
    intro i hni hij
    rcases hni.eq_or_lt with rfl | hlt
    · exact hg.idle_left (.inl hnone)
    · exact hg.idle hlt (Nat.le_of_lt_succ hij)
  exact ⟨h.skip (h.settled.after hj) (by omega) hidle, hidle⟩

/-- two groups with an arrow between them are a rule, and nothing else starts up to its end -/
theorem Clear.rule (h : Clear s n) {j k l : Nat} (hj : Partners s n j) (harrow : pastArrow? s (j + 1) = some k)
    (hl : Partners s k l) : IsPair s ⟨⟨n, j⟩, ⟨k, l⟩⟩ ∧ Clear s (pastStop s (l + 1)) ∧
      ∀ i, n < i → i < pastStop s (l + 1) → Idle s i := by
  have hfirst := h.settled.isGroup hj
  obtain ⟨hjk, hspacing⟩ := isSpacing_arrow harrow
  obtain ⟨hlm, hspacing'⟩ := isSpacing_stop (s := s) (n := l + 1)
  have hsettled : Settled s k := (h.settled.after hj).skip (fun i hi hi' => (hspacing.visible? hi hi').1) hjk
  have hsecond := hsettled.isGroup hl
  have hp : IsPair s ⟨⟨n, j⟩, ⟨k, l⟩⟩ := ⟨hfirst, hsecond, harrow, h.not_isSecond rfl⟩
  have hidle : ∀ i, n < i → i < pastStop s (l + 1) → Idle s i := by
    intro i hni him
    -- before the second group, at its brace, or behind that brace
    rcases lt_trichotomy i k with hik | rfl | hki
    · exact hfirst.idle_to_arrow harrow hni hik
    · exact hsecond.idle_left (.inr (isSecond_iff.2 ⟨_, hp⟩))
    · by_cases hil : i ≤ l
      · exact hsecond.idle hki hil
      · obtain ⟨ho, hc⟩ := hspacing'.visible? (by omega) him
        exact idle_of_plain ho hc
  refine ⟨hp, ⟨(hsettled.after hl).skip (fun i hi hi' => (hspacing'.visible? hi hi').1) hlm, ?_⟩, hidle⟩
  intro q hq hqm
  have hkl := hl.lt
  rcases lt_trichotomy q.first.left n with hqn | hqn | hnq
  · have := h.ended q hq hqn
    have := hj.lt
    omega
  · obtain rfl := hq.unique hp hqn
    exact hkl.trans hlm
  · exact absurd rfl ((hidle _ hnq hqm).noPair q hq)

/-- a group with an arrow behind it is no fault, where a brace opens after the arrow -/
theorem IsGroup.faultless {g : Span} (hg : IsGroup s g) {k : Nat} (harrow : pastArrow? s (g.right + 1) = some k)
    (hbrace : s[k]? = some '{') : Faultless s g.left where
  partnered := hg.not_isLone
  formed := by
    intro g' k' hg' heq
    obtain rfl := hg'.group.unique hg heq
    obtain rfl : k = k' := Option.some.inj (harrow.symm.trans hg'.arrow)
    exact hg'.brace hbrace

/-- the end of the text -/
theorem outcome_end (hnil : s.drop n = []) : Outcome s n (takeRulesFrom (quoteAt s n) []) := by
  have hidle : ∀ i, n ≤ i → Idle s i := by
    intro i hni
    have hnone : s[i]? = none := List.getElem?_eq_none ((List.drop_eq_nil_iff.1 hnil).trans hni)
    exact idle_of_plain (by simp [visible?, hnone]) (by simp [visible?, hnone])
  have hall : ∀ p, p ∈ [] ↔ IsPair s p ∧ n ≤ p.first.left := by
    intro p
    simp only [List.not_mem_nil, false_iff, not_and]
    exact fun hp hnp => (hidle _ hnp).noPair p hp rfl
  have htaken := Outcome.taken (fun i hni => (hidle i hni).toFaultless) hall .nil
  rw [takeRulesFrom]
  simpa [blankOut, hnil] using htaken

/-- a character that is no brace, or is in quotes -/
theorem outcome_plain (h : Clear s n) {c : Char} {t : List Char} (ht : s.drop n = c :: t)
    (ho : visible? s n ≠ some '{') (hc : visible? s n ≠ some '}')
    (hnext : ∀ m, n < m → Clear s m → Outcome s m (takeRulesFrom (quoteAt s m) (s.drop m))) :
    Outcome s n (takeRulesFrom (quoteAt s n) (c :: t)) := by
  have hchar := getElem?_of_drop ht
  have hquote : quoteAt s n = none → c ≠ '{' ∧ c ≠ '}' := by
    intro hq
    rw [visible?_of_quoteAt hq, hchar] at ho hc
    exact ⟨fun he => ho (congrArg some he), fun he => hc (congrArg some he)⟩
  have hsame : ∀ {i}, n ≤ i → i < n + 1 → i = n := by
    intro i hni hin
    omega
  have hidle : ∀ i, n ≤ i → i < n + 1 → Idle s i := fun i hni hin => hsame hni hin ▸ idle_of_plain ho hc
  have hsettled : Settled s (n + 1) := h.settled.skip (fun i hni hin => hsame hni hin ▸ ho) (Nat.le_succ n)
  have hclear := h.skip hsettled (Nat.le_succ n) hidle
  have hskip := (hnext _ (Nat.lt_succ_self n) hclear).skip (Nat.le_succ n) hidle
  have hslice : slice s n (n + 1) = [c] := by simp [slice, ht]
  rwa [takeRulesFrom_char hquote, ← hslice, ← quoteNext, ← quoteAt_succ hchar, ← drop_succ_of_drop ht]

/-- a brace that closes nothing -/
theorem outcome_closing (h : Clear s n) (hn : visible? s n = some '}') :
    Outcome s n (takeRulesFrom none ('}' :: s.drop (n + 1))) := by
  have hlone : IsLone s n := .inr ⟨hn, fun i hi => (h.settled i n hi hi.lt).false⟩
  have hfault := Outcome.unbalanced le_rfl hlone fun i hni hin => absurd hin hni.not_gt
  rw [takeRulesFrom, if_pos (by simp)]
  rwa [drop_of_getElem? (quoteAt_of_visible? hn).2] at hfault

/-- a group, its inside and its braces -/
theorem Partners.slice_eq {j : Nat} (hj : Partners s n j) :
    slice s n (j + 1) = '{' :: (slice s (n + 1) j ++ ['}']) := by
  have hopen := drop_of_getElem? (quoteAt_of_visible? hj.opening).2
  have hclose := drop_of_getElem? (quoteAt_of_visible? hj.closing).2
  have hlt := hj.lt
  rw [slice_of_drop hopen (by omega), ← slice_append (a := n + 1) (b := j) (by omega) (Nat.le_succ j),
    slice_of_drop hclose (Nat.lt_succ_self j)]
  simp [slice]

/-- a group with an arrow behind it, and a brace that opens behind the arrow -/
theorem outcome_arrow (h : Clear s n) {j k : Nat} (hj : Partners s n j) (harrow : pastArrow? s (j + 1) = some k)
    (hk : visible? s k = some '{')
    (hnext : ∀ m, n < m → Clear s m → Outcome s m (takeRulesFrom (quoteAt s m) (s.drop m))) :
    Outcome s n (match closeGroup none 0 (s.drop (k + 1)) with
      | none => .error (.unbalanced ('{' :: s.drop (k + 1)))
      | some (consequent, rest) =>
        (takeRulesFrom none (skipStop rest)).map fun e =>
          ⟨" . ".toList ++ e.remainder, ⟨slice s (n + 1) j, consequent⟩ :: e.rules⟩) := by
  have hbrace := (quoteAt_of_visible? hk).2
  have hg := h.settled.isGroup hj
  have hfirst := hg.faultless harrow hbrace
  have hjk := (isSpacing_arrow harrow).1
  have hlt := hj.lt
  rcases closeGroup_opening hk with ⟨hconsequent, hnone⟩ | ⟨l, hl, hconsequent, hql⟩
  · rw [hconsequent, ← drop_of_getElem? hbrace]
    refine .unbalanced (by omega) (.inl ⟨hk, hnone⟩) fun i hni hik => ?_
    rcases hni.eq_or_lt with rfl | hlt
    · exact hfirst
    · exact (hg.idle_to_arrow harrow hlt hik).toFaultless
  · obtain ⟨hp, hclear, hidle⟩ := h.rule hj harrow hl
    obtain ⟨hle, hspacing⟩ := isSpacing_stop (s := s) (n := l + 1)
    have hkl := hl.lt
    have hrest := hnext _ (by omega) hclear
    rw [hspacing.quoteAt hql hle le_rfl] at hrest
    simp only [hconsequent, skipStop_drop]
    exact hrest.take rfl hp hfirst hidle

/-- a brace that opens -/
theorem outcome_opening (h : Clear s n) (hn : visible? s n = some '{')
    (hnext : ∀ m, n < m → Clear s m → Outcome s m (takeRulesFrom (quoteAt s m) (s.drop m))) :
    Outcome s n (takeRulesFrom none ('{' :: s.drop (n + 1))) := by
  have hdrop := drop_of_getElem? (quoteAt_of_visible? hn).2
  rw [takeRulesFrom_opening]
  rcases closeGroup_opening hn with ⟨hgroup, hnone⟩ | ⟨j, hj, hgroup, hqj⟩
  · simp only [hgroup, ← hdrop]
    exact .unbalanced le_rfl (.inl ⟨hn, hnone⟩) fun i hni hin => absurd hin hni.not_gt
  have hlt := hj.lt
  simp only [hgroup, afterArrow?_drop]
  cases harrow : pastArrow? s (j + 1) with
  | none =>
    obtain ⟨hclear, hidle⟩ := h.group hj harrow
    have hskip := (hnext _ (by omega) hclear).skip (by omega) hidle
    rwa [hqj, hj.slice_eq] at hskip
  | some k =>
    obtain ⟨hjk, hspacing⟩ := isSpacing_arrow harrow
    by_cases hbrace : s[k]? = some '{'
    · have hk : visible? s k = some '{' := by rw [visible?_of_quoteAt (hspacing.quoteAt hqj hjk le_rfl), hbrace]
      simp only [Option.map_some, drop_of_getElem? hbrace]
      exact outcome_arrow h hj harrow hk hnext
    · have hmalformed : IsMalformed s ⟨n, j⟩ k := ⟨h.settled.isGroup hj, h.not_isSecond rfl, harrow, hbrace⟩
      have hfault := Outcome.noConsequent le_rfl hmalformed fun i hni hin => absurd hin hni.not_gt
      simp only [Option.map_some]
      split
      · contradiction
      · rename_i u hu
        exact absurd (getElem?_of_drop (Option.some.inj hu)) hbrace
      · rename_i place _ hplace
        rwa [← Option.some.inj hplace]

/-- **The scan from a place on finds the first fault, or all the rules**, where all before has ended. -/
theorem takeRulesFrom_outcome (h : Clear s n) : Outcome s n (takeRulesFrom (quoteAt s n) (s.drop n)) := by
  -- on the length of what remains, since the scan jumps over whole groups
  induction hlength : s.length - n using Nat.strong_induction_on generalizing n with
  | _ length ih =>
    subst hlength
    cases ht : s.drop n with
    | nil => exact outcome_end ht
    | cons c t =>
      have hc := getElem?_of_drop ht
      have hn : n < s.length := (List.getElem?_eq_some_iff.1 hc).1
      have hnext : ∀ m, n < m → Clear s m → Outcome s m (takeRulesFrom (quoteAt s m) (s.drop m)) :=
        fun m hnm hm => ih _ (by omega) hm rfl
      rcases level_step s n with ⟨ho, -⟩ | ⟨hclose, -⟩ | ⟨ho, hclose, -⟩
      · obtain ⟨hq, hbrace⟩ := quoteAt_of_visible? ho
        rw [hq, ← ht, drop_of_getElem? hbrace]
        exact outcome_opening h ho hnext
      · obtain ⟨hq, hbrace⟩ := quoteAt_of_visible? hclose
        rw [hq, ← ht, drop_of_getElem? hbrace]
        exact outcome_closing h hclose
      · exact outcome_plain h ht ho hclose hnext

end Scan

/-! ## Faults and rules of a text -/

/-- the leftmost fault is the brace at `n`, which has no partner -/
structure UnbalancedAt (s : List Char) (n : Nat) : Prop where
  lone : IsLone s n
  leftmost : ∀ m, IsLone s m → n ≤ m
  formed : ∀ g k, IsMalformed s g k → ¬g.left < n

/-- the leftmost fault is the group `g`, with an arrow behind it and no brace at `k` -/
structure MalformedAt (s : List Char) (g : Span) (k : Nat) : Prop where
  malformed : IsMalformed s g k
  leftmost : ∀ g' k', IsMalformed s g' k' → g.left ≤ g'.left
  partnered : ∀ n, IsLone s n → g.left < n

/-- the text without its rules, and the rules: all of them, one after the other -/
structure TakenApart (s : List Char) (pairs : List Pair) (e : Extract) : Prop where
  all : ∀ p, p ∈ pairs ↔ IsPair s p
  sorted : pairs.Pairwise fun p q => p.second.right < q.first.left
  rules : e.rules = pairs.map (·.text s)
  remainder : e.remainder = blankOut s 0 pairs

section TakeRules

variable {s : List Char}

/-- the byte at which the text from a place on starts -/
theorem utf8Length_sub_drop (s : List Char) (n : Nat) :
    utf8Length s - utf8Length (s.drop n) = utf8Length (s.take n) := by
  have hsum := utf8Length_append (s.take n) (s.drop n)
  rw [List.take_append_drop] at hsum
  omega

/-- what the scan of a whole text has found, when it stops -/
theorem takeRules_cases (s : List Char) :
    (∃ n, UnbalancedAt s n ∧ takeRules s = .error (.unbalancedBraces (utf8Length (s.take n)))) ∨
    (∃ g k, MalformedAt s g k ∧ takeRules s = .error (.consequentNotFormula (utf8Length (s.take k)))) ∨
    ∃ pairs e, TakenApart s pairs e ∧ (∀ i, Faultless s i) ∧ takeRules s = .ok e := by
  have houtcome : Outcome s 0 (takeRulesFrom none s) := takeRulesFrom_outcome (clear_zero s)
  unfold takeRules
  generalize takeRulesFrom none s = r at houtcome
  cases houtcome with
  | @unbalanced n _ hn hbefore =>
    refine .inl ⟨n, ⟨hn, fun m hm => ?_, fun g k hg hlt => ?_⟩, ?_⟩
    · by_contra! hlt
      exact (hbefore m (Nat.zero_le m) hlt).partnered hm
    · exact (hbefore _ (Nat.zero_le _) hlt).formed g k hg rfl
    · rw [← utf8Length_sub_drop]
      rfl
  | @noConsequent g k _ hg hbefore =>
    refine .inr (.inl ⟨g, k, ⟨hg, fun g' k' hg' => ?_, fun n hn => ?_⟩, ?_⟩)
    · by_contra! hlt
      exact (hbefore _ (Nat.zero_le _) hlt).formed g' k' hg' rfl
    · by_contra! hle
      rcases hle.eq_or_lt with rfl | hlt
      · exact hg.group.not_isLone hn
      · exact (hbefore n (Nat.zero_le n) hlt).partnered hn
    · rw [← utf8Length_sub_drop]
      rfl
  | @taken pairs hfaultless hall hsorted =>
    refine .inr (.inr ⟨pairs, _, ⟨fun p => ?_, hsorted, rfl, rfl⟩, fun i => hfaultless i (Nat.zero_le i), rfl⟩)
    simpa using hall p

/-- a text has one leftmost fault -/
theorem UnbalancedAt.unique {n m : Nat} (hn : UnbalancedAt s n) (hm : UnbalancedAt s m) : n = m :=
  le_antisymm (hn.leftmost m hm.lone) (hm.leftmost n hn.lone)

theorem MalformedAt.unique {g h : Span} {k l : Nat} (hg : MalformedAt s g k) (hh : MalformedAt s h l) : k = l := by
  have heq : g.left = h.left := le_antisymm (hg.leftmost h l hh.malformed) (hh.leftmost g k hg.malformed)
  obtain rfl := hg.malformed.group.unique hh.malformed.group heq
  exact Option.some.inj (hg.malformed.arrow.symm.trans hh.malformed.arrow)

theorem UnbalancedAt.not_malformedAt {n : Nat} {g : Span} {k : Nat} (hn : UnbalancedAt s n) : ¬MalformedAt s g k :=
  fun hg => hn.formed g k hg.malformed (hg.partnered n hn.lone)

theorem takeRules_eq_unbalanced {b : Nat} :
    takeRules s = .error (.unbalancedBraces b) ↔ ∃ n, UnbalancedAt s n ∧ b = utf8Length (s.take n) := by
  rcases takeRules_cases s with ⟨n, hn, hresult⟩ | ⟨g, k, hg, hresult⟩ | ⟨pairs, e, -, hfaultless, hresult⟩
  · rw [hresult, Except.error.injEq, SyntaxError.unbalancedBraces.injEq]
    constructor
    · rintro rfl
      exact ⟨n, hn, rfl⟩
    · rintro ⟨m, hm, rfl⟩
      rw [hn.unique hm]
  · simp only [hresult, Except.error.injEq, reduceCtorEq, false_iff]
    rintro ⟨n, hn, -⟩
    exact hn.not_malformedAt hg
  · simp only [hresult, reduceCtorEq, false_iff]
    rintro ⟨n, hn, -⟩
    exact (hfaultless n).partnered hn.lone

theorem takeRules_eq_noConsequent {b : Nat} :
    takeRules s = .error (.consequentNotFormula b) ↔ ∃ g k, MalformedAt s g k ∧ b = utf8Length (s.take k) := by
  rcases takeRules_cases s with ⟨n, hn, hresult⟩ | ⟨g, k, hg, hresult⟩ | ⟨pairs, e, -, hfaultless, hresult⟩
  · simp only [hresult, Except.error.injEq, reduceCtorEq, false_iff]
    rintro ⟨g, k, hg, -⟩
    exact hn.not_malformedAt hg
  · rw [hresult, Except.error.injEq, SyntaxError.consequentNotFormula.injEq]
    constructor
    · rintro rfl
      exact ⟨g, k, hg, rfl⟩
    · rintro ⟨g', k', hg', rfl⟩
      rw [hg.unique hg']
  · simp only [hresult, reduceCtorEq, false_iff]
    rintro ⟨g, k, hg, -⟩
    exact (hfaultless g.left).formed g k hg.malformed rfl

theorem takeRules_eq_ok : (∃ pairs e, TakenApart s pairs e ∧ takeRules s = .ok e) ↔
    (∀ n, ¬UnbalancedAt s n) ∧ ∀ g k, ¬MalformedAt s g k := by
  rcases takeRules_cases s with ⟨n, hn, hresult⟩ | ⟨g, k, hg, hresult⟩ | ⟨pairs, e, htaken, hfaultless, hresult⟩
  · simp only [hresult, reduceCtorEq, and_false, exists_false, false_iff]
    rintro ⟨hnone, -⟩
    exact hnone n hn
  · simp only [hresult, reduceCtorEq, and_false, exists_false, false_iff]
    rintro ⟨-, hnone⟩
    exact hnone g k hg
  · constructor
    · intro
      exact ⟨fun n hn => (hfaultless n).partnered hn.lone,
        fun g k hg => (hfaultless g.left).formed g k hg.malformed rfl⟩
    · intro
      exact ⟨pairs, e, htaken, hresult⟩

/-- **Taking the rules out of a text is exact.** The braces outside quotes pair up from the left. The leftmost fault is
reported, at its byte: a brace without partner, or the place after an arrow behind a group where no brace opens. Without
a fault, the rules are the pairs of groups with an arrow between them, all of them and in order, and what remains is the
text with a full stop for each of them, the blanks behind it and one full stop. -/
theorem takeRules_exact (s : List Char) :
    (∀ b, takeRules s = .error (.unbalancedBraces b) ↔ ∃ n, UnbalancedAt s n ∧ b = utf8Length (s.take n)) ∧
    (∀ b, takeRules s = .error (.consequentNotFormula b) ↔ ∃ g k, MalformedAt s g k ∧ b = utf8Length (s.take k)) ∧
    ((∃ pairs e, TakenApart s pairs e ∧ takeRules s = .ok e) ↔
      (∀ n, ¬UnbalancedAt s n) ∧ ∀ g k, ¬MalformedAt s g k) :=
  ⟨fun _ => takeRules_eq_unbalanced, fun _ => takeRules_eq_noConsequent, takeRules_eq_ok⟩

/-- the second of a rule starts no rule -/
example : takeRules "{a} => {b} => {c}".toList = .ok ⟨" . => {c}".toList, [⟨['a'], ['b']⟩]⟩ := by
  cbv

end TakeRules

end N3Rules.Text
