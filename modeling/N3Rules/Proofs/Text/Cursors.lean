/-
Taking rules out of a text with cursors on its bytes.

Here every step is checked. A reading is stuck where it takes a slice that is not there, where it leaves a brace group
that it is not in, and where a jump does not go ahead. It is never stuck: the cursors come to a stop only where whole
characters are behind them, and what is found is what `takeRules` finds.

- `Checked`: what a reading comes to if it is not stuck;
- `closingBrace_eq`, `pastBlanks_eq`, `pastStop_eq`: where the cursors go;
- `BraceStep`, `braceStep_groupAt`: the step at an opening brace;
- `takeRulesAt`, `takeRulesAt_eq`: the text without its rules.
-/
import N3Rules.Proofs.Text.Balanced
import N3Rules.Proofs.Text.Bytes
import N3Rules.Proofs.Text.Pairs

namespace N3Rules.Text

/-! ## Checked steps -/

/-- a reading whose steps are checked: it comes to a result or an error, or it is stuck -/
abbrev Checked := ExceptT SyntaxError Option

section Checked

variable {α β : Type}

/-- a reading that is not stuck -/
def Checked.done (x : Except SyntaxError α) : Checked α :=
  ExceptT.mk (some x)

def Checked.stuck : Checked α :=
  ExceptT.mk none

/-- a step that is stuck where there is nothing -/
def Checked.step (x : Option α) : Checked α :=
  x.elim .stuck fun a => .done (.ok a)

theorem Checked.ok_bind (a : α) (f : α → Checked β) : Checked.done (.ok a) >>= f = f a := rfl

theorem Checked.error_bind (e : SyntaxError) (f : α → Checked β) : Checked.done (.error e) >>= f = .done (.error e) :=
  rfl

theorem Checked.done_bind (x : Except SyntaxError α) (f : α → Except SyntaxError β) :
    (Checked.done x >>= fun a => .done (f a)) = .done (x >>= f) := by
  cases x <;> rfl

theorem Checked.done_map (f : α → β) (x : Except SyntaxError α) : f <$> Checked.done x = .done (x.map f) := by
  cases x <;> rfl

/-- steps that are not stuck can be made one after another -/
theorem Checked.mapM_done {f : α → Checked β} {g : α → Except SyntaxError β} {l : List α}
    (h : ∀ a ∈ l, f a = .done (g a)) : l.mapM f = .done (l.mapM g) := by
  induction l with
  | nil => rfl
  | cons a l ih =>
    rw [List.forall_mem_cons] at h
    rw [List.mapM_cons, List.mapM_cons, h.1, ih h.2]
    cases g a with
    | error e => rfl
    | ok b =>
      rw [Checked.ok_bind]
      cases l.mapM g <;> rfl

end Checked

/-! ## Quotes -/

/-- an open quote is closed by an ASCII character -/
def IsAsciiQuote (quote : Option Quote) : Prop :=
  ∀ q ∈ quote, q.mark.toNat < 128

theorem isAsciiQuote_none : IsAsciiQuote none := by
  rintro q ⟨⟩

theorem IsAsciiQuote.next {quote : Option Quote} (h : IsAsciiQuote quote) (c : Char) :
    IsAsciiQuote (quoteNext quote c) := by
  intro q hq
  cases quote with
  | none =>
    simp only [quoteNext, Option.map_none, Option.getD_none, Quote.opening?] at hq
    split at hq
    · rename_i hmark
      cases hq
      rcases hmark with rfl | rfl <;> decide
    · cases hq
  | some p =>
    have hfeed : p.feed c = some q := hq
    rw [Quote.mark_of_feed hfeed]
    exact h p rfl

/-- over bytes beyond ASCII a quote stays open, and only an escape ends -/
theorem foldl_quoteNext_wide {quote : Option Quote} (h : IsAsciiQuote quote) {bs : List Char}
    (hbs : ∀ b ∈ bs, IsWide b) (hne : bs ≠ []) :
    bs.foldl quoteNext quote = quote.map fun q => { q with escaped := false } := by
  induction bs generalizing quote with
  | nil => exact absurd rfl hne
  | cons b bs ih =>
    have hb := quoteNext_wide (hbs b List.mem_cons_self) h
    rw [List.foldl_cons, hb]
    cases bs with
    | nil => rfl
    | cons d bs =>
      rw [← hb, ih (h.next b) (fun d hd => hbs d (List.mem_cons_of_mem b hd)) (List.cons_ne_nil d bs), hb]
      cases quote <;> rfl

/-- after the bytes of a character the quote is as after the character -/
theorem foldl_quoteNext_bytes {quote : Option Quote} (h : IsAsciiQuote quote) (c : Char) :
    (bytes [c]).foldl quoteNext quote = quoteNext quote c := by
  by_cases hc : c.toNat < 128
  · rw [bytes_ascii hc]
    rfl
  · have hwide : 128 ≤ c.toNat := Nat.le_of_not_lt hc
    obtain ⟨b, bs, hbytes, -, -⟩ := exists_bytes_wide hwide
    rw [foldl_quoteNext_wide h (isWide_of_mem_bytes hwide) (by rw [hbytes]; exact List.cons_ne_nil b bs),
      quoteNext_wide hwide h]

/-! ## The brace that closes a group -/

/-- the byte of the brace that closes the group that starts at byte `start`, from byte `i` on, where `depth` groups are
open -/
def closingBrace (start : Nat) (quote : Option Quote) (depth i : Nat) : List Char → Checked Nat
  | [] => throw (.unbalancedBraces start)
  | b :: bs =>
    if quote = none ∧ b = '{' then closingBrace start none (depth + 1) (i + 1) bs
    else if quote = none ∧ b = '}' then
      if depth = 0 then .stuck
      else if depth = 1 then pure i
      else closingBrace start none (depth - 1) (i + 1) bs
    else closingBrace start (quoteNext quote b) depth (i + 1) bs

/-- bytes that are no braces, or stand in a quote, are passed over -/
theorem closingBrace_char {quote : Option Quote} {c : Char} (h : quote = none → c ≠ '{' ∧ c ≠ '}')
    (hq : IsAsciiQuote quote) (start depth i : Nat) (s : List Char) :
    closingBrace start quote depth i (bytes (c :: s)) =
      closingBrace start (quoteNext quote c) depth (i + c.utf8Size) (bytes s) := by
  rw [bytes_cons, ← foldl_quoteNext_bytes hq, ← length_bytes_char]
  have hbraces : ∀ b, IsWide b → b ≠ '{' ∧ b ≠ '}' := fun b hb => ⟨hb.ne (by decide), hb.ne (by decide)⟩
  have hstep : ∀ {quote : Option Quote} {b : Char} {i : Nat} {bs : List Char}, (quote = none → b ≠ '{' ∧ b ≠ '}') →
      closingBrace start quote depth i (b :: bs) = closingBrace start (quoteNext quote b) depth (i + 1) bs := by
    intro quote b i bs hb
    rw [closingBrace, if_neg fun h => (hb h.1).1 h.2, if_neg fun h => (hb h.1).2 h.2]
  by_cases hc : c.toNat < 128
  · rw [bytes_ascii hc]
    exact hstep h
  · have hwide := isWide_of_mem_bytes (Nat.le_of_not_lt hc)
    generalize bytes [c] = bs at hwide
    clear h hq
    induction bs generalizing quote i with
    | nil => rfl
    | cons b bs ih =>
      rw [List.cons_append, hstep fun _ => hbraces b (hwide b List.mem_cons_self),
        ih _ fun d hd => hwide d (List.mem_cons_of_mem b hd), List.foldl_cons, List.length_cons, Nat.add_right_comm,
        Nat.add_assoc]

/-- the group that a brace closes is the one that is found character by character -/
theorem closingBrace_eq (start : Nat) {quote : Option Quote} (hq : IsAsciiQuote quote) (depth i : Nat) (s : List Char) :
    closingBrace start quote (depth + 1) i (bytes s) =
      .done (((closeGroup quote depth s).map fun g => i + utf8Length g.1).elim
        (.error (.unbalancedBraces start)) .ok) := by
  induction s generalizing quote depth i with
  | nil => rfl
  | cons c s ih =>
    -- what a group has inside grows by the character
    have hmap : ∀ (n : Nat) (x : Option (List Char × List Char)), n = i + c.utf8Size →
        (x.map fun g => n + utf8Length g.1) =
          (x.map fun g => (c :: g.1, g.2)).map fun g => i + utf8Length g.1 := by
      rintro n x rfl
      cases x <;> simp [utf8Length, Nat.add_assoc]
    by_cases hopen : quote = none ∧ c = '{'
    · obtain ⟨rfl, rfl⟩ := hopen
      rw [bytes_cons, bytes_ascii (by decide), List.singleton_append, closingBrace, if_pos ⟨rfl, rfl⟩, ih hq,
        hmap (i + 1) _ rfl]
      rfl
    by_cases hclose : quote = none ∧ c = '}'
    · obtain ⟨rfl, rfl⟩ := hclose
      rw [bytes_cons, bytes_ascii (by decide), List.singleton_append, closingBrace, if_neg (by decide),
        if_pos ⟨rfl, rfl⟩, if_neg (Nat.succ_ne_zero depth)]
      cases depth with
      | zero => rfl
      | succ depth =>
        rw [if_neg (by omega), Nat.add_sub_cancel, ih hq, hmap (i + 1) _ rfl]
        rfl
    · have hplain : quote = none → c ≠ '{' ∧ c ≠ '}' := fun h => ⟨fun hc => hopen ⟨h, hc⟩, fun hc => hclose ⟨h, hc⟩⟩
      rw [closingBrace_char hplain hq, ih (hq.next c), closeGroup_char hplain, hmap _ _ rfl]

/-! ## Blanks -/

theorem not_isAsciiBlank_of_wide {b : Char} (hb : IsWide b) : isAsciiBlank b = false := by
  have hne : ∀ c : Char, c.toNat < 128 → b ≠ c := fun c hc => hb.ne hc
  simp [isAsciiBlank, hne ' ' (by decide), hne '\t' (by decide), hne '\n' (by decide), hne '\x0c' (by decide),
    hne '\r' (by decide)]

theorem toNat_lt_of_isAsciiBlank {c : Char} (h : isAsciiBlank c = true) : c.toNat < 128 := by
  by_contra hc
  rw [not_isAsciiBlank_of_wide (Nat.le_of_not_lt hc)] at h
  cases h

/-- blanks are one byte each, and no other character starts with such a byte -/
theorem findIdx_bytes (s : List Char) :
    ∃ w, s = w ++ skipBlanks s ∧ (bytes s).findIdx (!isAsciiBlank ·) = utf8Length w := by
  induction s with
  | nil => exact ⟨[], rfl, rfl⟩
  | cons c s ih =>
    rw [bytes_cons]
    cases hc : isAsciiBlank c with
    | true =>
      obtain ⟨w, hw, hidx⟩ := ih
      have hascii := toNat_lt_of_isAsciiBlank hc
      refine ⟨c :: w, ?_, ?_⟩
      · rw [skipBlanks, List.dropWhile_cons_of_pos hc, List.cons_append, List.cons_inj_right]
        exact hw
      · rw [bytes_ascii hascii, List.singleton_append, List.findIdx_cons, hc, hidx, utf8Length, utf8Size_ascii hascii]
        simp [Nat.add_comm]
    | false =>
      refine ⟨[], ?_, ?_⟩
      · rw [skipBlanks, List.dropWhile_cons_of_neg (by rw [hc]; exact Bool.false_ne_true)]
        rfl
      · have hfirst : ∃ b bs, bytes [c] = b :: bs ∧ isAsciiBlank b = false := by
          by_cases hascii : c.toNat < 128
          · exact ⟨c, [], bytes_ascii hascii, hc⟩
          · obtain ⟨b, bs, hbytes, hb, -⟩ := exists_bytes_wide (Nat.le_of_not_lt hascii)
            exact ⟨b, bs, hbytes, not_isAsciiBlank_of_wide (Nat.le_trans (by decide) hb)⟩
        obtain ⟨b, bs, hbytes, hb⟩ := hfirst
        rw [hbytes, List.cons_append, List.findIdx_cons, hb]
        rfl

/-- after blanks a cursor has whole characters behind it -/
theorem pastBlanks_eq (u s : List Char) :
    ∃ w, s = w ++ skipBlanks s ∧ pastBlanks (bytes (u ++ s)) (utf8Length u) = utf8Length (u ++ w) := by
  obtain ⟨w, hw, hidx⟩ := findIdx_bytes s
  exact ⟨w, hw, by rw [pastBlanks, drop_bytes, hidx, utf8Length_append]⟩

/-- after blanks and a full stop, too -/
theorem pastStop_eq (u s : List Char) :
    ∃ w, s = w ++ skipStop s ∧ pastStop (bytes (u ++ s)) (utf8Length u) = utf8Length (u ++ w) := by
  obtain ⟨w, hw, hpast⟩ := pastBlanks_eq u s
  have hfirst : (bytes (u ++ s))[pastBlanks (bytes (u ++ s)) (utf8Length u)]? = some '.' ↔
      (skipBlanks s).head? = some '.' := by
    rw [hpast]
    conv_lhs => rw [hw, ← List.append_assoc, getElem?_bytes]
    exact head?_bytes_eq_some_iff (by decide)
  by_cases hstop : (skipBlanks s).head? = some '.'
  · obtain ⟨t, ht⟩ := List.head?_eq_some_iff.1 hstop
    have hskip : skipStop s = t := by simp [skipStop, ht]
    refine ⟨w ++ ['.'], ?_, ?_⟩
    · rw [hskip, List.append_assoc, List.singleton_append, ← ht]
      exact hw
    · rw [pastStop, if_pos (hfirst.2 hstop), hpast, ← List.append_assoc, utf8Length_append (u ++ w)]
      rfl
  · refine ⟨w, ?_, ?_⟩
    · unfold skipStop
      split
      · rename_i t ht
        rw [ht] at hstop
        exact absurd rfl hstop
      · exact hw
    · rw [pastStop, if_neg fun h => hstop (hfirst.1 h), hpast]

/-! ## Groups and rules -/

/-- the byte after an arrow and the blanks on its two sides, if there is an arrow at byte `i` -/
def arrowAt (text : List Char) (i : Nat) : Checked (Option Nat) := do
  let j := pastBlanks (bytes text) i
  let tail ← .step (from? j text)
  return if tail.take 2 = ['=', '>'] then some (pastBlanks (bytes text) (j + 2)) else none

/-- the rule whose first group has its braces at the bytes `i` and `close` and whose second starts at byte `j`, and the
byte after the rule -/
def ruleAt (text : List Char) (i close j : Nat) : Checked (RuleText × Nat) :=
  if (bytes text)[j]? = some '{' then do
    let close' ← closingBrace j none 0 j ((bytes text).drop j)
    let antecedent ← .step (between? (i + 1) close text)
    let consequent ← .step (between? (j + 1) close' text)
    return (⟨antecedent, consequent⟩, pastStop (bytes text) (close' + 1))
  else throw (.consequentNotFormula j)

/-- the rule whose first group starts at byte `i`, if this group is one of a rule, and the byte after the rule or the
group -/
def groupAt (text : List Char) (i : Nat) : Checked (Option RuleText × Nat) := do
  let close ← closingBrace i none 0 i ((bytes text).drop i)
  match ← arrowAt text (close + 1) with
  | none => return (none, close + 1)
  | some j =>
    let (rule, stop) ← ruleAt text i close j
    return (some rule, stop)

/-- the text from byte `i` on without its rules, behind what is left of the text from byte `copied` on, and its rules -/
def takeRulesAt (text : List Char) (quote : Option Quote) (i copied : Nat) : Checked Extract :=
  match _hi : (bytes text)[i]? with
  | none => do
    let rest ← .step (from? copied text)
    return ⟨rest, []⟩
  | some b =>
    if quote = none ∧ b = '}' then throw (.unbalancedBraces i)
    else if quote = none ∧ b = '{' then do
      let (rule, stop) ← groupAt text i
      if _h : i < stop then
        match rule with
        | none => takeRulesAt text none stop copied
        | some r => do
          let before ← .step (between? copied i text)
          let e ← takeRulesAt text none stop stop
          return ⟨before ++ " . ".toList ++ e.remainder, r :: e.rules⟩
      else .stuck
    else takeRulesAt text (quoteNext quote b) (i + 1) copied
termination_by (bytes text).length - i
decreasing_by
  all_goals
    have := (List.getElem?_eq_some_iff.1 _hi).1
    omega

/-- the brace that closes the group that starts behind `u` -/
theorem closingBrace_at (u t : List Char) :
    closingBrace (utf8Length u) none 0 (utf8Length u) ((bytes (u ++ '{' :: t)).drop (utf8Length u)) =
      .done (((closeGroup none 0 t).map fun g => utf8Length (u ++ '{' :: g.1)).elim
        (.error (.unbalancedBraces (utf8Length u))) .ok) := by
  rw [drop_bytes, bytes_cons, bytes_ascii (by decide), List.singleton_append, closingBrace, if_pos ⟨rfl, rfl⟩,
    closingBrace_eq _ isAsciiQuote_none]
  refine congrArg (fun x : Option Nat => Checked.done (x.elim _ .ok)) (congrArg (Option.map · _) ?_)
  funext g
  rw [utf8Length_append, utf8Length, Nat.add_assoc]
  rfl

/-- an arrow is seen where there is one, and what follows it is where the cursor stops -/
theorem arrowAt_eq (u after : List Char) :
    (afterArrow? after = none ∧ arrowAt (u ++ after) (utf8Length u) = .done (.ok none)) ∨
    ∃ w place, afterArrow? after = some place ∧ after = w ++ place ∧
      arrowAt (u ++ after) (utf8Length u) = .done (.ok (some (utf8Length (u ++ w)))) := by
  obtain ⟨w, hw, hpast⟩ := pastBlanks_eq u after
  have htail : from? (utf8Length (u ++ w)) (u ++ after) = some (skipBlanks after) := by
    refine from?_eq_some_iff.2 ⟨u ++ w, ?_, rfl⟩
    rw [List.append_assoc, ← hw]
  have harrow : arrowAt (u ++ after) (utf8Length u) = .done (.ok (if (skipBlanks after).take 2 = ['=', '>'] then
      some (pastBlanks (bytes (u ++ after)) (utf8Length (u ++ w) + 2)) else none)) := by
    rw [arrowAt, hpast, htail]
    rfl
  by_cases htwo : (skipBlanks after).take 2 = ['=', '>']
  · obtain ⟨t, ht⟩ : ∃ t, skipBlanks after = '=' :: '>' :: t :=
      ⟨(skipBlanks after).drop 2, by rw [← List.take_append_drop 2 (skipBlanks after), htwo]; simp⟩
    obtain ⟨w', hw', hpast'⟩ := pastBlanks_eq (u ++ (w ++ ['=', '>'])) t
    have hafter : after = w ++ ['=', '>'] ++ t := by
      rw [ht] at hw
      simpa using hw
    refine .inr ⟨w ++ ['=', '>'] ++ w', skipBlanks t, ?_, ?_, ?_⟩
    · exact afterArrow?_arrow ht
    · rw [List.append_assoc, ← hw', ← hafter]
    · have htext : u ++ after = u ++ (w ++ ['=', '>']) ++ t := by rw [hafter, List.append_assoc u]
      have hplace : utf8Length (u ++ w) + 2 = utf8Length (u ++ (w ++ ['=', '>'])) := by
        rw [← List.append_assoc, utf8Length_append (u ++ w)]
        rfl
      rw [harrow, if_pos htwo, hplace, htext, hpast', List.append_assoc u]
  · refine .inl ⟨?_, by rw [harrow, if_neg htwo]⟩
    refine afterArrow?_eq_none fun t ht => htwo ?_
    rw [ht]
    rfl

/-- a place in a text is told by the text from it on -/
theorem utf8Length_sub_append (u s : List Char) : utf8Length (u ++ s) - utf8Length s = utf8Length u := by
  rw [utf8Length_append, Nat.add_sub_cancel]

/-- the byte of the closing brace of a group, and the slice between its two braces -/
theorem group_bytes (u inside after : List Char) :
    utf8Length (u ++ '{' :: inside) + 1 = utf8Length (u ++ '{' :: (inside ++ ['}'])) ∧
      between? (utf8Length u + 1) (utf8Length (u ++ '{' :: inside)) (u ++ '{' :: (inside ++ '}' :: after)) =
        some inside := by
  constructor
  · rw [← List.cons_append, ← List.append_assoc, utf8Length_append (u ++ _)]
    rfl
  · refine between?_eq_some_iff.2 ⟨u ++ ['{'], '}' :: after, ?_, ?_, ?_⟩
    · rw [List.append_assoc, List.singleton_append]
    · rw [utf8Length_append]
      rfl
    · rw [List.append_assoc, List.singleton_append]

section Rule

variable {u : List Char} {i close : Nat} {inside : List Char}

/-- the second group of a rule ends it -/
theorem ruleAt_opening {t consequent rest : List Char} (hsecond : closeGroup none 0 t = some (consequent, rest))
    (hslice : between? (i + 1) close (u ++ '{' :: t) = some inside) :
    ∃ w, '{' :: t = w ++ skipStop rest ∧
      ruleAt (u ++ '{' :: t) i close (utf8Length u) = .done (.ok (⟨inside, consequent⟩, utf8Length (u ++ w))) := by
  rw [ruleAt, if_pos (getElem?_bytes_ascii (by decide) u t), closingBrace_at, hsecond]
  obtain rfl := closeGroup_eq_some hsecond
  obtain ⟨hclose, hconsequent⟩ := group_bytes u consequent rest
  obtain ⟨w, hw, hstop⟩ := pastStop_eq (u ++ '{' :: (consequent ++ ['}'])) rest
  have htext : u ++ '{' :: (consequent ++ ['}']) ++ rest = u ++ '{' :: (consequent ++ '}' :: rest) := by simp
  refine ⟨'{' :: (consequent ++ ['}']) ++ w, ?_, ?_⟩
  · rw [List.append_assoc, ← hw]
    simp
  · rw [htext, List.append_assoc u] at hstop
    simp only [Option.map_some, Option.elim_some, Checked.ok_bind, hslice, hconsequent, hclose, hstop]
    rfl

/-- without a closing brace there is no second group -/
theorem ruleAt_unclosed {t : List Char} (hsecond : closeGroup none 0 t = none) :
    ruleAt (u ++ '{' :: t) i close (utf8Length u) = .done (.error (.unbalancedBraces (utf8Length u))) := by
  rw [ruleAt, if_pos (getElem?_bytes_ascii (by decide) u t), closingBrace_at, hsecond]
  rfl

/-- without an opening brace there is no second group -/
theorem ruleAt_other {place : List Char} (hplace : ∀ t, place ≠ '{' :: t) :
    ruleAt (u ++ place) i close (utf8Length u) = .done (.error (.consequentNotFormula (utf8Length u))) := by
  rw [ruleAt, if_neg]
  · rfl
  · rw [getElem?_bytes, head?_bytes_eq_some_iff (by decide)]
    intro h
    obtain ⟨t, rfl⟩ := List.head?_eq_some_iff.1 h
    exact hplace t rfl

end Rule

/-- what a cursor comes to at an opening brace, for the text `s` from it on, behind `u`: a fault, a group that stays, or
a rule that is taken out, as in the text character by character -/
inductive BraceStep (u s : List Char) : Checked (Option RuleText × Nat) → Prop
  | fault (f : BraceFault) (hfault : takeRulesFrom none s = .error f) :
    BraceStep u s (.done (.error (f.toSyntaxError (utf8Length (u ++ s)))))
  | group (w v : List Char) (hs : s = w ++ v) (hne : w ≠ [])
    (hstays : takeRulesFrom none s = (takeRulesFrom none v).map (.behind w)) :
    BraceStep u s (.done (.ok (none, utf8Length (u ++ w))))
  | rule (w v : List Char) (r : RuleText) (hs : s = w ++ v) (hne : w ≠ [])
    (htaken : takeRulesFrom none s =
      (takeRulesFrom none v).map fun e => ⟨" . ".toList ++ e.remainder, r :: e.rules⟩) :
    BraceStep u s (.done (.ok (some r, utf8Length (u ++ w))))

/-- behind an arrow, the step is a rule or a fault -/
theorem braceStep_arrow {u t inside after w place : List Char} {close : Nat}
    (hfirst : closeGroup none 0 t = some (inside, after)) (harrow : afterArrow? after = some place)
    (hs : '{' :: t = w ++ place) (hne : w ≠ [])
    (hslice : between? (utf8Length u + 1) close (u ++ '{' :: t) = some inside) :
    BraceStep u ('{' :: t) (do
      let (rule, stop) ← ruleAt (u ++ '{' :: t) (utf8Length u) close (utf8Length (u ++ w))
      return (some rule, stop)) := by
  have htext : u ++ '{' :: t = u ++ w ++ place := by rw [hs, List.append_assoc]
  have hplace : utf8Length (u ++ '{' :: t) - utf8Length place = utf8Length (u ++ w) := by
    rw [htext, utf8Length_sub_append]
  by_cases hopens : ∃ v, place = '{' :: v
  · obtain ⟨v, rfl⟩ := hopens
    cases hsecond : closeGroup none 0 v with
    | none =>
      have hstep := BraceStep.fault (u := u) (.unbalanced ('{' :: v))
        (by simp [takeRulesFrom_opening, hfirst, harrow, hsecond] : takeRulesFrom none ('{' :: t) = _)
      rw [BraceFault.toSyntaxError, hplace] at hstep
      rw [htext, ruleAt_unclosed hsecond]
      exact hstep
    | some g =>
      obtain ⟨consequent, rest⟩ := g
      rw [htext] at hslice ⊢
      obtain ⟨w', hw', hrule⟩ := ruleAt_opening hsecond hslice
      rw [hrule, List.append_assoc u]
      refine .rule (w ++ w') (skipStop rest) _ ?_ ?_ (takeRulesFrom_rule hfirst harrow hsecond)
      · rw [hs, hw', List.append_assoc]
      · exact List.append_ne_nil_of_left_ne_nil hne w'
  · have hother : ∀ v, place ≠ '{' :: v := fun v hv => hopens ⟨v, hv⟩
    have hstep := BraceStep.fault (u := u) (.noConsequent place)
      (by simp [takeRulesFrom_opening, hfirst, harrow] : takeRulesFrom none ('{' :: t) = _)
    rw [BraceFault.toSyntaxError, hplace] at hstep
    rw [htext, ruleAt_other hother]
    exact hstep

/-- the step of a cursor at an opening brace -/
theorem braceStep_groupAt (u t : List Char) : BraceStep u ('{' :: t) (groupAt (u ++ '{' :: t) (utf8Length u)) := by
  rw [groupAt, closingBrace_at]
  cases hfirst : closeGroup none 0 t with
  | none =>
    have hstep := BraceStep.fault (u := u) (.unbalanced ('{' :: t)) (by rw [takeRulesFrom_opening, hfirst])
    rw [BraceFault.toSyntaxError, utf8Length_sub_append] at hstep
    exact hstep
  | some g =>
    obtain ⟨inside, after⟩ := g
    have ht := closeGroup_eq_some hfirst
    obtain ⟨hclose, hslice⟩ := group_bytes u inside after
    have hs : '{' :: t = '{' :: (inside ++ ['}']) ++ after := by simp [ht]
    have htext : u ++ '{' :: t = u ++ '{' :: (inside ++ ['}']) ++ after := by rw [hs, List.append_assoc]
    simp only [Option.map_some, Option.elim_some, Checked.ok_bind, hclose]
    rcases arrowAt_eq (u ++ '{' :: (inside ++ ['}'])) after with ⟨hnone, harrow⟩ | ⟨w, place, hplace, hafter, harrow⟩
    · rw [htext, harrow]
      exact .group _ after hs (List.cons_ne_nil _ _) (takeRulesFrom_group hfirst hnone)
    · rw [← htext, List.append_assoc u] at harrow
      simp only [harrow, Checked.ok_bind]
      refine braceStep_arrow hfirst hplace ?_ (List.cons_ne_nil _ _) (by rw [ht]; exact hslice)
      rw [hs, hafter, List.append_assoc]

/-! ## The whole text -/

/-- a byte that is no brace, or stands in a quote, is passed over -/
theorem takeRulesAt_byte {text : List Char} {quote : Option Quote} {i : Nat} {b : Char} (copied : Nat)
    (hb : (bytes text)[i]? = some b) (h : quote = none → b ≠ '{' ∧ b ≠ '}') :
    takeRulesAt text quote i copied = takeRulesAt text (quoteNext quote b) (i + 1) copied := by
  rw [takeRulesAt]
  split
  · simp_all
  · rename_i d hd
    obtain rfl : d = b := by simpa [hb] using hd.symm
    rw [if_neg fun hc => (h hc.1).2 hc.2, if_neg fun ho => (h ho.1).1 ho.2]

/-- so are the bytes of a character beyond ASCII -/
theorem takeRulesAt_wide {text bs rest : List Char} {quote : Option Quote} {i : Nat} (copied : Nat)
    (hbs : ∀ b ∈ bs, IsWide b) (hdrop : (bytes text).drop i = bs ++ rest) :
    takeRulesAt text quote i copied = takeRulesAt text (bs.foldl quoteNext quote) (i + bs.length) copied := by
  induction bs generalizing quote i with
  | nil => rfl
  | cons b bs ih =>
    have hb := hbs b List.mem_cons_self
    rw [takeRulesAt_byte copied (getElem?_of_drop hdrop) fun _ => ⟨hb.ne (by decide), hb.ne (by decide)⟩,
      ih (fun d hd => hbs d (List.mem_cons_of_mem b hd)) (drop_succ_of_drop hdrop), List.foldl_cons, List.length_cons,
      Nat.add_assoc, Nat.add_comm 1]

/-- a character that is no brace, or stands in a quote, is passed over -/
theorem takeRulesAt_char {quote : Option Quote} {c : Char} (h : quote = none → c ≠ '{' ∧ c ≠ '}')
    (hq : IsAsciiQuote quote) (u s : List Char) (copied : Nat) :
    takeRulesAt (u ++ c :: s) quote (utf8Length u) copied =
      takeRulesAt (u ++ c :: s) (quoteNext quote c) (utf8Length (u ++ [c])) copied := by
  have hdrop : (bytes (u ++ c :: s)).drop (utf8Length u) = bytes [c] ++ bytes s := by rw [drop_bytes, bytes_cons]
  have hsize : utf8Length (u ++ [c]) = utf8Length u + (bytes [c]).length := by rw [utf8Length_append, length_bytes]
  rw [← foldl_quoteNext_bytes hq, hsize]
  by_cases hc : c.toNat < 128
  · rw [bytes_ascii hc] at hdrop ⊢
    exact takeRulesAt_byte copied (getElem?_of_drop hdrop) h
  · exact takeRulesAt_wide copied (isWide_of_mem_bytes (Nat.le_of_not_lt hc)) hdrop

/-- where the text ends, what is left of it is there -/
theorem takeRulesAt_end (quote : Option Quote) (u kept : List Char) :
    takeRulesAt (u ++ kept) quote (utf8Length (u ++ kept)) (utf8Length u) = .done (.ok ⟨kept, []⟩) := by
  have hnone : (bytes (u ++ kept))[utf8Length (u ++ kept)]? = none := by
    rw [← length_bytes]
    exact List.getElem?_eq_none (Nat.le_refl _)
  rw [takeRulesAt]
  split
  · rw [from?_eq_some_iff.2 ⟨u, rfl, rfl⟩]
    rfl
  · simp_all

/-- a closing brace that no group is open for is a fault -/
theorem takeRulesAt_closing (u s : List Char) (copied : Nat) :
    takeRulesAt (u ++ '}' :: s) none (utf8Length u) copied = .done (.error (.unbalancedBraces (utf8Length u))) := by
  have hbyte : (bytes (u ++ '}' :: s))[utf8Length u]? = some '}' := getElem?_bytes_ascii (by decide) u s
  rw [takeRulesAt]
  split
  · simp_all
  · rename_i b hb
    obtain rfl : b = '}' := by simpa [hbyte] using hb.symm
    rfl

/-- at an opening brace the cursor jumps -/
theorem takeRulesAt_opening (u s : List Char) (copied : Nat) :
    takeRulesAt (u ++ '{' :: s) none (utf8Length u) copied =
      (groupAt (u ++ '{' :: s) (utf8Length u) >>= fun (rule, stop) =>
        if utf8Length u < stop then
          match rule with
          | none => takeRulesAt (u ++ '{' :: s) none stop copied
          | some r => do
            let before ← .step (between? copied (utf8Length u) (u ++ '{' :: s))
            let e ← takeRulesAt (u ++ '{' :: s) none stop stop
            return ⟨before ++ " . ".toList ++ e.remainder, r :: e.rules⟩
        else .stuck) := by
  have hbyte : (bytes (u ++ '{' :: s))[utf8Length u]? = some '{' := getElem?_bytes_ascii (by decide) u s
  rw [takeRulesAt]
  split
  · simp_all
  · rename_i b hb
    obtain rfl : b = '{' := by simpa [hbyte] using hb.symm
    rw [if_neg (by decide), if_pos ⟨rfl, rfl⟩]
    rfl

theorem utf8Length_lt_append (u : List Char) {w : List Char} (hne : w ≠ []) : utf8Length u < utf8Length (u ++ w) := by
  obtain ⟨c, w, rfl⟩ := List.exists_cons_of_ne_nil hne
  rw [utf8Length_append]
  exact Nat.lt_add_of_pos_right (utf8Length_cons_pos c w)

/-- from a place on that has whole characters behind it, the cursors find what is found character by character -/
theorem takeRulesAt_eq_from {quote : Option Quote} (hq : IsAsciiQuote quote) (u kept s : List Char) :
    takeRulesAt (u ++ kept ++ s) quote (utf8Length (u ++ kept)) (utf8Length u) =
      .done (((takeRulesFrom quote s).map (.behind kept)).mapError
        (BraceFault.toSyntaxError (utf8Length (u ++ kept ++ s)))) := by
  -- a jump leads to any place ahead, so the induction is on what is left of the text
  induction hn : s.length using Nat.strong_induction_on generalizing quote u kept s with
  | _ n ih =>
    cases s with
    | nil =>
      rw [List.append_nil, takeRulesAt_end, takeRulesFrom]
      simp [Extract.behind, Except.map, Except.mapError]
    | cons c t =>
      by_cases hopen : quote = none ∧ c = '{'
      · obtain ⟨rfl, rfl⟩ := hopen
        have hstep := braceStep_groupAt (u ++ kept) t
        have hshorter : ∀ {w v : List Char}, '{' :: t = w ++ v → w ≠ [] → v.length < n := by
          intro w v hs hne
          rw [← hn, hs, List.length_append]
          exact Nat.lt_add_of_pos_left (List.length_pos_of_ne_nil hne)
        rw [takeRulesAt_opening]
        generalize groupAt (u ++ kept ++ '{' :: t) (utf8Length (u ++ kept)) = x at hstep
        cases hstep with
        | fault f hfault =>
          rw [Checked.error_bind, hfault]
          rfl
        | group w v hs hne hstays =>
          have htext : u ++ kept ++ '{' :: t = u ++ (kept ++ w) ++ v := by simp [hs]
          have hplace : u ++ kept ++ w = u ++ (kept ++ w) := List.append_assoc u kept w
          simp only [Checked.ok_bind]
          rw [if_pos (utf8Length_lt_append _ hne), hstays, map_behind, htext, hplace]
          exact ih v.length (hshorter hs hne) isAsciiQuote_none u (kept ++ w) v rfl
        | rule w v r hs hne htaken =>
          have htext : u ++ kept ++ '{' :: t = u ++ kept ++ w ++ v := by simp [hs]
          have hrest := ih v.length (hshorter hs hne) isAsciiQuote_none (u ++ kept ++ w) [] v rfl
          have hslice : between? (utf8Length u) (utf8Length (u ++ kept)) (u ++ kept ++ '{' :: t) = some kept :=
            between?_eq_some_iff.2 ⟨u, '{' :: t, List.append_assoc u kept _, rfl, rfl⟩
          rw [List.append_nil, ← htext, map_behind_nil] at hrest
          simp only [Checked.ok_bind]
          rw [if_pos (utf8Length_lt_append _ hne), hslice, htaken, hrest]
          cases takeRulesFrom none v with
          | error f => rfl
          | ok e =>
            change Checked.done (Except.ok (Extract.mk (kept ++ " . ".toList ++ e.remainder) (r :: e.rules))) = _
            rw [List.append_assoc]
            rfl
      by_cases hclose : quote = none ∧ c = '}'
      · obtain ⟨rfl, rfl⟩ := hclose
        rw [takeRulesAt_closing, takeRulesFrom, if_pos ⟨rfl, rfl⟩]
        simp only [Except.map, Except.mapError, BraceFault.toSyntaxError, utf8Length_sub_append]
      · have hplain : quote = none → c ≠ '{' ∧ c ≠ '}' := fun h => ⟨fun hc => hopen ⟨h, hc⟩, fun hc => hclose ⟨h, hc⟩⟩
        have htext : u ++ kept ++ c :: t = u ++ (kept ++ [c]) ++ t := by simp
        have hplace : u ++ kept ++ [c] = u ++ (kept ++ [c]) := List.append_assoc u kept [c]
        rw [takeRulesAt_char hplain hq, takeRulesFrom_char hplain, map_behind, htext, hplace]
        exact ih t.length (by simp [← hn]) (hq.next c) u (kept ++ [c]) t rfl

/-- **Cursors.** On every text the cursors find what is found character by character, and are never stuck. -/
theorem takeRulesAt_eq (s : List Char) : takeRulesAt s none 0 0 = .done (takeRules s) := by
  have h := takeRulesAt_eq_from isAsciiQuote_none [] [] s
  rwa [map_behind_nil] at h

end N3Rules.Text
