/-
The braces of a text, by their places in it.

A character counts when no quote is open before it; a quote ends at the next mark of its kind that has an even number of
backslashes right before it. The level of a place is how many braces before it are opened, less those that are closed; it
moves by at most one from a place to the next. Two braces are partners when the level comes back at the second one for the
first time. Everything else follows from levels.

- `quoteAt_eq`: the scans, which keep track of escapes one character at a time, have the same quotes open;
- `Partners.right_unique`, `Partners.right_lt`: a brace has one partner, and partners nest;
- `Partners.exists_partner`: a brace between two partners has a partner there;
- `exists_of_closeGroup`, `level_of_closeGroup`: `closeGroup` finds the partner, or the level never comes back.
-/
import Mathlib.Order.Nat
import N3Rules.Proofs.Text.Groups

namespace N3Rules.Text

/-! ## Places and levels -/

/-- the text from place `a` to before place `b` -/
def slice (s : List Char) (a b : Nat) : List Char :=
  (s.drop a).take (b - a)

/-- how many backslashes stand right before a place -/
def backslashes (s : List Char) : Nat → Nat
  | 0 => 0
  | n + 1 => if s[n]? = some '\\' then backslashes s n + 1 else 0

/-- the mark of the quote that is open before a place -/
def openMark? (s : List Char) : Nat → Option Char
  | 0 => none
  | n + 1 =>
    match openMark? s n with
    | none => if s[n]? = some '"' ∨ s[n]? = some apostrophe then s[n]? else none
    | some mark => if s[n]? = some mark ∧ Even (backslashes s n) then none else some mark

/-- the character at a place, if there is one and no quote is open before it -/
def visible? (s : List Char) (n : Nat) : Option Char :=
  if openMark? s n = none then s[n]? else none

/-- how many braces are opened before a place, less those that are closed -/
def level (s : List Char) : Nat → Int
  | 0 => 0
  | n + 1 =>
    match visible? s n with
    | some '{' => level s n + 1
    | some '}' => level s n - 1
    | _ => level s n

/-- the brace that is opened at `i` is closed at `j`: there the level first comes back -/
structure Partners (s : List Char) (i j : Nat) : Prop where
  opening : visible? s i = some '{'
  lt : i < j
  back : level s (j + 1) = level s i
  above : ∀ k, i < k → k ≤ j → level s i < level s k

section Places

variable {s : List Char} {n i j : Nat} {c : Char}

theorem slice_append_drop {a b : Nat} (h : a ≤ b) : slice s a b ++ s.drop b = s.drop a := by
  have hdrop : s.drop b = (s.drop a).drop (b - a) := by rw [List.drop_drop, Nat.add_sub_cancel' h]
  rw [hdrop, slice, List.take_append_drop]

theorem slice_append {a b d : Nat} (hab : a ≤ b) (hbd : b ≤ d) : slice s a b ++ slice s b d = slice s a d := by
  have hsum : d - a = (b - a) + (d - b) := by omega
  rw [slice, slice, slice, hsum, List.take_add, List.drop_drop, Nat.add_sub_cancel' hab]

/-- the text from a place on, where it has a character -/
theorem getElem?_of_drop {t : List Char} (h : s.drop n = c :: t) : s[n]? = some c := by
  rw [← List.head?_drop, h]
  rfl

theorem drop_succ_of_drop {t : List Char} (h : s.drop n = c :: t) : s.drop (n + 1) = t := by
  rw [← List.tail_drop, h]
  rfl

theorem drop_of_getElem? (h : s[n]? = some c) : s.drop n = c :: s.drop (n + 1) := by
  obtain ⟨hn, rfl⟩ := List.getElem?_eq_some_iff.1 h
  exact List.drop_eq_getElem_cons hn

theorem slice_of_drop {t : List Char} (h : s.drop n = c :: t) (hj : n < j) : slice s n j = c :: slice s (n + 1) j := by
  obtain ⟨d, rfl⟩ := Nat.exists_eq_add_of_lt hj
  have hsucc : n + d + 1 - n = d + 1 := by omega
  have hrest : n + d + 1 - (n + 1) = d := by omega
  rw [slice, slice, h, drop_succ_of_drop h, hsucc, hrest, List.take_succ_cons]

/-- the mark of a quote is no backslash -/
theorem openMark?_ne_backslash {mark : Char} (h : openMark? s n = some mark) : mark ≠ '\\' := by
  induction n with
  | zero => cases h
  | succ n ih =>
    rw [openMark?] at h
    split at h
    · split_ifs at h with hmark
      rcases hmark with hmark | hmark <;> obtain rfl := Option.some.inj (h.symm.trans hmark) <;> decide
    · rename_i mark' hopen
      split_ifs at h
      exact ih (hopen.trans h)

/-- the quote that a scan has open after one more character -/
def quoteNext (quote : Option Quote) (c : Char) : Option Quote :=
  (quote.map (·.feed c)).getD (Quote.opening? c)

/-- the quote that a scan has open before a place -/
def quoteAt (s : List Char) (n : Nat) : Option Quote :=
  (s.take n).foldl quoteNext none

theorem quoteAt_succ (h : s[n]? = some c) : quoteAt s (n + 1) = quoteNext (quoteAt s n) c := by
  rw [quoteAt, List.take_add_one, h, List.foldl_append]
  rfl

/-- a scan has the right quote open, and its next character escaped after an odd number of backslashes -/
theorem quoteAt_eq (h : n ≤ s.length) :
    quoteAt s n = (openMark? s n).map fun mark => ⟨mark, decide (¬Even (backslashes s n))⟩ := by
  induction n with
  | zero => rfl
  | succ n ih =>
    obtain ⟨c, hc⟩ : ∃ c, s[n]? = some c := ⟨s[n], List.getElem?_eq_getElem h⟩
    rw [quoteAt_succ hc, ih (by omega)]
    cases hopen : openMark? s n with
    | none =>
      -- a quote that opens here has no backslash in it yet
      simp only [openMark?, hopen, hc, Option.some.injEq, Option.map_none, quoteNext, Option.getD_none, Quote.opening?]
      split_ifs with hmark
      · have hne : c ≠ '\\' := by rcases hmark with rfl | rfl <;> decide
        simp [backslashes, hc, hne]
      · rfl
    | some mark =>
      have hmark := openMark?_ne_backslash hopen
      simp only [openMark?, hopen, hc, Option.some.injEq, Option.map_some, quoteNext, Option.getD_some, Quote.feed,
        backslashes]
      by_cases heven : Even (backslashes s n)
      · by_cases hslash : c = '\\'
        · simp [heven, hslash, hmark.symm, Nat.even_add_one]
        · by_cases hend : c = mark
          · simp [heven, hend, hmark]
          · simp [heven, hslash, hend]
      · by_cases hslash : c = '\\'
        · simp [heven, hslash, Nat.even_add_one]
        · simp [heven, hslash]

theorem quoteAt_eq_none_iff (h : s[n]? = some c) : quoteAt s n = none ↔ openMark? s n = none := by
  have hn := (List.getElem?_eq_some_iff.1 h).1
  rw [quoteAt_eq hn.le, Option.map_eq_none_iff]

theorem visible?_of_quoteAt (hq : quoteAt s n = none) : visible? s n = s[n]? := by
  cases hc : s[n]? with
  | none => simp [visible?, hc]
  | some c => rw [visible?, if_pos ((quoteAt_eq_none_iff hc).1 hq), hc]

theorem quoteAt_of_visible? (h : visible? s n = some c) : quoteAt s n = none ∧ s[n]? = some c := by
  rw [visible?] at h
  split_ifs at h with hopen
  exact ⟨(quoteAt_eq_none_iff h).2 hopen, h⟩

theorem level_succ_of_opening (h : visible? s n = some '{') : level s (n + 1) = level s n + 1 := by
  simp [level, h]

theorem level_succ_of_closing (h : visible? s n = some '}') : level s (n + 1) = level s n - 1 := by
  simp [level, h]

theorem level_succ_of_plain (ho : visible? s n ≠ some '{') (hc : visible? s n ≠ some '}') :
    level s (n + 1) = level s n := by
  rw [level]
  split <;> simp_all

/-- the level goes up by one at a brace that opens, down by one at a brace that closes, and stays elsewhere -/
theorem level_step (s : List Char) (n : Nat) :
    (visible? s n = some '{' ∧ level s (n + 1) = level s n + 1) ∨
    (visible? s n = some '}' ∧ level s (n + 1) = level s n - 1) ∨
    (visible? s n ≠ some '{' ∧ visible? s n ≠ some '}' ∧ level s (n + 1) = level s n) := by
  by_cases ho : visible? s n = some '{'
  · exact .inl ⟨ho, level_succ_of_opening ho⟩
  · by_cases hc : visible? s n = some '}'
    · exact .inr (.inl ⟨hc, level_succ_of_closing hc⟩)
    · exact .inr (.inr ⟨ho, hc, level_succ_of_plain ho hc⟩)

end Places

/-! ## Partners -/

section Partners

variable {s : List Char} {i j : Nat}

/-- the partner of an opening brace closes -/
theorem Partners.closing (h : Partners s i j) : visible? s j = some '}' := by
  have hlevel := h.above j h.lt le_rfl
  have hback := h.back
  rcases level_step s j with ⟨-, hstep⟩ | ⟨hc, -⟩ | ⟨-, -, hstep⟩
  · omega
  · exact hc
  · omega

/-- an opening brace has one partner -/
theorem Partners.right_unique (h : Partners s i j) {k : Nat} (h' : Partners s i k) : j = k := by
  have hlevel := h.back
  have hlevel' := h'.back
  have hlt := h.lt
  have hlt' := h'.lt
  rcases lt_trichotomy j k with hjk | rfl | hkj
  · have := h'.above (j + 1) (by omega) hjk
    omega
  · rfl
  · have := h.above (k + 1) (by omega) hkj
    omega

/-- partners nest: what opens between two partners is closed between them -/
theorem Partners.right_lt (h : Partners s i j) {a b : Nat} (h' : Partners s a b) (hia : i < a) (haj : a ≤ j) :
    b < j := by
  have hup := h.above a hia haj
  have hback := h.back
  have hback' := h'.back
  by_contra! hjb
  rcases hjb.eq_or_lt with rfl | hlt
  · omega
  · have := h'.above (j + 1) (by omega) hlt
    omega

/-- an opening brace has a partner, if the level ever comes back -/
theorem exists_partner_of_opening (hi : visible? s i = some '{') (hj : i < j) (hback : level s (j + 1) ≤ level s i) :
    ∃ k, Partners s i k := by
  have hex : ∃ k, i < k ∧ level s (k + 1) ≤ level s i := ⟨j, hj, hback⟩
  classical
  -- the first place after the brace where the level comes back
  obtain ⟨hlt, hle⟩ := Nat.find_spec hex
  have hup := level_succ_of_opening hi
  have habove : ∀ k, i < k → k ≤ Nat.find hex → level s i < level s k := by
    intro k hik hk
    obtain ⟨k, rfl⟩ : ∃ k', k = k' + 1 := ⟨k - 1, by omega⟩
    by_cases hik' : k = i
    · subst hik'
      omega
    · have := Nat.find_min hex (m := k) (by omega)
      omega
  refine ⟨Nat.find hex, hi, hlt, ?_, habove⟩
  have hlast := habove _ hlt le_rfl
  rcases level_step s (Nat.find hex) with ⟨-, hstep⟩ | ⟨-, hstep⟩ | ⟨-, -, hstep⟩ <;> omega

/-- a closing brace has a partner, if the level was ever as low before it as it is after it -/
theorem exists_partner_of_closing (hj : visible? s j = some '}') (hi : i < j) (hlow : level s i ≤ level s (j + 1)) :
    ∃ k, Partners s k j := by
  classical
  -- the last place before the brace where the level is so low
  set k := Nat.findGreatest (fun k => level s k ≤ level s (j + 1)) (j - 1) with hk
  have hle : level s k ≤ level s (j + 1) :=
    Nat.findGreatest_spec (P := fun k => level s k ≤ level s (j + 1)) (show i ≤ j - 1 by omega) hlow
  have hkj : k ≤ j - 1 := Nat.findGreatest_le _
  have hdown := level_succ_of_closing hj
  have habove : ∀ a, k < a → a ≤ j → level s (j + 1) < level s a := by
    intro a hka haj
    by_cases ha : a = j
    · subst ha
      omega
    · have := Nat.findGreatest_is_greatest (P := fun k => level s k ≤ level s (j + 1)) (n := j - 1) (k := a)
        (by omega) (by omega)
      omega
  have hfirst := habove (k + 1) (by omega) (by omega)
  rcases level_step s k with ⟨ho, hstep⟩ | ⟨-, hstep⟩ | ⟨-, -, hstep⟩
  · have hback : level s (j + 1) = level s k := by omega
    exact ⟨k, ho, by omega, hback, fun a ha haj => hback ▸ habove a ha haj⟩
  · omega
  · omega

/-- every brace from the second of two partners back to the first has a partner -/
theorem Partners.exists_partner (h : Partners s i j) {a : Nat} (hia : i < a) (haj : a ≤ j) :
    (visible? s a = some '{' → ∃ b, Partners s a b) ∧ (visible? s a = some '}' → ∃ b, Partners s b a) := by
  have hlevel := h.above a hia haj
  refine ⟨fun ha => ?_, fun ha => ?_⟩
  · have hne : a ≠ j := by
      rintro rfl
      simp [h.closing] at ha
    exact exists_partner_of_opening ha (by omega : a < j) (by rw [h.back]; omega)
  · have hdown := level_succ_of_closing ha
    exact exists_partner_of_closing ha hia (by omega)

end Partners

/-! ## The end of a group -/

section CloseGroup

variable {s : List Char}

/-- a character that opens and closes no group is inside it -/
theorem closeGroup_char {quote : Option Quote} {c : Char} (h : quote = none → c ≠ '{' ∧ c ≠ '}') (depth : Nat)
    (t : List Char) :
    closeGroup quote depth (c :: t) = (closeGroup (quoteNext quote c) depth t).map fun g => (c :: g.1, g.2) := by
  cases quote with
  | some q => simp [closeGroup, quoteNext]
  | none => simp [closeGroup, quoteNext, h rfl]

/-- one step of `closeGroup`: the group ends here, or goes on as deep as the level says -/
theorem closeGroup_step {n : Nat} {c : Char} {t : List Char} (h : s.drop n = c :: t) (depth : Nat) :
    (visible? s n = some '}' ∧ depth = 0 ∧ closeGroup (quoteAt s n) depth (s.drop n) = some ([], s.drop (n + 1))) ∨
    ∃ depth' : Nat, level s (n + 1) + depth = level s n + depth' ∧
      closeGroup (quoteAt s n) depth (s.drop n) =
        (closeGroup (quoteAt s (n + 1)) depth' (s.drop (n + 1))).map fun g => (c :: g.1, g.2) := by
  have hc := getElem?_of_drop h
  rw [quoteAt_succ hc, drop_succ_of_drop h, h]
  rcases level_step s n with ⟨hopen, hstep⟩ | ⟨hclose, hstep⟩ | ⟨hopen, hclose, hstep⟩
  · obtain ⟨hq, hbrace⟩ := quoteAt_of_visible? hopen
    obtain rfl : '{' = c := Option.some.inj (hbrace.symm.trans hc)
    exact .inr ⟨depth + 1, by omega, by rw [hq]; rfl⟩
  · obtain ⟨hq, hbrace⟩ := quoteAt_of_visible? hclose
    obtain rfl : '}' = c := Option.some.inj (hbrace.symm.trans hc)
    cases depth with
    | zero => exact .inl ⟨hclose, rfl, by rw [hq]; rfl⟩
    | succ depth => exact .inr ⟨depth, by omega, by rw [hq]; rfl⟩
  · refine .inr ⟨depth, by omega, closeGroup_char (fun hq => ?_) depth t⟩
    rw [visible?_of_quoteAt hq, hc] at hopen hclose
    exact ⟨fun he => hopen (congrArg some he), fun he => hclose (congrArg some he)⟩

/-- where `closeGroup` ends: at a brace that closes, `depth + 1` levels down, and no place before is so low -/
theorem exists_of_closeGroup {n depth : Nat} {inside after : List Char}
    (h : closeGroup (quoteAt s n) depth (s.drop n) = some (inside, after)) :
    ∃ j, n ≤ j ∧ visible? s j = some '}' ∧ inside = slice s n j ∧ after = s.drop (j + 1) ∧
      level s (j + 1) + depth + 1 = level s n ∧ ∀ k, n ≤ k → k ≤ j → level s n ≤ level s k + depth := by
  induction ht : s.drop n generalizing n depth inside with
  | nil => simp [ht, closeGroup] at h
  | cons c t ih =>
    rcases closeGroup_step ht depth with ⟨hclose, rfl, hend⟩ | ⟨depth', hlevel, hstep⟩
    · have hdown := level_succ_of_closing hclose
      rw [hend] at h
      obtain ⟨rfl, rfl⟩ : [] = inside ∧ s.drop (n + 1) = after := by simpa using h
      refine ⟨n, le_rfl, hclose, by simp [slice], rfl, by omega, fun k hk hk' => ?_⟩
      rw [le_antisymm hk hk']
      omega
    · rw [hstep, Option.map_eq_some_iff] at h
      obtain ⟨⟨inside', after'⟩, hgroup, hpair⟩ := h
      obtain ⟨rfl, rfl⟩ : c :: inside' = inside ∧ after' = after := by simpa using hpair
      obtain ⟨j, hnj, hclose, rfl, hafter, hback, habove⟩ := ih hgroup (drop_succ_of_drop ht)
      refine ⟨j, by omega, hclose, (slice_of_drop ht hnj).symm, hafter, by omega, fun k hk hk' => ?_⟩
      rcases hk.eq_or_lt with rfl | hlt
      · omega
      · have := habove k hlt hk'
        omega

/-- where `closeGroup` does not end, no place is `depth + 1` levels down -/
theorem level_of_closeGroup {n depth : Nat} (h : closeGroup (quoteAt s n) depth (s.drop n) = none) {k : Nat}
    (hk : n ≤ k) : level s n ≤ level s k + depth := by
  induction ht : s.drop n generalizing n depth with
  | nil =>
    -- after the end of the text the level stays
    induction k, hk using Nat.le_induction with
    | base => omega
    | succ k hk ih =>
      have hnone : s[k]? = none := List.getElem?_eq_none (le_trans (List.drop_eq_nil_iff.1 ht) hk)
      rwa [level_succ_of_plain (by simp [visible?, hnone]) (by simp [visible?, hnone])]
  | cons c t ih =>
    rcases closeGroup_step ht depth with ⟨-, -, hend⟩ | ⟨depth', hlevel, hstep⟩
    · simp [hend] at h
    · rw [hstep, Option.map_eq_none_iff] at h
      rcases hk.eq_or_lt with rfl | hlt
      · omega
      · have := ih h hlt (drop_succ_of_drop ht)
        omega

/-- **The partner of an opening brace, and what `closeGroup` returns for it.** Where there is no partner, it returns
nothing. -/
theorem closeGroup_opening {i : Nat} (hi : visible? s i = some '{') :
    (closeGroup none 0 (s.drop (i + 1)) = none ∧ ∀ j, ¬Partners s i j) ∨
    ∃ j, Partners s i j ∧ closeGroup none 0 (s.drop (i + 1)) = some (slice s (i + 1) j, s.drop (j + 1)) ∧
      quoteAt s (j + 1) = none := by
  have hup := level_succ_of_opening hi
  obtain ⟨hq, hbrace⟩ := quoteAt_of_visible? hi
  have hnext : quoteAt s (i + 1) = none := by
    rw [quoteAt_succ hbrace, hq]
    rfl
  have hquoted : closeGroup none 0 (s.drop (i + 1)) = closeGroup (quoteAt s (i + 1)) 0 (s.drop (i + 1)) := by rw [hnext]
  rw [hquoted]
  cases hgroup : closeGroup (quoteAt s (i + 1)) 0 (s.drop (i + 1)) with
  | none =>
    refine .inl ⟨rfl, fun j hj => ?_⟩
    have hlow := level_of_closeGroup hgroup (k := j + 1) (by have := hj.lt; omega)
    have hback := hj.back
    omega
  | some g =>
    obtain ⟨j, hij, hclose, hinside, hafter, hback, habove⟩ := exists_of_closeGroup hgroup
    obtain ⟨hq', hbrace'⟩ := quoteAt_of_visible? hclose
    refine .inr ⟨j, ⟨hi, hij, by omega, fun k hk hk' => ?_⟩, ?_, ?_⟩
    · have := habove k hk hk'
      omega
    · rw [← hinside, ← hafter]
    · rw [quoteAt_succ hbrace', hq']
      rfl

end CloseGroup

end N3Rules.Text
