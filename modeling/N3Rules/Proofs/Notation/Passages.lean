/-
Passages: texts that are read alike wherever they stand among others.

A passage leaves nothing open and ends in a full stop. It is scanned for its layout, then for the braces of its rules, and,
when the rules are out of it, for the places to cut at; and each scan comes back to where it started. So a text of several
passages has the statements and the rules of the passages, in order. What the statements say hangs on the directives among
them, but not on where these stand, so a directive may stand anywhere.

- `IsPassage`: what the scans have to find;
- `compact_passages`: passages with spaces between them are compacted one by one;
- `statements_append`, `parts?_append`: what follows a passage is cut, and taken apart, as it is without it;
- `parts?_passages`: the statements and the rules of several passages;
- `IsDirectiveText`, `Document.ofText_insertIdx`: wherever a directive is put among passages, it is as if it stood first.
-/
import N3Rules.Proofs.Notation.Gaps
import N3Rules.Proofs.Notation.Scopes
import N3Rules.Proofs.Text.Balanced
import N3Rules.Proofs.Text.Rejoined

namespace N3Rules

namespace Text

/-! ## Open quotes -/

/-- one of the two marks opened the quote -/
def Quote.IsMarked (q : Quote) : Prop :=
  q.mark = '"' ∨ q.mark = apostrophe

theorem Quote.isMarked_of_opening {c : Char} : ∀ q ∈ Quote.opening? c, q.IsMarked := by
  intro q hq
  unfold Quote.opening? at hq
  split at hq
  · cases hq
    assumption
  · cases hq

theorem Quote.IsMarked.feed {q : Quote} (h : q.IsMarked) (c : Char) : ∀ q' ∈ q.feed c, q'.IsMarked := by
  intro q' hq'
  rw [Quote.IsMarked, Quote.mark_of_feed hq']
  exact h

/-- a full stop closes no quote -/
theorem Quote.IsMarked.feed_stop {q : Quote} (h : q.IsMarked) : q.feed '.' ≠ none := by
  intro hclosed
  have hmark := Quote.eq_mark_of_feed hclosed
  rcases h with h | h <;> exact absurd (hmark.trans h) (by decide)

/-! ## Layout -/

/-- a quote that is open in the layout was opened by one of the two marks -/
def Layout.IsMarked (l : Layout) : Prop :=
  ∀ q, l = .quoted q → q.IsMarked

theorem Layout.isMarked_getD {quote : Option Quote} (h : ∀ q ∈ quote, q.IsMarked) :
    ((quote.map Layout.quoted).getD .plain).IsMarked := by
  intro q hq
  cases quote with
  | none => cases hq
  | some q' =>
    cases hq
    exact h q rfl

theorem Layout.IsMarked.feed {l : Layout} (h : l.IsMarked) (c : Char) (next : Option Char) :
    (l.feed c next).IsMarked := by
  cases l with
  | quoted q => exact Layout.isMarked_getD ((h q rfl).feed c)
  | iri =>
    intro q hq
    simp only [Layout.feed] at hq
    split at hq <;> cases hq
  | comment =>
    intro q hq
    simp only [Layout.feed] at hq
    split at hq <;> cases hq
  | plain =>
    simp only [Layout.feed]
    split_ifs
    · intro q hq
      cases hq
    · intro q hq
      cases hq
    · exact Layout.isMarked_getD Quote.isMarked_of_opening

theorem Layout.IsMarked.after {l : Layout} (h : l.IsMarked) (next : Option Char) (s : List Char) :
    (l.after next s).IsMarked := by
  induction s generalizing l with
  | nil => exact h
  | cons c s ih => exact ih (h.feed c _)

/-- a full stop closes no quote, reference or comment -/
theorem Layout.IsMarked.plain_of_stop {l : Layout} (h : l.IsMarked) {next : Option Char}
    (hfeed : l.feed '.' next = .plain) : l = .plain := by
  cases l with
  | quoted q =>
    obtain ⟨q', hq'⟩ := Option.ne_none_iff_exists'.1 (h q rfl).feed_stop
    simp [Layout.feed, hq'] at hfeed
  | iri => simp [Layout.feed] at hfeed
  | comment => simp [Layout.feed] at hfeed
  | plain => rfl

theorem Layout.after_append (l : Layout) (next : Option Char) (s t : List Char) :
    l.after next (s ++ t) = (l.after (t.head?.or next) s).after next t := by
  induction s generalizing l with
  | nil => rfl
  | cons c s ih =>
    rw [List.cons_append, Layout.after, Layout.after, ih, List.head?_append, Option.or_assoc]

section Layout

variable {s : List Char} (hlayout : Layout.plain.after (some ' ') s = .plain) (hlast : s.getLast? = some '.')

include hlayout hlast

/-- a text that leaves its layout plain and ends in a full stop keeps it -/
theorem getLast?_squeeze (gap : Bool) : (squeeze .plain gap s).getLast? = some '.' := by
  obtain ⟨u, rfl⟩ := List.getLast?_eq_some_iff.1 hlast
  rw [Layout.after_append] at hlayout
  have hmarked : Layout.plain.IsMarked := fun q hq => by cases hq
  have hplain := (hmarked.after _ u).plain_of_stop hlayout
  have hstop : ∀ gap, squeeze .plain gap ['.'] = ['.'] := fun gap => isCompact_char rfl (by decide) rfl gap []
  have hsplit := squeeze_append .plain gap u ['.']
  rw [List.head?_cons] at hplain hsplit
  rw [hsplit, show Layout.plain.after (some '.') u = .plain from hplain, hstop, List.getLast?_append]
  rfl

theorem compact_eq_squeeze : compact s = squeeze .plain true s := by
  refine trimEnd_eq_self ?_
  intro c hc
  rw [getLast?_squeeze hlayout hlast] at hc
  cases hc
  decide

/-- a text that leaves its layout plain and ends in a full stop is compacted on its own -/
theorem squeeze_space (t : List Char) :
    squeeze .plain true (s ++ ' ' :: t) = compact s ++ ' ' :: squeeze .plain true t := by
  have hgap : gapAfter true (squeeze .plain true s) = false := by
    simp [gapAfter, getLast?_squeeze hlayout hlast]
  rw [squeeze_append, List.head?_cons, hlayout, hgap, squeeze_blank (by decide), compact_eq_squeeze hlayout hlast]
  rfl

end Layout

/-! ## Statements -/

/-- an open quote was opened by one of the two marks -/
def Enclosure.HasMark (e : Enclosure) : Prop :=
  ∀ q ∈ e.quote, q.IsMarked

theorem Enclosure.HasMark.feed {e : Enclosure} (h : e.HasMark) (c : Char) (next : Option Char) :
    (e.feed c next).HasMark := by
  cases hquote : e.quote with
  | some q =>
    intro q' hq'
    simp only [Enclosure.feed, hquote] at hq'
    exact (h q hquote).feed c q' hq'
  | none =>
    intro q hq
    rw [Enclosure.quote_feed hquote] at hq
    exact Quote.isMarked_of_opening q hq

/-- a full stop closes nothing -/
theorem Enclosure.HasMark.outside_of_stop {e : Enclosure} (h : e.HasMark) {next : Option Char}
    (hfeed : e.feed '.' next = {}) : e = {} := by
  cases hquote : e.quote with
  | none => rwa [Enclosure.feed_of_ordinary hquote next (.inl (by decide))] at hfeed
  | some q =>
    have hclosed := congrArg Enclosure.quote hfeed
    simp only [Enclosure.feed, hquote] at hclosed
    exact absurd hclosed (h q hquote).feed_stop

/-- where a text with a full stop leaves nothing open, it is cut at the stop, and what follows is cut as on its own -/
theorem cut_stop {w b : List Char} (hb : ∀ c ∈ b, isBlank c = true) {e : Enclosure} (he : e.HasMark)
    (h : e.after (w ++ '.' :: b) = {}) : ∃ piece later, ∀ t, cut statementCut e (w ++ '.' :: t) =
      (piece, later ++ (cut statementCut {} t).1 :: (cut statementCut {} t).2) := by
  induction w generalizing e with
  | nil =>
    have hblanks : ∀ (b : List Char) {e : Enclosure}, (∀ c ∈ b, isBlank c = true) → e.IsMarked → e.after b = {} →
        e = {} := by
      intro b
      induction b with
      | nil => exact fun _ _ h => h
      | cons c b ih =>
        intro e hb he h
        rw [List.forall_mem_cons] at hb
        exact he.outside_of_blank hb.1 (ih hb.2 (he.feed c _) h)
    have hmarked : e.IsMarked := by
      intro q hq
      rcases he q hq with hmark | hmark <;> rw [hmark] <;> decide
    obtain rfl := he.outside_of_stop (hblanks b hb (hmarked.feed '.' _) h)
    exact ⟨[], [], fun t => cut_cons_drop rfl⟩
  | cons c w ih =>
    have hhead : ∀ t, (w ++ '.' :: t).head? = (w ++ '.' :: b).head? := by
      intro t
      cases w <;> rfl
    obtain ⟨piece, later, hcut⟩ := ih (he.feed c (w ++ '.' :: b).head?) h
    by_cases hkeep : statementCut e c (w ++ '.' :: b).head? = .keep
    · refine ⟨c :: piece, later, fun t => ?_⟩
      rw [List.cons_append, cut_cons_keep (by rw [hhead, hkeep]), hhead, hcut]
    · have hdrop : statementCut e c (w ++ '.' :: b).head? = .drop := by
        simp only [statementCut] at hkeep ⊢
        split_ifs at hkeep ⊢
        · rfl
        · exact absurd rfl hkeep
      refine ⟨[], piece :: later, fun t => ?_⟩
      rw [List.cons_append, cut_cons_drop (by rw [hhead, hdrop]), hhead, hcut]
      rfl

theorem finished_append (ps qs : List (List Char)) : finished (ps ++ qs) = finished ps ++ finished qs := by
  rw [finished, List.map_append, List.filter_append]
  rfl

/-- what follows a text that leaves nothing open and ends in a full stop is cut as it is without it -/
theorem statements_append {s : List Char} (hstop : EndsInStop s) (h : ({} : Enclosure).after s = {}) (t : List Char) :
    statements (s ++ t) = statements s ++ statements t := by
  obtain ⟨w, b, rfl, hb⟩ := hstop
  obtain ⟨piece, later, hcut⟩ := cut_stop hb (by simp [Enclosure.HasMark]) h
  have hall : ∀ u, statements (w ++ '.' :: u) = finished (piece :: later) ++ statements u := by
    intro u
    rw [statements, statements, pieces_eq_finished, hcut, ← List.cons_append, finished_append]
    rfl
  have hblanks : ∀ u, statements (b ++ u) = statements u := restarts_statementCut.pieces_blanks hb
  have hnone : statements b = [] := by
    have hself := hblanks []
    rwa [List.append_nil] at hself
  rw [List.append_assoc, List.cons_append, hall, hall, hblanks, hnone, List.append_nil]

/-! ## Passages -/

/-- a text that ends in a full stop and leaves nothing open: no quote, reference or comment of its layout, no group and no
quote for the scan that takes its rules out, and, when they are out, nothing for the cut into statements -/
structure IsPassage (s : List Char) : Prop where
  last : s.getLast? = some '.'
  layout : Layout.plain.after (some ' ') s = .plain
  balanced : IsBalanced none (compact s)
  closed : ∀ e, takeRulesFrom none (compact s) = .ok e → ({} : Enclosure).after e.remainder = {}

instance (s : List Char) : Decidable (IsPassage s) :=
  decidable_of_iff (s.getLast? = some '.' ∧ Layout.plain.after (some ' ') s = .plain ∧ IsBalanced none (compact s) ∧
      ∀ e ∈ (takeRulesFrom none (compact s)).toOption, ({} : Enclosure).after e.remainder = {})
    ⟨fun ⟨hlast, hlayout, hbalanced, hclosed⟩ => ⟨hlast, hlayout, hbalanced, fun e he => hclosed e (by rw [he]; rfl)⟩,
      fun h => ⟨h.last, h.layout, h.balanced, fun e he => h.closed e (by
        cases htake : takeRulesFrom none (compact s) with
        | error f => simp [htake, Except.toOption] at he
        | ok e' => simpa [htake, Except.toOption] using he)⟩⟩

theorem IsPassage.getLast?_compact {s : List Char} (h : IsPassage s) : (compact s).getLast? = some '.' := by
  rw [compact_eq_squeeze h.layout h.last]
  exact getLast?_squeeze h.layout h.last true

theorem trimEnd_after {t : List Char} (h : trimEnd t ≠ []) (s : List Char) : trimEnd (s ++ t) = s ++ trimEnd t := by
  induction s with
  | nil => rfl
  | cons c s ih =>
    rw [List.cons_append, trimEnd, ih]
    split
    · simp_all
    · rfl

theorem intercalate_compact (s s' : List Char) (ss : List (List Char)) :
    [' '].intercalate ((s :: s' :: ss).map compact) = compact s ++ ' ' :: [' '].intercalate ((s' :: ss).map compact) := by
  rw [List.map_cons, List.intercalate_cons_of_ne_nil (by simp), List.append_assoc, List.singleton_append]

/-- passages with spaces between them are compacted one by one -/
theorem compact_passages {ss : List (List Char)} (h : ∀ s ∈ ss, IsPassage s) :
    compact ([' '].intercalate ss) = [' '].intercalate (ss.map compact) := by
  induction ss with
  | nil => rfl
  | cons s ss ih =>
    rw [List.forall_mem_cons] at h
    have ih := ih h.2
    cases ss with
    | nil => rw [List.map_singleton, List.intercalate_singleton, List.intercalate_singleton]
    | cons s' ss =>
      have hne : compact ([' '].intercalate (s' :: ss)) ≠ [] := by
        have hlast := (h.2 s' List.mem_cons_self).getLast?_compact
        rw [ih, List.map_cons, intercalate_cons]
        intro hnil
        rw [(List.append_eq_nil_iff.1 hnil).1] at hlast
        cases hlast
      have hspace : ∀ t, compact t ≠ [] → compact (s ++ ' ' :: t) = compact s ++ ' ' :: compact t := by
        intro t ht
        rw [compact, squeeze_space h.1.layout h.1.last, ← List.singleton_append, ← List.append_assoc, trimEnd_after ht,
          List.append_assoc]
        rfl
      rw [List.intercalate_cons_cons, List.append_assoc, List.singleton_append, hspace _ hne, ih,
        intercalate_compact]

/-- the statements and the rules of a compact text -/
def parts? (s : List Char) : Option (List (List Char) × List RuleText) :=
  (takeRulesFrom none s).toOption.map fun e => (statements e.remainder, e.rules)

theorem parts?_space (t : List Char) : parts? (' ' :: t) = parts? t := by
  rw [parts?, parts?, takeRulesFrom_space]
  cases takeRulesFrom none t with
  | error f => rfl
  | ok e =>
    simp only [Except.map, Except.toOption, Option.map_some, Extract.behind, List.singleton_append, statements_space]

/-- what follows a passage is taken apart as it is without it -/
theorem parts?_append {s : List Char} (h : IsPassage s) (t : List Char) :
    parts? (compact s ++ t) = (parts? (compact s)).bind fun p => (parts? t).map fun q => (p.1 ++ q.1, p.2 ++ q.2) := by
  have hlast := h.getLast?_compact
  have halone : StandsAlone none (compact s) :=
    IsPart.standsAlone ⟨h.balanced, fun c hc => Option.some.inj (hc.symm.trans hlast)⟩
  have hne : compact s ≠ [] := by
    intro hnil
    rw [hnil] at hlast
    cases hlast
  rw [parts?, parts?, parts?, halone.append]
  cases htake : takeRulesFrom none (compact s) with
  | error f => rfl
  | ok e =>
    have happend := statements_append ((halone.stop e htake).resolve_left hne) (h.closed e htake)
    cases takeRulesFrom none t with
    | error f => rfl
    | ok e' => simp [Except.toOption, Extract.append, happend]

/-- the statements and the rules of several passages are those of each, in order -/
theorem parts?_passages {ss : List (List Char)} (h : ∀ s ∈ ss, IsPassage s) :
    parts? (compact ([' '].intercalate ss)) =
      (ss.mapM fun s => parts? (compact s)).map fun ps => (ps.flatMap (·.1), ps.flatMap (·.2)) := by
  rw [compact_passages h]
  induction ss with
  | nil =>
    rw [List.map_nil, List.intercalate_nil, parts?, takeRulesFrom_nil]
    rfl
  | cons s ss ih =>
    rw [List.forall_mem_cons] at h
    have hfirst : parts? ([' '].intercalate ((s :: ss).map compact)) =
        (parts? (compact s)).bind fun p => (parts? ([' '].intercalate (ss.map compact))).map
          fun q => (p.1 ++ q.1, p.2 ++ q.2) := by
      cases ss with
      | nil =>
        rw [List.map_singleton, List.intercalate_singleton, List.map_nil, List.intercalate_nil]
        have hself := parts?_append h.1 []
        rwa [List.append_nil] at hself
      | cons s' ss =>
        rw [intercalate_compact, parts?_append h.1, parts?_space]
    rw [hfirst, ih h.2, List.mapM_cons]
    cases parts? (compact s) with
    | none => rfl
    | some p => cases ss.mapM fun s => parts? (compact s) <;> rfl

end Text

open Text

/-! ## Documents -/

/-- a text is read by its statements and its rules -/
theorem Document.toOption_ofText (text : String) : (Document.ofText text).toOption =
    (parts? (compact text.toList)).bind fun p => (Document.ofParts p.1 p.2).toOption := by
  rw [Document.ofText_eq_ofParts, takeRules, parts?]
  cases takeRulesFrom none (compact text.toList) <;> rfl

/-- a text is a passage that has a directive for its only statement, and no rules -/
structure IsDirectiveText (text : String) (d : Directive) : Prop where
  passage : IsPassage text.toList
  statement : ∃ s, parts? (compact text.toList) = some ([s], []) ∧ directive? s = some d

/-- the directives that a text makes -/
def directivesOf (text : String) : List Directive :=
  ((parts? (compact text.toList)).map fun p => p.1.filterMap directive?).getD []

theorem exists_of_mapM {α β : Type} {f : α → Option β} {l : List α} {bs : List β} (h : l.mapM f = some bs) :
    ∀ b ∈ bs, ∃ a ∈ l, f a = some b := by
  induction l generalizing bs with
  | nil =>
    rw [List.mapM_nil] at h
    cases h
    simp
  | cons a l ih =>
    rw [List.mapM_cons, Option.bind_eq_bind, Option.bind_eq_some_iff] at h
    obtain ⟨b, hb, h⟩ := h
    obtain ⟨bs', hbs', h⟩ := Option.bind_eq_some_iff.1 h
    cases h
    rw [List.forall_mem_cons]
    refine ⟨⟨a, List.mem_cons_self, hb⟩, fun c hc => ?_⟩
    obtain ⟨a', ha', hf⟩ := ih hbs' c hc
    exact ⟨a', List.mem_cons_of_mem a ha', hf⟩

theorem exists_insertIdx {α : Type} {l : List α} {k : Nat} (h : k ≤ l.length) (a : α) :
    ∃ u v, l = u ++ v ∧ l.insertIdx k a = u ++ a :: v := by
  induction k generalizing l with
  | zero => exact ⟨[], l, rfl, List.insertIdx_zero⟩
  | succ k ih =>
    cases l with
    | nil => simp at h
    | cons b l =>
      obtain ⟨u, v, rfl, hinsert⟩ := ih (Nat.le_of_succ_le_succ h)
      exact ⟨b :: u, v, rfl, by rw [List.insertIdx_succ_cons, hinsert]; rfl⟩

/-- wherever a directive is put among passages, it is as if it stood before them all -/
theorem Document.ofText_insertIdx {texts : List String} (htexts : ∀ t ∈ texts, IsPassage t.toList) {text : String}
    {d : Directive} (hd : IsDirectiveText text d) {s : List Char}
    (hs : parts? (compact text.toList) = some ([s], []) ∧ directive? s = some d)
    (hother : ∀ t ∈ texts, ∀ d' ∈ directivesOf t, d'.subject ≠ d.subject) {k : Nat} (hk : k ≤ texts.length) :
    (Document.ofText (" ".intercalate (texts.insertIdx k text))).toOption =
      (texts.mapM fun t : String => parts? (compact t.toList)).bind fun ps =>
        (Document.ofParts (s :: ps.flatMap (·.1)) (ps.flatMap (·.2))).toOption := by
  obtain ⟨u, v, rfl, hinsert⟩ := exists_insertIdx hk text
  have hpassages : ∀ w ∈ (u ++ text :: v).map String.toList, IsPassage w := by
    intro w hw
    obtain ⟨t, ht, rfl⟩ := List.mem_map.1 hw
    rcases List.mem_append.1 ht with ht | ht
    · exact htexts t (List.mem_append_left v ht)
    · rcases List.mem_cons.1 ht with rfl | ht
      · exact hd.passage
      · exact htexts t (List.mem_append_right u ht)
  have hsplit : (" ".intercalate (u ++ text :: v)).toList = [' '].intercalate ((u ++ text :: v).map String.toList) := by
    rw [String.toList_intercalate]
    rfl
  rw [hinsert, Document.toOption_ofText, hsplit, parts?_passages hpassages, List.mapM_map, List.mapM_append,
    List.mapM_append, List.mapM_cons]
  change ((do
    let a ← u.mapM fun t : String => parts? (compact t.toList)
    let b ← (do
      let p ← parts? (compact text.toList)
      let b ← v.mapM fun t : String => parts? (compact t.toList)
      pure (p :: b))
    pure (a ++ b)).map _).bind _ = _
  rw [hs.1]
  cases hu : u.mapM fun t : String => parts? (compact t.toList) with
  | none => rfl
  | some a =>
    cases v.mapM fun t : String => parts? (compact t.toList) with
    | none => rfl
    | some b =>
      have hbefore : ∀ s' ∈ a.flatMap (·.1), ∀ d' ∈ directive? s', d'.subject ≠ d.subject := by
        intro s' hs' d' hd'
        obtain ⟨p, hp, hs'⟩ := List.mem_flatMap.1 hs'
        obtain ⟨t, ht, hparts⟩ := exists_of_mapM hu p hp
        refine hother t (List.mem_append_left v ht) d' ?_
        rw [directivesOf, hparts]
        exact List.mem_filterMap.2 ⟨s', hs', hd'⟩
      have hmoved := Document.ofParts_moved hs.2 hbefore (b.flatMap (·.1)) ((a ++ b).flatMap (·.2))
      simpa using hmoved

end N3Rules
