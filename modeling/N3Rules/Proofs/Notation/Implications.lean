/-
The two spellings of a rule: with an arrow, and with the predicate `log:implies`.

With an arrow, the rule is taken out of the text before anything is read, by a scan for its braces from which both kinds
of quotes hide them. With the predicate, the rule is a statement of three terms, of which two are formulas. A formula
drops the quantifiers that are declared in it; and its token is a formula only if its last brace closes its first where
double quotes alone hide braces, and if its quotes and brackets leave nothing open. Apart from this the two spellings
agree, the errors included.

- `IsWhole`: a text that may stand between the braces;
- `isFormulaToken`: whether the text between the braces is seen as a formula;
- `Document.ofText_arrow`, `Document.ofText_implies`: what is read of the two spellings;
- `spellings_agree_iff`: when the two are the same document.
-/
import N3Rules.Proofs.Notation.Sentences
import N3Rules.Proofs.Notation.Spelling

namespace N3Rules

open Text

/-! ## Groups -/

/-- a text between braces -/
def group (a : List Char) : List Char :=
  '{' :: (a ++ ['}'])

/-- the compact form of a text that stands between braces -/
def inner (text : String) : List Char :=
  squeeze .plain false text.toList

/-- a text leaves no quote, reference or comment open, and the braces in it that no quote hides come in pairs -/
structure IsWhole (text : String) : Prop where
  layout : Layout.plain.after (some '}') text.toList = .plain
  braces : closeGroup none 0 (inner text ++ ['}']) = some (inner text, [])

/-- whether a group is a token of its own, and seen as a formula -/
def isFormulaToken (a : List Char) : Bool :=
  leavesNothingOpen (group a) && (inside? '{' '}' (group a)).isSome

theorem isBare_group (a : List Char) : IsBare (group a) := by
  have hfirst : IsBare ['{'] := isBare_char (by decide)
  have hlast : IsBare ['}'] := isBare_char (by decide)
  exact hfirst.around hlast a

theorem IsWhole.closeGroup {text : String} (h : IsWhole text) (t : List Char) :
    closeGroup none 0 (inner text ++ '}' :: t) = some (inner text, t) := by
  simpa using closeGroup_append h.braces t

theorem Text.Enclosure.feed_unbraced {e : Enclosure} (he : e.quote = none) {c : Char} (hc : c ≠ '{' ∧ c ≠ '}')
    (next : Option Char) :
    (e.feed c next).quote = Quote.opening? c ∧ (e.feed c next).braces = e.braces := by
  obtain ⟨quote, p, b, r, a⟩ := e
  obtain rfl : quote = none := he
  simp only [Enclosure.feed]
  split <;> first | exact ⟨rfl, rfl⟩ | (split <;> exact ⟨rfl, rfl⟩) | simp at hc

/-- the scan for the end of a group and the cuts see the same quotes and braces -/
theorem closeGroup_feed {quote : Option Quote} {depth : Nat} {c : Char} {s inside after : List Char}
    (h : Text.closeGroup quote depth (c :: s) = some (c :: inside, after)) {e : Enclosure} (he : e.quote = quote)
    (hbraces : depth + 1 ≤ e.braces) (next : Option Char) :
    ∃ q d, Text.closeGroup q d s = some (inside, after) ∧ (e.feed c next).quote = q ∧
      d + 1 ≤ (e.feed c next).braces := by
  obtain ⟨q, rfl, hrest⟩ | ⟨rfl, rfl, hrest⟩ | ⟨rfl, rfl, d, rfl, hrest⟩ | ⟨rfl, hopen, hclose, hrest⟩ :=
    closeGroup_cons h
  · exact ⟨_, _, hrest, by simp [Enclosure.feed, he], by simpa [Enclosure.feed, he] using hbraces⟩
  · exact ⟨_, _, hrest, by simp [Enclosure.feed, he], by simpa [Enclosure.feed, he] using hbraces⟩
  · refine ⟨_, _, hrest, by simp [Enclosure.feed, he], ?_⟩
    simp only [Enclosure.feed, he]
    omega
  · obtain ⟨hquote, hsame⟩ := Enclosure.feed_unbraced he ⟨hopen, hclose⟩ next
    exact ⟨_, _, hrest, hquote, hsame ▸ hbraces⟩

theorem Text.Enclosure.isOutside_of_braces {e : Enclosure} {depth : Nat} (h : depth + 1 ≤ e.braces) :
    e.isOutside = false := by
  simp [Enclosure.isOutside]
  omega

/-- inside a group a brace is open, so it is kept in one piece up to its last brace -/
theorem keeps_inside {quote : Option Quote} {depth : Nat} {s : List Char}
    (h : Text.closeGroup quote depth (s ++ ['}']) = some (s, [])) {e : Enclosure} (he : e.quote = quote)
    (hbraces : depth + 1 ≤ e.braces) :
    Keeps e (e.after (s ++ ['}'])) (s ++ ['}']) ∧ (e.after (s ++ ['}'])).quote = none := by
  induction s generalizing quote depth e with
  | nil =>
    obtain ⟨rfl, rfl⟩ := closeGroup_end h
    refine ⟨?_, by simp [Enclosure.after, Enclosure.feed, he]⟩
    intro rule hrule
    exact carries_char (e.feed_next (by decide) · none) (hrule.marks (by simp) e)
  | cons c s ih =>
    obtain ⟨q, d, hrest, hquote, hnext⟩ := closeGroup_feed h he hbraces (s ++ ['}']).head?
    obtain ⟨hkeeps, hafter⟩ := ih hrest hquote hnext
    refine ⟨?_, hafter⟩
    intro rule hrule
    exact carries_cons (by simp)
      (hrule.enclosed (Enclosure.isOutside_of_braces hbraces) (Enclosure.isOutside_of_braces hnext)) (hkeeps rule hrule)

theorem keeps_group {a : List Char} (h : Text.closeGroup none 0 (a ++ ['}']) = some (a, [])) {e : Enclosure}
    (he : e.quote = none) : Keeps e (e.after (group a)) (group a) ∧ (e.after (group a)).quote = none := by
  have hopen : e.feed '{' (a ++ ['}']).head? = { e with braces := e.braces + 1 } := by simp only [Enclosure.feed, he]
  obtain ⟨hkeeps, hafter⟩ := keeps_inside h (e := e.feed '{' (a ++ ['}']).head?) (by rw [hopen]; exact he)
    (by rw [hopen]; exact Nat.le_add_left 1 e.braces)
  refine ⟨?_, hafter⟩
  intro rule hrule
  exact carries_cons (by simp) (hrule.marks (by simp) _ _) (hkeeps rule hrule)

/-! ## The term that a group is -/

theorem inside?_group (a : List Char) :
    inside? '{' '}' (group a) = if closesAtEnd '{' '}' none 0 (group a) then some a else none := by
  cases h : closesAtEnd '{' '}' none 0 (group a) <;>
    simp_all [group, inside?, List.getLast?_cons]

/-- without apostrophes, a group that leaves nothing open is seen as a formula -/
theorem isFormulaToken_of_no_apostrophe {a : List Char} (h : Text.closeGroup none 0 (a ++ ['}']) = some (a, []))
    (hopen : leavesNothingOpen (group a) = true) (ha : apostrophe ∉ a) : isFormulaToken a = true := by
  have hcloses : closesAtEnd '{' '}' none 0 (group a) = true := by
    rw [group, closesAtEnd, if_neg (by decide), if_pos rfl]
    exact closesAtEnd_group (by simp) ha h
  rw [isFormulaToken, hopen, inside?_group, if_pos hcloses]
  rfl

/-- a token that starts with a brace is a formula or a name -/
theorem Shape.ofToken_brace (s : List Char) : Shape.ofToken ('{' :: s) =
    ((inside? '{' '}' ('{' :: s)).map Shape.formula).getD (.name ('{' :: s)) := by
  have hlist : inside? '(' ')' ('{' :: s) = none := by simp [inside?]
  simp only [Shape.ofToken, iriReference?, hlist]
  cases inside? '{' '}' ('{' :: s) <;> rfl

theorem Shape.ofToken_group (a : List Char) : Shape.ofToken (trim (group a)) =
    if (inside? '{' '}' (group a)).isSome then .formula a else .name (group a) := by
  rw [(isBare_group a).trim_eq, group, Shape.ofToken_brace, ← group, inside?_group]
  split_ifs <;> simp_all

theorem Term.read_group {a : List Char} (h : (inside? '{' '}' (group a)).isSome = true) :
    Term.read {} (group a) = (Item.readAll {} a).map fun items => .formula ⟨Item.triples items, []⟩ := by
  refine Term.read_formula ?_
  rw [Shape.ofToken_group, if_pos h]

/-- a group that is not seen as a formula is a name -/
theorem Term.read_group_name {a : List Char} (h : (inside? '{' '}' (group a)).isSome = false) :
    ∃ iri, Term.read {} (group a) = .ok (.iri iri) := by
  have hshape : Shape.ofToken (trim (group a)) = .name (group a) := by
    rw [Shape.ofToken_group, h, if_neg (by decide)]
  exact ⟨_, Term.read_name hshape⟩

/-- a group with a full stop in the same token is a name -/
theorem Term.read_group_stop (a : List Char) : ∃ iri, Term.read {} (group a ++ [' ', '.']) = .ok (.iri iri) := by
  have hbare : IsBare (group a ++ [' ', '.']) := isBare_joined (isBare_group a) (isBare_char (by decide))
  have hshape : Shape.ofToken (trim (group a ++ [' ', '.'])) = .name (group a ++ [' ', '.']) := by
    rw [hbare.trim_eq, group, List.cons_append, Shape.ofToken_brace]
    simp [inside?, List.getLast?_cons]
  exact ⟨_, Term.read_name hshape⟩

/-- one of the two terms of a rule with a predicate is a name, if one of the groups is not seen as a formula -/
theorem Term.read_groups_name {a c : List Char} (h : ¬(isFormulaToken a = true ∧ isFormulaToken c = true))
    (hopen : leavesNothingOpen (group a) = true) :
    (∃ iri, Term.read {} (group a) = .ok (.iri iri)) ∨
      ∃ iri, Term.read {} (lastToken (({} : Enclosure).after (group c)) (group c)) = .ok (.iri iri) := by
  cases hseen : (inside? '{' '}' (group a)).isSome with
  | false => exact .inl (Term.read_group_name hseen)
  | true =>
    right
    rw [lastToken_after]
    cases hopen' : leavesNothingOpen (group c) with
    | false => exact Term.read_group_stop c
    | true =>
      refine Term.read_group_name ?_
      cases hseen' : (inside? '{' '}' (group c)).isSome with
      | false => rfl
      | true => simp [isFormulaToken, hopen, hseen, hopen', hseen'] at h

/-! ## The two spellings -/

/-- a rule with an arrow -/
def arrowText (a c : String) : String :=
  "\x7b" ++ a ++ "\x7d => \x7b" ++ c ++ "\x7d ."

/-- a rule with a predicate -/
def impliesText (a c : String) : String :=
  "\x7b" ++ a ++ "\x7d <" ++ impliesIri ++ "> \x7b" ++ c ++ "\x7d ."

theorem isReference_implies : isReference impliesIri.toList = true := by
  decide +kernel

section Spellings

variable {a c : String} (ha : IsWhole a) (hc : IsWhole c)

include ha hc

/-- the compact form of two groups with something between them -/
theorem compact_groups {w : List Char} (hw : IsCompact false w) {text : String}
    (htext : text.toList = '{' :: (a.toList ++ '}' :: (w ++ '{' :: (c.toList ++ '}' :: [' ', '.'])))) :
    compact text.toList = '{' :: (inner a ++ '}' :: (w ++ '{' :: (inner c ++ '}' :: [' ', '.']))) := by
  have hstop : squeeze .plain false [' ', '.'] = [' ', '.'] := by
    have hcompact := isCompact_stop []
    rwa [List.append_nil, squeeze, List.append_nil] at hcompact
  have hsqueeze : squeeze .plain true text.toList =
      '{' :: (inner a ++ '}' :: (w ++ '{' :: (inner c ++ '}' :: [' ', '.']))) := by
    rw [htext, squeeze_group ha.layout, hw, squeeze_group hc.layout, hstop]
    rfl
  rw [compact, hsqueeze]
  refine trimEnd_eq_self ?_
  intro d hd
  obtain rfl : '.' = d := by simpa [List.getLast?_append, List.getLast?_cons] using hd
  decide

/-- a rule with an arrow is taken out, and a full stop remains -/
theorem takeRules_arrow : takeRules (compact (arrowText a c).toList) = .ok ⟨" . ".toList, [⟨inner a, inner c⟩]⟩ := by
  have htext : (arrowText a c).toList =
      '{' :: (a.toList ++ '}' :: ([' ', '=', '>', ' '] ++ '{' :: (c.toList ++ '}' :: [' ', '.']))) := by
    simp [arrowText]
  have harrow : ∀ u, afterArrow? ([' ', '=', '>', ' '] ++ '{' :: u) = some ('{' :: u) := by
    intro u
    simp [afterArrow?, skipBlanks, isAsciiBlank]
  have hstop : skipStop [' ', '.'] = [] := by simp [skipStop, skipBlanks, isAsciiBlank]
  rw [compact_groups ha hc isCompact_arrow htext, takeRules,
    takeRulesFrom_rule (ha.closeGroup _) (harrow _) (hc.closeGroup _), hstop, takeRulesFrom_nil]
  rfl

/-- a rule with a predicate has no arrow, and remains as a whole -/
theorem takeRules_implies : takeRules (compact (impliesText a c).toList) =
    .ok ⟨group (inner a) ++ ' ' :: (reference impliesIri ++ ' ' :: (group (inner c) ++ [' ', '.'])), []⟩ := by
  have hw : IsCompact false (' ' :: (reference impliesIri ++ [' '])) := by
    have href := isCompact_reference (opensAngle_of_isReference isReference_implies)
      (not_mem_of_isReference isReference_implies)
    exact isCompact_space.append rfl ((href _).append (gapAfter_reference _ _) isCompact_space)
  have htext : (impliesText a c).toList =
      '{' :: (a.toList ++ '}' ::
        ((' ' :: (reference impliesIri ++ [' '])) ++ '{' :: (c.toList ++ '}' :: [' ', '.']))) := by
    simp [impliesText, reference]
  -- nothing is taken out between the groups, nor after them
  have hbraceless : ∀ d ∈ ' ' :: (reference impliesIri ++ [' ']), Quote.opening? d = none ∧ d ≠ '{' ∧ d ≠ '}' := by
    have hiri := isReference_implies
    simp only [isReference, Bool.and_eq_true, List.all_eq_true] at hiri
    intro d hd
    simp only [reference, List.mem_cons, List.mem_append, List.not_mem_nil, or_false] at hd
    obtain rfl | (rfl | hd | rfl) | rfl := hd
    · decide
    · decide
    · exact opensNothing (hiri.1 d hd)
    · decide
    · decide
  have hbetween := takeRulesFrom_row hbraceless
  have hnone : ∀ t, afterArrow? ((' ' :: (reference impliesIri ++ [' '])) ++ t) = none := by
    intro t
    simp [reference, afterArrow?, skipBlanks, isAsciiBlank]
  have hnone' : afterArrow? [' ', '.'] = none := by simp [afterArrow?, skipBlanks, isAsciiBlank]
  have hend : takeRulesFrom none [' ', '.'] = .ok ⟨[' ', '.'], []⟩ := takeRulesFrom_braceless (by simp)
  rw [compact_groups ha hc hw htext, takeRules, takeRulesFrom_group (ha.closeGroup _) (hnone _), hbetween,
    takeRulesFrom_group (hc.closeGroup _) hnone', hend]
  simp [Except.map, Except.mapError, Extract.behind, group]

/-- a rule with an arrow is read side by side, and has the quantifiers that are declared in it -/
theorem Document.ofText_arrow : Document.ofText (arrowText a c) = (do
    let antecedent ← Item.readAll {} (inner a)
    let consequent ← Item.readAll {} (inner c)
    return { triples := [], rules := [Rule.quantify (Item.quantifiers antecedent ++ Item.quantifiers consequent)
      ⟨⟨Item.triples antecedent, []⟩, ⟨Item.triples consequent, []⟩⟩] }) := by
  have hstatements : statements " . ".toList = [] := by decide +kernel
  rw [Document.ofText, takeRules_arrow ha hc]
  simp only [bind, Except.bind, hstatements]
  cases hread : Item.readAll {} (inner a) with
  | error err => simp [RuleText.read, Scope.ofDirectives, hread, bind, Except.bind, pure, Except.pure]
  | ok antecedent =>
    cases hread' : Item.readAll {} (inner c) with
    | error err => simp [RuleText.read, Scope.ofDirectives, hread, hread', bind, Except.bind, pure, Except.pure]
    | ok consequent =>
      simp [RuleText.read, Scope.ofDirectives, hread, hread', bind, Except.bind, pure, Except.pure, liftRules,
        Item.triples, Item.quantifiers]

/-- the groups of a rule with a predicate are words of a sentence -/
theorem sentence_implies : ∃ e, Sentence (group (inner a)) (reference impliesIri) (group (inner c))
    (({} : Enclosure).after (group (inner a))) (({} : Enclosure).after (group (inner a))) e ∧
    e = (({} : Enclosure).after (group (inner a))).after (group (inner c)) := by
  obtain ⟨hfirst, hquote⟩ := keeps_group ha.braces (e := {}) rfl
  obtain ⟨hthird, hquote'⟩ := keeps_group hc.braces hquote
  refine ⟨_, ⟨hfirst, ?_, ?_, Enclosure.isFirm_of_quote hquote', ?_⟩, rfl⟩
  · intro rule hrule
    rw [Enclosure.quote_space hquote]
    exact hrule.carries_reference hquote isReference_implies
  · rwa [Enclosure.quote_space hquote]
  · intro x hx
    simp only [List.mem_cons, List.not_mem_nil, or_false] at hx
    obtain rfl | rfl | rfl := hx
    · exact isBare_group _
    · exact isBare_reference _
    · exact isBare_group _

/-- a rule with a predicate is read term by term, if its first group leaves nothing open -/
theorem Document.ofText_implies_words (hopen : leavesNothingOpen (group (inner a)) = true) :
    Document.ofText (impliesText a c) = (do
      let s ← Term.read {} (group (inner a))
      let o ← Term.read {} (lastToken (({} : Enclosure).after (group (inner c))) (group (inner c)))
      return Document.ofItem (.triple ⟨s, .iri impliesIri, o⟩)) := by
  obtain ⟨e, hsentence, he⟩ := sentence_implies ha hc
  rw [Enclosure.isOutside_iff.1 hopen] at hsentence he
  have hmark : ∃ d ∈ (group (inner a)).head?, d ∈ termMarks := ⟨'{', rfl, by decide⟩
  rw [Document.ofText_sentence hsentence hmark (takeRules_implies ha hc) ⟨rfl, rfl⟩,
    Term.read_reference, he]
  rfl

/-- a rule with a predicate is read like one with an arrow, but without the quantifiers, if its groups are formulas -/
theorem Document.ofText_implies (hfirst : isFormulaToken (inner a) = true) (hlast : isFormulaToken (inner c) = true) :
    Document.ofText (impliesText a c) = (do
      let antecedent ← Item.readAll {} (inner a)
      let consequent ← Item.readAll {} (inner c)
      return { triples := [], rules := [⟨⟨Item.triples antecedent, []⟩, ⟨Item.triples consequent, []⟩⟩] }) := by
  rw [isFormulaToken, Bool.and_eq_true] at hfirst hlast
  rw [Document.ofText_implies_words ha hc hfirst.1, lastToken_after, if_pos hlast.1, Term.read_group hfirst.2,
    Term.read_group hlast.2]
  cases Item.readAll {} (inner a) with
  | error err => rfl
  | ok antecedent =>
    cases Item.readAll {} (inner c) with
    | error err => rfl
    | ok consequent => exact congrArg Except.ok (Document.ofItem_rule (by simp [Triple.rule?]))

/-- a rule with a predicate is no rule if one of its groups is not seen as a formula -/
theorem Document.rules_implies (h : ¬(isFormulaToken (inner a) = true ∧ isFormulaToken (inner c) = true))
    {d : Document} (hd : Document.ofText (impliesText a c) = .ok d) : d.rules = [] := by
  by_cases hopen : leavesNothingOpen (group (inner a)) = true
  · rw [Document.ofText_implies_words ha hc hopen] at hd
    obtain ⟨s, hs, hd⟩ := bind_eq_ok_iff.1 hd
    obtain ⟨o, ho, hd⟩ := bind_eq_ok_iff.1 hd
    obtain rfl := Except.ok.inj hd
    have hiri : (∃ iri, s = .iri iri) ∨ ∃ iri, o = .iri iri := by
      simpa [hs, ho] using Term.read_groups_name h hopen
    have hnone : Triple.rule? ⟨s, .iri impliesIri, o⟩ = none := by
      rcases hiri with ⟨iri, rfl⟩ | ⟨iri, rfl⟩
      · rfl
      · cases s <;> rfl
    rw [Document.ofItem_triple hnone]
  · obtain ⟨e, hsentence, -⟩ := sentence_implies ha hc
    have hmark : ∃ d ∈ (group (inner a)).head?, d ∈ termMarks := ⟨'{', rfl, by decide⟩
    obtain ⟨err, herr⟩ := Document.ofText_sentence_error hsentence hmark (takeRules_implies ha hc)
      fun hout => hopen hout.1
    rw [herr] at hd
    cases hd

end Spellings

/-! ## Agreement -/

/-- whether a statement declares quantifiers -/
def isDeclaration (statement : List Char) : Bool :=
  match Clause.ofStatement statement with
  | .declaration .. => true
  | _ => false

/-- a rule without its quantifiers -/
def Rule.unquantified (r : Rule) : Rule :=
  ⟨⟨r.antecedent.triples, []⟩, ⟨r.consequent.triples, []⟩⟩

/-- a document without the quantifiers of its rules -/
def Document.unquantified (d : Document) : Document :=
  { d with rules := d.rules.map Rule.unquantified }

theorem Rule.unquantified_quantify (qs : List Quantifier) (r : Rule) :
    (r.quantify qs).unquantified = r.unquantified := by
  unfold Rule.quantify
  split <;> rfl

theorem Rule.quantify_eq_iff {qs : List Quantifier} {ts us : List Triple} :
    Rule.quantify qs ⟨⟨ts, []⟩, ⟨us, []⟩⟩ = ⟨⟨ts, []⟩, ⟨us, []⟩⟩ ↔ qs = [] := by
  cases qs <;> simp [Rule.quantify]

theorem Item.quantifiers_read {scope : Scope} {statement : List Char} {i : Item}
    (h : Item.read scope statement = .ok i) :
    Item.quantifiers [i] = [] ↔ isDeclaration statement = false := by
  unfold isDeclaration
  cases Item.spelled_of_read h with
  | triple hclause _ _ _ => simp [hclause, Item.quantifiers]
  | quantifier hclause _ => simp [hclause, Item.quantifiers]

theorem Item.quantifiers_mapM {scope : Scope} {lines : List (List Char)} {items : List Item}
    (h : lines.mapM (Item.read scope) = .ok items) :
    Item.quantifiers items = [] ↔ ∀ s ∈ lines, isDeclaration s = false := by
  induction lines generalizing items with
  | nil =>
    cases h
    simp [Item.quantifiers]
  | cons s lines ih =>
    rw [List.mapM_cons] at h
    obtain ⟨i, hread, h⟩ := bind_eq_ok_iff.1 h
    obtain ⟨is, hrest, h⟩ := bind_eq_ok_iff.1 h
    obtain rfl := Except.ok.inj h
    have hcons : Item.quantifiers (i :: is) = Item.quantifiers [i] ++ Item.quantifiers is := by
      rw [← List.singleton_append, Item.quantifiers, List.filterMap_append]
      rfl
    rw [hcons, List.append_eq_nil_iff, Item.quantifiers_read hread, ih hrest, List.forall_mem_cons]

/-- reading a text finds quantifiers exactly if one of its statements declares some -/
theorem Item.quantifiers_readAll {scope : Scope} {text : List Char} {items : List Item}
    (h : Item.readAll scope text = .ok items) :
    Item.quantifiers items = [] ↔ ∀ s ∈ statements text, isDeclaration s = false := by
  rw [Item.readAll_eq] at h
  exact Item.quantifiers_mapM h

section Spellings

variable {a c : String} (ha : IsWhole a) (hc : IsWhole c)

include ha hc

theorem Document.rules_arrow {d : Document} (hd : Document.ofText (arrowText a c) = .ok d) : d.rules ≠ [] := by
  rw [Document.ofText_arrow ha hc] at hd
  obtain ⟨antecedent, -, hd⟩ := bind_eq_ok_iff.1 hd
  obtain ⟨consequent, -, hd⟩ := bind_eq_ok_iff.1 hd
  obtain rfl := Except.ok.inj hd
  simp

theorem Document.ofText_implies_eq_map (hfirst : isFormulaToken (inner a) = true)
    (hlast : isFormulaToken (inner c) = true) :
    Document.ofText (impliesText a c) = (Document.ofText (arrowText a c)).map Document.unquantified := by
  rw [Document.ofText_implies ha hc hfirst hlast, Document.ofText_arrow ha hc]
  cases Item.readAll {} (inner a) with
  | error err => rfl
  | ok antecedent =>
    cases Item.readAll {} (inner c) with
    | error err => rfl
    | ok consequent =>
      simp only [Except.map, bind, Except.bind, pure, Except.pure, Document.unquantified, List.map_cons, List.map_nil,
        Rule.unquantified_quantify]
      rfl

/-- where both groups are formulas, the spellings agree on what they accept unless something is declared -/
theorem spellings_agree_of_formulas (hfirst : isFormulaToken (inner a) = true)
    (hlast : isFormulaToken (inner c) = true) {d : Document} (hd : Document.ofText (arrowText a c) = .ok d) :
    Document.ofText (arrowText a c) = Document.ofText (impliesText a c) ↔
      ∀ s ∈ statements (inner a) ++ statements (inner c), isDeclaration s = false := by
  rw [Document.ofText_arrow ha hc] at hd ⊢
  rw [Document.ofText_implies ha hc hfirst hlast]
  obtain ⟨antecedent, hread, hd⟩ := bind_eq_ok_iff.1 hd
  obtain ⟨consequent, hread', -⟩ := bind_eq_ok_iff.1 hd
  simp only [hread, hread', bind, Except.bind, pure, Except.pure, Except.ok.injEq, Document.mk.injEq, List.cons.injEq,
    and_true, true_and, Rule.quantify_eq_iff, List.append_eq_nil_iff, Item.quantifiers_readAll hread,
    Item.quantifiers_readAll hread', List.forall_mem_append]

end Spellings

/-- **Two spellings of a rule.** Where both groups are seen as formulas, the spelling with the predicate is refused for
the same reason as the one with the arrow, or it is the same document without the quantifiers. Where one is not, it has
no rule. So what is accepted in one of the spellings is the same document in both exactly if both groups are seen as
formulas and declare nothing. A group without apostrophes is seen as a formula if it leaves nothing open. -/
theorem spellings_agree_iff (a c : String) (ha : IsWhole a) (hc : IsWhole c) :
    let formulas := isFormulaToken (inner a) = true ∧ isFormulaToken (inner c) = true
    (formulas → Document.ofText (impliesText a c) = (Document.ofText (arrowText a c)).map Document.unquantified) ∧
    (¬formulas → ∀ d, Document.ofText (impliesText a c) = .ok d → d.rules = []) ∧
    ((∃ d, Document.ofText (arrowText a c) = .ok d ∨ Document.ofText (impliesText a c) = .ok d) →
      (Document.ofText (arrowText a c) = Document.ofText (impliesText a c) ↔
        formulas ∧ ∀ s ∈ statements (inner a) ++ statements (inner c), isDeclaration s = false)) ∧
    ∀ text ∈ [a, c], apostrophe ∉ inner text → leavesNothingOpen (group (inner text)) = true →
      isFormulaToken (inner text) = true := by
  intro formulas
  refine ⟨fun h => Document.ofText_implies_eq_map ha hc h.1 h.2, fun h d => Document.rules_implies ha hc h, ?_, ?_⟩
  · rintro ⟨d, hd⟩
    by_cases h : formulas
    · have haccepted : ∃ d, Document.ofText (arrowText a c) = .ok d := by
        rcases hd with hd | hd
        · exact ⟨d, hd⟩
        · rw [Document.ofText_implies_eq_map ha hc h.1 h.2] at hd
          cases harrow : Document.ofText (arrowText a c) with
          | error err => simp [harrow, Except.map] at hd
          | ok d' => exact ⟨d', rfl⟩
      obtain ⟨d', hd'⟩ := haccepted
      rw [spellings_agree_of_formulas ha hc h.1 h.2 hd', and_iff_right h]
    · refine iff_of_false ?_ fun hall => h hall.1
      intro heq
      rw [heq, or_self] at hd
      exact Document.rules_arrow ha hc (heq.trans hd) (Document.rules_implies ha hc h hd)
  · intro text htext
    simp only [List.mem_cons, List.not_mem_nil, or_false] at htext
    rcases htext with rfl | rfl
    · exact fun hno hopen => isFormulaToken_of_no_apostrophe ha.braces hopen hno
    · exact fun hno hopen => isFormulaToken_of_no_apostrophe hc.braces hopen hno

/-- the sides of a rule that has something of everything between its braces -/
def knottySides : String × String :=
  (" ?x <p> \"\x7d => \x7b\" ; # a comment\n ?x <q> ('a b' \x7b?y <r> \x7b\x7d\x7d) . ", "?x <s#t.u> \"\\\"\x7d\"@en")

/-- the knotty rule is the same document in both spellings -/
theorem knotty_spellings_agree :
    IsWhole knottySides.1 ∧ IsWhole knottySides.2 ∧
      (∃ d, Document.ofText (arrowText knottySides.1 knottySides.2) = .ok d) ∧
      Document.ofText (arrowText knottySides.1 knottySides.2) =
        Document.ofText (impliesText knottySides.1 knottySides.2) := by
  have hfirst : IsWhole knottySides.1 := ⟨by decide +kernel, by decide +kernel⟩
  have hlast : IsWhole knottySides.2 := ⟨by decide +kernel, by decide +kernel⟩
  have haccepted : (Document.ofText (arrowText knottySides.1 knottySides.2)).toOption.any (fun _ => true) = true := by
    decide +kernel
  obtain ⟨d, hd, -⟩ := Document.of_toOption_any haccepted
  refine ⟨hfirst, hlast, ⟨d, hd⟩, ?_⟩
  refine ((spellings_agree_iff _ _ hfirst hlast).2.2.1 ⟨d, .inl hd⟩).2 ⟨⟨?_, ?_⟩, ?_⟩
  · decide +kernel
  · decide +kernel
  · decide +kernel

/-- whether the antecedents of a document's rules have these quantifiers, rule by rule -/
def Document.declares (quantifiers : List (List Quantifier)) (d : Document) : Bool :=
  d.rules.map (·.antecedent.quantifiers) = quantifiers

/-- quantifiers that are declared between the braces are dropped in the spelling with the predicate; and there a brace
between apostrophes makes a name of its group, so that there is no rule -/
theorem spellings_disagree :
    (IsWhole "@forAll ?x . ?x <p> <o>" ∧ IsWhole "?x <q> <o>" ∧
      (∃ d, Document.ofText (arrowText "@forAll ?x . ?x <p> <o>" "?x <q> <o>") = .ok d ∧
        d.declares [[⟨.forAll, [.var "x"]⟩]] = true) ∧
      ∃ d, Document.ofText (impliesText "@forAll ?x . ?x <p> <o>" "?x <q> <o>") = .ok d ∧ d.declares [[]] = true) ∧
    IsWhole "<a> <b> '\x7d'" ∧ IsWhole "?x <q> <o>" ∧
      (∃ d, Document.ofText (arrowText "<a> <b> '\x7d'" "?x <q> <o>") = .ok d ∧ d.declares [[]] = true) ∧
      ∃ d, Document.ofText (impliesText "<a> <b> '\x7d'" "?x <q> <o>") = .ok d ∧ d.declares [] = true := by
  have hside : IsWhole "?x <q> <o>" := ⟨by decide +kernel, by decide +kernel⟩
  have hdeclared : IsWhole "@forAll ?x . ?x <p> <o>" := ⟨by decide +kernel, by decide +kernel⟩
  have hquoted : IsWhole "<a> <b> '\x7d'" := ⟨by decide +kernel, by decide +kernel⟩
  refine ⟨⟨hdeclared, hside, ?_, ?_⟩, hquoted, hside, ?_, ?_⟩
  all_goals
    refine Document.of_toOption_any ?_
    decide +kernel

end N3Rules
