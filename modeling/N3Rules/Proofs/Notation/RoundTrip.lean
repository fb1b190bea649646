/-
The round trip: what is written of writable triples and rules, line by line, is read back as it was.

- `Triple.isLine`, `Rule.isLine`: each written triple and rule is a compact line;
- `takeRulesFrom_lines`: the rules are taken out of the lines, and the triples remain as statements;
- `Document.ofText_lines`: the document that the lines are.
-/
import N3Rules.Document
import N3Rules.Proofs.Notation.Reading

namespace N3Rules

open Text

/-! ## Lines -/

theorem isCompact_stop : IsCompact false [' ', '.'] :=
  isCompact_space.append rfl (isCompact_char (by decide) (by decide) (by decide) true)

theorem Triple.isLine {t : Triple} (h : t.keeps .writable = true) : IsLine t.chars := by
  have hstop : Woven (fun _ => True) false [' ', '.'] := .space trivial (.plain (by decide) trivial .nil)
  have hline : Woven (fun _ => True) true t.chars :=
    Triple.woven (fun _ _ => trivial) ⟨trivial, trivial, trivial⟩ t h hstop
  exact ⟨isCompact_woven hline, by simp [Triple.chars]⟩

theorem Formula.isCompact {f : Formula} (h : f.keeps .writable = true) (gap : Bool) :
    IsCompact gap f.chars ∧ gapAfter gap f.chars = false := by
  rw [Formula.chars_eq]
  constructor
  · have hbraces : Woven (fun _ => True) gap ('{' :: (f.insideChars ++ '}' :: [])) :=
      .braces (Formula.woven_inside f h) .nil
    exact isCompact_woven hbraces
  · rw [gapAfter_cons, gapAfter_append]
    rfl

theorem isCompact_arrow : IsCompact false [' ', '=', '>', ' '] := by
  have hsign : ∀ c ∈ ['=', '>'], ∀ gap, IsCompact gap [c] := by
    intro c hc gap
    simp only [List.mem_cons, List.not_mem_nil, or_false] at hc
    rcases hc with rfl | rfl <;> exact isCompact_char (by decide) (by decide) (by decide) gap
  exact isCompact_space.append rfl
    ((hsign '=' (by simp) _).append rfl ((hsign '>' (by simp) _).append rfl isCompact_space))

theorem Rule.isLine {r : Rule} (h : r.keeps .writable = true) : IsLine r.chars := by
  rw [Rule.keeps, Bool.and_eq_true] at h
  obtain ⟨hantecedent, hantecedent'⟩ := Formula.isCompact h.1 true
  obtain ⟨hconsequent, hconsequent'⟩ := Formula.isCompact h.2 true
  refine ⟨?_, by simp [Rule.chars, List.getLast?_append, List.getLast?_cons]⟩
  have hright := isCompact_arrow.append rfl (hconsequent.append hconsequent' isCompact_stop)
  simpa [Rule.chars] using hantecedent.append hantecedent' hright

/-! ## Rules taken out -/

/-- the insides of a rule's two formulas -/
def Rule.ruleText (r : Rule) : RuleText :=
  ⟨r.antecedent.insideChars, r.consequent.insideChars⟩

/-- nothing remains of rules but full stops -/
theorem takeRulesFrom_rules {rules : List Rule} (h : ∀ r ∈ rules, r.keeps .writable = true) :
    ∃ remainder, takeRulesFrom none (following ' ' (rules.map Rule.chars)) = .ok ⟨remainder, rules.map Rule.ruleText⟩ ∧
      statements remainder = [] := by
  induction rules with
  | nil => exact ⟨[], takeRulesFrom_nil, rfl⟩
  | cons r rules ih =>
    obtain ⟨remainder, htake, hstatements⟩ := ih fun s hs => h s (List.mem_cons_of_mem r hs)
    have hr := h r List.mem_cons_self
    rw [Rule.keeps, Bool.and_eq_true] at hr
    have hrule := takeRulesFrom_ruleText (Formula.woven_inside _ hr.1) (Formula.woven_inside _ hr.2)
      (following ' ' (rules.map Rule.chars))
    have hline : following ' ' ((r :: rules).map Rule.chars) = ' ' :: ('{' :: (r.antecedent.insideChars ++ '}' :: ' ' ::
        '=' :: '>' :: ' ' :: '{' :: (r.consequent.insideChars ++ '}' :: ' ' :: '.' ::
          following ' ' (rules.map Rule.chars)))) := by
      simp [following, Rule.chars, Formula.chars_eq]
    refine ⟨' ' :: (" . ".toList ++ remainder), ?_, ?_⟩
    · rw [hline, takeRulesFrom_space, hrule, htake]
      rfl
    · have hstop : " . ".toList ++ remainder = ' ' :: '.' :: ' ' :: remainder := rfl
      rw [hstop, statements_space, statements_space, statements_stop, statements_space, hstatements]

/-- the rules are taken out of the lines, and the triples remain as statements -/
theorem takeRulesFrom_lines {triples : List Triple} {rules : List Rule}
    (htriples : ∀ t ∈ triples, t.keeps .writable = true) (hrules : ∀ r ∈ rules, r.keeps .writable = true) :
    ∃ remainder, takeRulesFrom none (following ' ' (triples.map Triple.chars ++ rules.map Rule.chars)) =
        .ok ⟨remainder, rules.map Rule.ruleText⟩ ∧
      statements remainder = triples.map Triple.keyChars := by
  induction triples with
  | nil => exact takeRulesFrom_rules hrules
  | cons t triples ih =>
    obtain ⟨remainder, htake, hstatements⟩ := ih fun u hu => htriples u (List.mem_cons_of_mem t hu)
    have ht := htriples t List.mem_cons_self
    have hkey : Woven (fun _ => True) true (t.keyChars ++ [' ']) :=
      Triple.woven (fun _ _ => trivial) ⟨trivial, trivial, trivial⟩ t ht (.space trivial .nil)
    have hline : following ' ' ((t :: triples).map Triple.chars ++ rules.map Rule.chars) =
        ' ' :: ((t.keyChars ++ [' ']) ++ '.' :: following ' ' (triples.map Triple.chars ++ rules.map Rule.chars)) := by
      simp [following, Triple.chars]
    have hstop : ∀ u, takeRulesFrom none ('.' :: u) = (takeRulesFrom none u).map (.behind ['.']) :=
      takeRulesFrom_row (List.forall_mem_singleton.2 (by decide))
    refine ⟨' ' :: (t.keyChars ++ ' ' :: '.' :: remainder), ?_, ?_⟩
    · rw [hline, takeRulesFrom_space, takeRulesFrom_woven hkey (noArrow_cons (by decide) (by decide) _), hstop, htake]
      simp [Except.map, Extract.behind]
    · rw [statements_space, Triple.statements_keyChars ht, hstatements, List.map_cons]

/-- the same with spaces between the lines only -/
theorem takeRules_lines {triples : List Triple} {rules : List Rule} (htriples : ∀ t ∈ triples, t.keeps .writable = true)
    (hrules : ∀ r ∈ rules, r.keeps .writable = true) :
    ∃ remainder, takeRules ([' '].intercalate (triples.map Triple.chars ++ rules.map Rule.chars)) =
        .ok ⟨remainder, rules.map Rule.ruleText⟩ ∧
      statements remainder = triples.map Triple.keyChars := by
  obtain ⟨remainder, htake, hstatements⟩ := takeRulesFrom_lines htriples hrules
  cases hlines : triples.map Triple.chars ++ rules.map Rule.chars with
  | nil =>
    rw [hlines] at htake
    exact ⟨remainder, congrArg (Except.mapError _) htake, hstatements⟩
  | cons l lines =>
    have hjoin : following ' ' (l :: lines) = ' ' :: [' '].intercalate (l :: lines) := by
      rw [intercalate_cons]
      rfl
    rw [hlines, hjoin, takeRulesFrom_space] at htake
    cases hinner : takeRulesFrom none ([' '].intercalate (l :: lines)) with
    | error fault => simp [hinner, Except.map] at htake
    | ok extract =>
      obtain ⟨inner, texts⟩ := extract
      rw [hinner] at htake
      cases htake
      refine ⟨inner, ?_, ?_⟩
      · rw [takeRules, hinner]
        rfl
      · rw [← hstatements]
        exact (statements_space inner).symm

/-! ## Documents -/

/-- a statement that starts with the mark of a term is no directive -/
theorem Directive.ofTokens_of_mark {head : List Char} {rest : List (List Char)} {c : Char} (hc : c ∈ head.head?)
    (hmark : c ∈ termMarks) : Directive.ofTokens (head :: rest) = .ok none := by
  have hword : ∀ w : String, w.toList.head?.any termMarks.contains = false → String.ofList head ≠ w := by
    rintro w hw rfl
    rw [String.toList_ofList, Option.mem_def.1 hc] at hw
    simp [hmark] at hw
  simp only [Directive.ofTokens]
  split
  case h_7 => rfl
  all_goals exact absurd ‹_› (hword _ (by decide))

theorem Triple.directive_keyChars {t : Triple} (h : t.keeps .writable = true) :
    Directive.ofTokens (tokens t.keyChars) = .ok none := by
  obtain ⟨s, p, o⟩ := t
  obtain ⟨c, hc, hmark⟩ := Term.head?_chars s
  rw [Triple.tokens_keyChars h]
  exact Directive.ofTokens_of_mark hc hmark

theorem quantifiers_map (ts : List Triple) : Item.quantifiers (ts.map Item.triple) = [] := by
  simp [Item.quantifiers, List.filterMap_map]

theorem Formula.eq_of_keeps {f : Formula} (h : f.keeps .writable = true) : ⟨f.triples, []⟩ = f := by
  obtain ⟨triples, quantifiers⟩ := f
  simp only [Formula.keeps, Bool.and_eq_true, List.isEmpty_iff] at h
  rw [h.2]

/-- the two formulas of a rule are read back, and nothing is declared in them -/
theorem RuleText.read_ruleText {r : Rule} (h : r.keeps .writable = true) :
    RuleText.read {} r.ruleText = .ok (r, []) := by
  rw [Rule.keeps, Bool.and_eq_true] at h
  rw [RuleText.read, Rule.ruleText, Formula.read_inside _ h.1, Formula.read_inside _ h.2]
  simp only [bind, Except.bind, pure, Except.pure, Item.triples_map, quantifiers_map, Formula.eq_of_keeps h.1,
    Formula.eq_of_keeps h.2, List.append_nil]

/-- reading a list succeeds if reading each member does -/
theorem mapM_map_ok {α β γ ε : Type} {f : α → Except ε β} {g : γ → α} {k : γ → β} {l : List γ}
    (h : ∀ c ∈ l, f (g c) = .ok (k c)) : (l.map g).mapM f = .ok (l.map k) := by
  induction l with
  | nil => rfl
  | cons c l ih =>
    rw [List.map_cons, List.mapM_cons, h c List.mem_cons_self, ih fun d hd => h d (List.mem_cons_of_mem c hd)]
    rfl

/-- the text of lines, as a list of characters -/
theorem toList_lines (triples : List Triple) (rules : List Rule) :
    ("\n".intercalate (triples.map Triple.text ++ rules.map Rule.text)).toList =
      ['\n'].intercalate (triples.map Triple.chars ++ rules.map Rule.chars) := by
  simp [String.toList_intercalate, Function.comp_def, Triple.text, Rule.text]

theorem liftRules_eq {triples : List Triple} (h : ∀ t ∈ triples, t.rule? = none) (rules : List Rule) :
    liftRules triples rules = (triples, rules) := by
  have hfacts : triples.filter (fun t => t.rule?.isNone) = triples := by
    rw [List.filter_eq_self]
    intro t ht
    simp [h t ht]
  have hrules : triples.filterMap Triple.rule? = [] := by
    rw [List.filterMap_eq_nil_iff]
    exact h
  rw [liftRules, hfacts, hrules, List.append_nil]

theorem Rule.quantify_nil : Rule.quantify [] = id := rfl

theorem isLine_lines {triples : List Triple} {rules : List Rule} (htriples : ∀ t ∈ triples, t.keeps .writable = true)
    (hrules : ∀ r ∈ rules, r.keeps .writable = true) :
    ∀ l ∈ triples.map Triple.chars ++ rules.map Rule.chars, IsLine l := by
  intro l hl
  rcases List.mem_append.1 hl with hl | hl
  · obtain ⟨t, ht, rfl⟩ := List.mem_map.1 hl
    exact Triple.isLine (htriples t ht)
  · obtain ⟨r, hr, rfl⟩ := List.mem_map.1 hl
    exact Rule.isLine (hrules r hr)

/-- **Round trip of documents.** Writable triples that are no rules, and writable rules, written line by line, are a
document of just these triples and these rules, in order. -/
theorem Document.ofText_lines (triples : List Triple) (rules : List Rule)
    (htriples : ∀ t ∈ triples, t.keeps .writable = true ∧ t.rule? = none)
    (hrules : ∀ r ∈ rules, r.keeps .writable = true) :
    Document.ofText ("\n".intercalate (triples.map Triple.text ++ rules.map Rule.text)) =
      .ok { triples, rules, builtins := [] } := by
  have hwritable : ∀ t ∈ triples, t.keeps .writable = true := fun t ht => (htriples t ht).1
  have hfacts : ∀ t ∈ triples, t.rule? = none := fun t ht => (htriples t ht).2
  obtain ⟨remainder, htake, hstatements⟩ := takeRules_lines hwritable hrules
  -- no statement is a directive, so nothing is declared and all statements are read
  let undirected : List (List Char × Option Directive) := triples.map fun t => (t.keyChars, none)
  have hdirectives : (triples.map Triple.keyChars).mapM
      (fun s => (Directive.ofTokens (tokens s)).map fun d => (s, d)) = .ok undirected := by
    refine mapM_map_ok ?_
    intro t ht
    rw [Triple.directive_keyChars (hwritable t ht)]
    rfl
  have hscope : Scope.ofDirectives (undirected.filterMap (·.2)) = {} := by
    simp [undirected, List.filterMap_map, Scope.ofDirectives]
  have hstay : undirected.filter (·.2.isNone) = undirected := by simp [undirected]
  have hitems : undirected.mapM (fun line => Item.read {} line.1) = .ok (triples.map Item.triple) :=
    mapM_map_ok fun t ht => Item.read_keyChars t (hwritable t ht)
  have hread : (rules.map Rule.ruleText).mapM (RuleText.read {}) = .ok (rules.map fun r => (r, [])) :=
    mapM_map_ok fun r hr => RuleText.read_ruleText (hrules r hr)
  have hrules' : (rules.map fun r => (r, ([] : List Quantifier))).map (·.1) = rules := by
    simp [Function.comp_def]
  have hquantifiers : (rules.map fun r => (r, ([] : List Quantifier))).flatMap (·.2) = [] := by simp
  rw [Document.ofText, toList_lines, compact_lines (isLine_lines hwritable hrules), htake]
  simp only [bind, Except.bind, pure, Except.pure, hstatements, hdirectives, hscope, hstay, hitems, hread,
    Item.triples_map, liftRules_eq hfacts, quantifiers_map, hrules', hquantifiers,
    List.nil_append, Rule.quantify_nil, List.map_id]

/-- facts that put every mark of the notation into a literal, and brackets of both kinds into each other -/
def knottyFacts : List Triple :=
  [⟨.var "x", .iri "http://example.org/v#says;a.b",
      .list [.literal "\"\x7b\x7d => (\n<#'\\" none (some "en-GB"), .list [],
        .formula ⟨[⟨.blank "b1", .iri "", .list [.literal ". ;" (some "urn:t#1") none, .formula ⟨[], []⟩]⟩], []⟩]⟩,
    ⟨.formula ⟨[], []⟩, .iri impliesIri, .literal "\x7d." none none⟩]

/-- a rule with a triple of two formulas inside it, and with nothing to conclude -/
def knottyRules : List Rule :=
  [⟨⟨[⟨.var "x", .iri "p", .formula ⟨[⟨.formula ⟨[], []⟩, .iri impliesIri, .formula ⟨[], []⟩⟩], []⟩⟩], []⟩, ⟨[], []⟩⟩]

/-- the knotty facts and rules are read back -/
theorem knotty_document_read :
    (∀ t ∈ knottyFacts, t.keeps .writable = true ∧ t.rule? = none) ∧ (∀ r ∈ knottyRules, r.keeps .writable = true) ∧
      Document.ofText ("\n".intercalate (knottyFacts.map Triple.text ++ knottyRules.map Rule.text)) =
        .ok { triples := knottyFacts, rules := knottyRules, builtins := [] } := by
  have hfacts : ∀ t ∈ knottyFacts, t.keeps .writable = true ∧ t.rule? = none := by decide +kernel
  have hrules : ∀ r ∈ knottyRules, r.keeps .writable = true := by decide +kernel
  exact ⟨hfacts, hrules, Document.ofText_lines knottyFacts knottyRules hfacts hrules⟩

end N3Rules
