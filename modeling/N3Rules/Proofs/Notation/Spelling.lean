/-
How a term that is read was spelled.

What a token is read as tells what the token looks like: its shape, and what was read of its parts. So every term comes
from one of seven spellings, and what holds of all of them at every depth holds of every term that is read.

- `Shape.chars_ofToken`: the shape of a token tells the token;
- `Term.Spelled`, `Term.spelled_of_read`: the spellings of a term;
- `Item.Spelled`, `Item.spelled_of_read`: the spellings of a statement;
- `IsReadName`, `Lettering.read`: the names that can be read, and the lettering of all that can be read;
- `Lettering.Admits`, `Term.keeps_of_read`: what is read keeps to every lettering that admits what can be spelled;
- `isLanguageTag_iff`: the grammar of language tags.
-/
import N3Rules.Proofs.Notation.Reading
import N3Rules.Proofs.Text.Pieces

namespace N3Rules

open Text

/-! ## Shapes -/

/-- the token that a shape is told of -/
def Shape.chars : Shape → List Char
  | .iri s => '<' :: (s ++ ['>'])
  | .literal s => '"' :: s
  | .var s => '?' :: s
  | .blank s => '_' :: ':' :: s
  | .list s => '(' :: (s ++ [')'])
  | .formula s => '{' :: (s ++ ['}'])
  | .name s => s

theorem dropLast_append_of_getLast? {s : List Char} {c : Char} (h : s.getLast? = some c) : s.dropLast ++ [c] = s := by
  rw [List.dropLast_append_getLast? c h]

theorem eq_of_iriReference? {w reference : List Char} (h : iriReference? w = some reference) :
    w = '<' :: (reference ++ ['>']) := by
  unfold iriReference? at h
  split at h
  · split at h
    · obtain rfl := Option.some.inj h
      rw [dropLast_append_of_getLast? ‹_›]
    · cases h
  · cases h

theorem inside?_eq_some_iff {o c : Char} {w s : List Char} :
    inside? o c w = some s ↔ w = o :: (s ++ [c]) ∧ closesAtEnd o c none 0 w = true := by
  cases w with
  | nil => simp [inside?]
  | cons d w =>
    simp only [inside?]
    constructor
    · intro h
      split at h
      · rename_i hw
        obtain ⟨rfl, hlast, hcloses⟩ := hw
        obtain rfl := Option.some.inj h
        exact ⟨by rw [dropLast_append_of_getLast? hlast], hcloses⟩
      · cases h
    · rintro ⟨hw, hcloses⟩
      obtain ⟨rfl, rfl⟩ := List.cons.inj hw
      rw [if_pos ⟨rfl, by simp, hcloses⟩, List.dropLast_concat]

theorem inside?_bracketed {o c : Char} {w : List Char} :
    inside? o c (o :: (w ++ [c])) = some w ↔ closesAtEnd o c none 0 (o :: (w ++ [c])) = true := by
  rw [inside?_eq_some_iff, and_iff_right rfl]

/-- the shape of a token tells the token -/
theorem Shape.chars_ofToken (w : List Char) : (Shape.ofToken w).chars = w := by
  unfold Shape.ofToken
  split
  · rename_i reference hreference
    exact (eq_of_iriReference? hreference).symm
  · rfl
  · rfl
  · rfl
  · split
    · rename_i hinside
      exact (inside?_eq_some_iff.1 hinside).1.symm
    · rename_i hinside
      exact (inside?_eq_some_iff.1 hinside).1.symm
    · rfl

theorem Shape.eq_chars {w : List Char} {shape : Shape} (h : Shape.ofToken w = shape) : w = shape.chars := by
  rw [← h, Shape.chars_ofToken]

/-! ## Spellings -/

/-- reading several texts gives what reading each of them gives -/
theorem mapM_eq_ok_iff {α β ε : Type} {f : α → Except ε β} {l : List α} {bs : List β} :
    l.mapM f = .ok bs ↔ List.Forall₂ (fun a b => f a = .ok b) l bs := by
  induction l generalizing bs with
  | nil =>
    constructor
    · intro h
      cases h
      exact .nil
    · intro h
      cases h
      rfl
  | cons a l ih =>
    rw [List.mapM_cons, bind_eq_ok_iff]
    constructor
    · rintro ⟨b, hb, hrest⟩
      obtain ⟨bs', hbs', hlast⟩ := bind_eq_ok_iff.1 hrest
      cases hlast
      exact .cons hb (ih.1 hbs')
    · intro h
      cases h with
      | cons hb hrest => exact ⟨_, hb, bind_eq_ok_iff.2 ⟨_, ih.2 hrest, rfl⟩⟩

/-- reading several texts relates each of them to what is read of it -/
theorem forall₂_of_mapM {α β ε : Type} {f : α → Except ε β} {R : α → β → Prop} {l : List α} {bs : List β}
    (h : l.mapM f = .ok bs) (hR : ∀ a ∈ l, ∀ b, f a = .ok b → R a b) : List.Forall₂ R l bs := by
  rw [mapM_eq_ok_iff] at h
  induction h with
  | nil => exact .nil
  | @cons a b l bs hb _ ih =>
    exact .cons (hR a List.mem_cons_self b hb) (ih fun c hc => hR c (List.mem_cons_of_mem a hc))

theorem mem_of_mapM {α β ε : Type} {f : α → Except ε β} {l : List α} {bs : List β} (h : l.mapM f = .ok bs) :
    ∀ b ∈ bs, ∃ a ∈ l, f a = .ok b := by
  rw [mapM_eq_ok_iff] at h
  induction h with
  | nil => simp
  | cons hb _ ih =>
    rintro b (_ | ⟨_, hmem⟩)
    · exact ⟨_, List.mem_cons_self, hb⟩
    · obtain ⟨a, ha, hread⟩ := ih b hmem
      exact ⟨a, List.mem_cons_of_mem _ ha, hread⟩

/-- a trimmed token is read as a term -/
inductive Term.Spelled (scope : Scope) (w : List Char) : Term → Prop where
  | reference {s : List Char} : Shape.ofToken w = .iri s → Spelled scope w (.iri (scope.iriOfReference s))
  | literal {rest : List Char} {t : Term} : Shape.ofToken w = .literal rest → readLiteral? scope rest = some t →
      Spelled scope w t
  | var {name : List Char} : Shape.ofToken w = .var name → name ≠ [] → Spelled scope w (.var (String.ofList name))
  | blank {id : List Char} : Shape.ofToken w = .blank id → id ≠ [] → Spelled scope w (.blank (String.ofList id))
  | list {inside : List Char} {items : List Term} : Shape.ofToken w = .list inside →
      (tokens inside).mapM (Term.read scope) = .ok items → Spelled scope w (.list items)
  | formula {inside : List Char} {items : List Item} : Shape.ofToken w = .formula inside →
      (statements inside).mapM (Item.read scope) = .ok items → Spelled scope w (.formula ⟨Item.triples items, []⟩)
  | name {s : List Char} : Shape.ofToken w = .name s → Spelled scope w (.iri (scope.iriOfName s))

theorem map_eq_ok_iff {α β ε : Type} {f : α → β} {x : Except ε α} {b : β} :
    x.map f = .ok b ↔ ∃ a, x = .ok a ∧ f a = b := by
  cases x <;> simp [Except.map]

theorem Term.spelled_of_read {scope : Scope} {token : List Char} {t : Term} (h : Term.read scope token = .ok t) :
    Term.Spelled scope (trim token) t := by
  cases hshape : Shape.ofToken (trim token) with
  | iri s =>
    rw [Term.read_iri hshape] at h
    cases h
    exact .reference hshape
  | literal rest =>
    cases hliteral : readLiteral? scope rest with
    | some u =>
      rw [Term.read_literal hshape hliteral] at h
      cases h
      exact .literal hshape hliteral
    | none =>
      rw [Term.read] at h
      split at h <;> simp_all
  | var name =>
    cases name with
    | nil =>
      rw [Term.read] at h
      split at h <;> simp_all
    | cons c name =>
      rw [Term.read_var hshape (List.cons_ne_nil c name)] at h
      cases h
      exact .var hshape (List.cons_ne_nil c name)
  | blank id =>
    cases id with
    | nil =>
      rw [Term.read] at h
      split at h <;> simp_all
    | cons c id =>
      rw [Term.read_blank hshape (List.cons_ne_nil c id)] at h
      cases h
      exact .blank hshape (List.cons_ne_nil c id)
  | list inside =>
    rw [Term.read_list hshape, map_eq_ok_iff] at h
    obtain ⟨items, hitems, rfl⟩ := h
    exact .list hshape hitems
  | formula inside =>
    rw [Term.read_formula hshape, map_eq_ok_iff] at h
    obtain ⟨items, hitems, rfl⟩ := h
    rw [Item.readAll_eq] at hitems
    exact .formula hshape hitems
  | name s =>
    rw [Term.read_name hshape] at h
    cases h
    exact .name hshape

/-- a declaration starts with its keyword -/
theorem Clause.head_of_declaration {ts names : List (List Char)} {kind : QuantifierKind}
    (h : Clause.ofTokens ts = .declaration kind names) : ∃ head rest, ts = head :: rest ∧
      (head = "@forAll".toList ∨ head = "@forSome".toList) := by
  have hkind : ts.head?.bind quantifierKind? = some kind := by
    unfold Clause.ofTokens at h
    split at h <;> cases h
    assumption
  obtain ⟨head, hhead, hword⟩ := Option.bind_eq_some_iff.1 hkind
  obtain ⟨rest, rfl⟩ := List.head?_eq_some_iff.1 hhead
  refine ⟨head, rest, rfl, ?_⟩
  unfold quantifierKind? at hword
  split at hword
  · exact .inl ‹_›
  · split at hword
    · exact .inr ‹_›
    · cases hword

theorem Clause.tokens_of_triple {statement a b c : List Char} (h : Clause.ofStatement statement = .triple a b c) :
    tokens statement = [a, b, c] := by
  unfold Clause.ofStatement Clause.ofTokens at h
  split at h
  · cases h
  · cases h
    assumption
  · cases h

/-- a statement is read as a triple or as a quantifier declaration -/
inductive Item.Spelled (scope : Scope) (statement : List Char) : Item → Prop where
  | triple {a b c : List Char} {s p o : Term} : Clause.ofStatement statement = .triple a b c →
      Term.read scope a = .ok s → Term.read scope b = .ok p → Term.read scope c = .ok o →
      Spelled scope statement (.triple ⟨s, p, o⟩)
  | quantifier {kind : QuantifierKind} {names : List (List Char)} {vars : List Term} :
      Clause.ofStatement statement = .declaration kind names → names.mapM (Term.read scope) = .ok vars →
      Spelled scope statement (.quantifier ⟨kind, vars⟩)

theorem Item.spelled_of_read {scope : Scope} {statement : List Char} {i : Item}
    (h : Item.read scope statement = .ok i) : Item.Spelled scope statement i := by
  cases hclause : Clause.ofStatement statement with
  | declaration kind names =>
    rw [Item.read_declaration hclause, map_eq_ok_iff] at h
    obtain ⟨vars, hvars, rfl⟩ := h
    exact .quantifier hclause hvars
  | triple a b c =>
    rw [Item.read_clause hclause] at h
    obtain ⟨s, hs, h⟩ := bind_eq_ok_iff.1 h
    obtain ⟨p, hp, h⟩ := bind_eq_ok_iff.1 h
    obtain ⟨o, ho, h⟩ := bind_eq_ok_iff.1 h
    cases h
    exact .triple hclause hs hp ho
  | other n =>
    rw [Item.read] at h
    split at h <;> simp_all

/-! ## What can be read -/

theorem Term.allKeep_iff {l : Lettering} {ts : List Term} :
    Term.allKeep l ts = true ↔ ∀ t ∈ ts, t.keeps l = true := by
  induction ts with
  | nil => simp [Term.allKeep]
  | cons t ts ih => simp [Term.allKeep, ih]

theorem Triple.allKeep_iff {l : Lettering} {ts : List Triple} :
    Triple.allKeep l ts = true ↔ ∀ t ∈ ts, t.keeps l = true := by
  induction ts with
  | nil => simp [Triple.allKeep]
  | cons t ts ih => simp [Triple.allKeep, ih]

/-- a formula that keeps to a lettering has no quantifiers, and its terms keep to it -/
theorem Formula.keeps_iff {l : Lettering} {f : Formula} :
    f.keeps l = true ↔ f.quantifiers = [] ∧ ∀ t ∈ f.triples, t.keeps l = true := by
  obtain ⟨triples, quantifiers⟩ := f
  simp [Formula.keeps, Triple.allKeep_iff, and_comm]

/-- whether all terms of a statement keep to a lettering -/
def Item.keeps (l : Lettering) : Item → Bool
  | .triple t => t.keeps l
  | .quantifier q => Term.allKeep l q.vars

/-- whether a text may be a name that is read: it is not empty, and no blank ends it -/
def isClosedName (s : List Char) : Bool :=
  !s.isEmpty && s.getLast?.all fun c => !isBlank c

/-- what a variable or a blank node that is read can be named -/
def IsReadName (name : String) : Prop :=
  name ≠ "" ∧ ∀ c ∈ name.toList.getLast?, isBlank c = false

theorem isClosedName_iff {name : String} : isClosedName name.toList = true ↔ IsReadName name := by
  cases h : name.toList.getLast? with
  | none =>
    rw [List.getLast?_eq_none_iff] at h
    simp [isClosedName, IsReadName, String.toList_eq_nil_iff.1 h]
  | some c =>
    have hne : name ≠ "" := by
      rintro rfl
      cases h
    have hnil : name.toList ≠ [] := by simpa using hne
    simp [isClosedName, IsReadName, h, hne, hnil]

/-- a lettering allows all that names, references and literals can be spelled with in a scope -/
structure Lettering.Admits (l : Lettering) (scope : Scope) : Prop where
  name : ∀ s, isClosedName s = true → l.name s = true
  reference : ∀ s, l.reference s = true
  datatype : ∀ s datatype, readDatatype? scope s = some datatype → l.datatype datatype.toList = true
  language : ∀ s, isLanguageTag s = true → l.language s = true

/-- the lettering of what is read, with a class of datatypes -/
def Lettering.read (datatype : List Char → Bool) : Lettering where
  name := isClosedName
  reference := fun _ => true
  datatype := datatype
  language := isLanguageTag

/-- the lettering of what is read in any scope: what is declared may make any datatype of a name -/
def Lettering.scoped : Lettering :=
  .read fun _ => true

theorem Lettering.admits_scoped (scope : Scope) : Lettering.scoped.Admits scope where
  name := fun _ h => h
  reference := fun _ => rfl
  datatype := fun _ _ _ => rfl
  language := fun _ h => h

/-- the end of a trimmed token, after its marks -/
theorem isClosedName_of_trim {token name : List Char} (marks : List Char) (h : trim token = marks ++ name)
    (hne : name ≠ []) :
    isClosedName name = true := by
  have hlast : ∀ c ∈ name.getLast?, isBlank c = false := by
    intro c hc
    refine getLast?_trim token c ?_
    rw [h, List.getLast?_append, hc]
    rfl
  cases hget : name.getLast? with
  | none => exact absurd (List.getLast?_eq_none_iff.1 hget) hne
  | some c => simp [isClosedName, hne, hget, hlast c hget]

section Keeps

variable {l : Lettering} {scope : Scope}

/-- a literal that is read has a datatype or a language, or neither -/
theorem keeps_of_readLiteral? (hl : l.Admits scope) {rest : List Char} {t : Term}
    (h : readLiteral? scope rest = some t) : t.keeps l = true := by
  simp only [readLiteral?, Option.bind_eq_bind, Option.bind_eq_some_iff, Option.pure_def, Option.some.injEq] at h
  obtain ⟨⟨value, suffix⟩, -, ⟨datatype, language⟩, hsuffix, rfl⟩ := h
  change l.suffix datatype language = true
  unfold readSuffix? at hsuffix
  split at hsuffix
  · cases hsuffix
    rfl
  · obtain ⟨d, hd, hpair⟩ := Option.map_eq_some_iff.1 hsuffix
    cases hpair
    exact hl.datatype _ d hd
  · split at hsuffix
    · rename_i tag _ htag
      cases hsuffix
      change l.language (String.ofList tag).toList = true
      rw [String.toList_ofList]
      exact hl.language tag htag
    · cases hsuffix
  · cases hsuffix

/-- a statement keeps to a lettering if the terms that are read of tokens no longer than it do -/
theorem Item.keeps_of_terms {statement : List Char}
    (hterms : ∀ token t, token.length ≤ statement.length → Term.read scope token = .ok t → t.keeps l = true)
    {i : Item} (h : Item.read scope statement = .ok i) : i.keeps l = true := by
  cases Item.spelled_of_read h with
  | triple hclause hs hp ho =>
    obtain ⟨ha, hb, hc⟩ := length_le_of_triple hclause
    simp [Item.keeps, Triple.keeps, hterms _ _ ha hs, hterms _ _ hb hp, hterms _ _ hc ho]
  | quantifier hclause hvars =>
    rw [Item.keeps, Term.allKeep_iff]
    intro v hv
    obtain ⟨name, hname, hread⟩ := mem_of_mapM hvars v hv
    exact hterms name v (length_le_of_declaration hclause hname) hread

theorem Item.mem_triples {items : List Item} {t : Triple} : t ∈ Item.triples items ↔ .triple t ∈ items := by
  rw [Item.triples, List.mem_filterMap]
  constructor
  · rintro ⟨i, hi, hit⟩
    cases i with
    | triple u =>
      cases hit
      exact hi
    | quantifier q => cases hit
  · intro h
    exact ⟨_, h, rfl⟩

theorem Item.mem_quantifiers {items : List Item} {q : Quantifier} :
    q ∈ Item.quantifiers items ↔ .quantifier q ∈ items := by
  rw [Item.quantifiers, List.mem_filterMap]
  constructor
  · rintro ⟨i, hi, hiq⟩
    cases i with
    | triple t => cases hiq
    | quantifier r =>
      cases hiq
      exact hi
  · intro h
    exact ⟨_, h, rfl⟩

/-- what is read keeps to every lettering that admits what can be spelled -/
theorem Term.keeps_of_read (hl : l.Admits scope) {token : List Char} {t : Term} (h : Term.read scope token = .ok t) :
    t.keeps l = true := by
  induction hn : token.length using Nat.strong_induction_on generalizing token t with
  | _ n ih =>
    subst hn
    have htrim := length_trim_le token
    cases Term.spelled_of_read h with
    | reference _ => exact hl.reference _
    | literal _ hliteral => exact keeps_of_readLiteral? hl hliteral
    | @var name hshape hne =>
      change l.name (String.ofList name).toList = true
      rw [String.toList_ofList]
      exact hl.name _ (isClosedName_of_trim ['?'] (Shape.eq_chars hshape) hne)
    | @blank id hshape hne =>
      change l.name (String.ofList id).toList = true
      rw [String.toList_ofList]
      exact hl.name _ (isClosedName_of_trim ['_', ':'] (Shape.eq_chars hshape) hne)
    | list hshape hitems =>
      change Term.allKeep l _ = true
      rw [Term.allKeep_iff]
      intro u hu
      obtain ⟨w, hw, hread⟩ := mem_of_mapM hitems u hu
      have hinside := length_of_list_shape hshape
      have hlength := length_le_of_mem_tokens hw
      exact ih w.length (by omega) hread rfl
    | @formula inside items hshape hitems =>
      refine Formula.keeps_iff.2 ⟨rfl, ?_⟩
      intro u hu
      obtain ⟨statement, hstatement, hread⟩ := mem_of_mapM hitems _ (Item.mem_triples.1 hu)
      have hinside := length_of_formula_shape hshape
      have hlength := length_le_of_mem_statements hstatement
      refine Item.keeps_of_terms (i := .triple u) ?_ hread
      intro w t hw hread'
      exact ih w.length (by omega) hread' rfl
    | name _ => exact hl.reference _

theorem Item.keeps_of_read (hl : l.Admits scope) {statement : List Char} {i : Item}
    (h : Item.read scope statement = .ok i) : i.keeps l = true :=
  Item.keeps_of_terms (fun _ _ _ hread => Term.keeps_of_read hl hread) h

end Keeps

/-! ## Language tags -/

/-- the grammar of language tags: letters, and groups of letters and digits, each after a hyphen -/
def IsLanguage (s : List Char) : Prop :=
  ∃ letters groups, s = letters ++ following '-' groups ∧ (letters ≠ [] ∧ ∀ c ∈ letters, c.isAlpha = true) ∧
    ∀ g ∈ groups, g ≠ [] ∧ ∀ c ∈ g, c.isAlphanum = true

theorem isRunOf_iff {p : Char → Bool} {s : List Char} :
    isRunOf p s = true ↔ s ≠ [] ∧ ∀ c ∈ s, p c = true := by
  simp [isRunOf]

theorem isLanguageTag_iff {s : List Char} : isLanguageTag s = true ↔ IsLanguage s := by
  constructor
  · intro h
    unfold isLanguageTag at h
    split at h
    · cases h
    · rename_i letters groups hsplit
      simp only [Bool.and_eq_true, List.all_eq_true, isRunOf_iff] at h
      refine ⟨letters, groups, ?_, h⟩
      rw [← intercalate_cons, ← hsplit]
      exact (List.intercalate_splitOn '-').symm
  · rintro ⟨letters, groups, rfl, hletters, hgroups⟩
    have hhyphen : ∀ g ∈ letters :: groups, '-' ∉ g := by
      rintro g (_ | ⟨_, hg⟩) hmem
      · exact absurd (hletters.2 '-' hmem) (by decide)
      · exact absurd ((hgroups g hg).2 '-' hmem) (by decide)
    rw [← intercalate_cons, isLanguageTag, List.splitOn_intercalate '-' hhyphen (List.cons_ne_nil _ _)]
    simp only [Bool.and_eq_true, List.all_eq_true, isRunOf_iff]
    exact ⟨hletters, hgroups⟩

end N3Rules
