/-
What is written as it stands: the names in terms, and the datatypes and languages of literals. The values of literals
are not, as they are escaped.

A line feed in a written form is one of a name, therefore. Reading makes up no names: all that stands in them comes from
the text, or was put in for a rule.

- `Term.verbatim`, `Triple.verbatim`, `Document.verbatim`: what is written as it stands;
- `Triple.newline_mem_chars`: where a written form has a line feed;
- `Term.verbatim_instantiate`, `Term.verbatim_of_mem_parts`: instantiating and taking apart make up no names;
- `Term.verbatim_of_read`, `Document.verbatim_of_ofText`: reading makes up no names.
-/
import N3Rules.Proofs.Match
import N3Rules.Proofs.Notation.Documents
import N3Rules.Proofs.Text.Origin

namespace N3Rules

open Text

/-! ## What is written as it stands -/

/-- the same of what follows the closing quote of a literal -/
def verbatimSuffix : Option String → Option String → List Char
  | some datatype, _ => datatype.toList
  | none, some language => language.toList
  | none, none => []

mutual

/-- what is written of a term as it stands in it -/
def Term.verbatim : Term → List Char
  | .var name => name.toList
  | .literal _ datatype language => verbatimSuffix datatype language
  | .blank id => id.toList
  | .iri value => value.toList
  | .list items => Term.allVerbatim items
  | .formula body => body.verbatim

def Term.allVerbatim : List Term → List Char
  | [] => []
  | t :: ts => t.verbatim ++ Term.allVerbatim ts

def Triple.verbatim : Triple → List Char
  | ⟨s, p, o⟩ => s.verbatim ++ p.verbatim ++ o.verbatim

def Triple.allVerbatim : List Triple → List Char
  | [] => []
  | t :: ts => t.verbatim ++ Triple.allVerbatim ts

def Formula.verbatim : Formula → List Char
  | ⟨triples, _⟩ => Triple.allVerbatim triples

end

/-- what is written as it stands of the facts of a document, and of what its rules conclude -/
def Document.verbatim (d : Document) : List Char :=
  Triple.allVerbatim d.triples ++ d.rules.flatMap fun r => r.consequent.verbatim

theorem Term.mem_allVerbatim {c : Char} {ts : List Term} : c ∈ Term.allVerbatim ts ↔ ∃ t ∈ ts, c ∈ t.verbatim := by
  induction ts with
  | nil => simp [Term.allVerbatim]
  | cons t ts ih => simp [Term.allVerbatim, ih]

theorem Triple.mem_allVerbatim {c : Char} {ts : List Triple} :
    c ∈ Triple.allVerbatim ts ↔ ∃ t ∈ ts, c ∈ t.verbatim := by
  induction ts with
  | nil => simp [Triple.allVerbatim]
  | cons t ts ih => simp [Triple.allVerbatim, ih]

theorem Triple.mem_verbatim {c : Char} {t : Triple} : c ∈ t.verbatim ↔ ∃ u ∈ t.terms, c ∈ u.verbatim := by
  obtain ⟨s, p, o⟩ := t
  simp [Triple.verbatim, Triple.terms]

theorem Formula.verbatim_eq (f : Formula) : f.verbatim = Triple.allVerbatim f.triples := by
  obtain ⟨triples, quantifiers⟩ := f
  rfl

/-! ## Line feeds in written forms -/

theorem newline_not_mem_escape (s : List Char) : '\n' ∉ escape s := by
  intro h
  obtain ⟨c, -, hc⟩ := List.mem_flatMap.1 h
  unfold escapeChar at hc
  split at hc
  case h_6 _ _ hnewline _ _ => exact hnewline (List.mem_singleton.1 hc).symm
  all_goals simp at hc

theorem newline_mem_literalSuffix (datatype language : Option String) :
    '\n' ∈ literalSuffix datatype language ↔ '\n' ∈ verbatimSuffix datatype language := by
  cases datatype <;> cases language <;> simp [literalSuffix, verbatimSuffix]

mutual

theorem Term.newline_mem_chars (t : Term) : '\n' ∈ t.chars ↔ '\n' ∈ t.verbatim := by
  cases t with
  | literal value datatype language =>
    simp [Term.chars, Term.verbatim, newline_not_mem_escape, newline_mem_literalSuffix]
  | list items => simp [Term.chars, Term.verbatim, Term.newline_mem_spacedChars items]
  | formula body => simp [Term.chars, Term.verbatim, Formula.newline_mem_chars body]
  | _ => simp [Term.chars, Term.verbatim]

theorem Term.newline_mem_spacedChars (ts : List Term) : '\n' ∈ Term.spacedChars ts ↔ '\n' ∈ Term.allVerbatim ts := by
  match ts with
  | [] => simp [Term.spacedChars, Term.allVerbatim]
  | [t] => simp [Term.spacedChars, Term.allVerbatim, Term.newline_mem_chars t]
  | t :: u :: ts =>
    have hrest := Term.newline_mem_spacedChars (u :: ts)
    rw [Term.spacedChars, Term.allVerbatim, List.mem_append, List.mem_append, List.mem_cons,
      Term.newline_mem_chars t, hrest]
    simp

theorem Triple.newline_mem_keyChars (t : Triple) : '\n' ∈ t.keyChars ↔ '\n' ∈ t.verbatim := by
  obtain ⟨s, p, o⟩ := t
  simp [Triple.keyChars, Triple.verbatim, Term.newline_mem_chars s, Term.newline_mem_chars p,
    Term.newline_mem_chars o]

theorem Triple.newline_mem_allChars (ts : List Triple) : '\n' ∈ Triple.allChars ts ↔ '\n' ∈ Triple.allVerbatim ts := by
  match ts with
  | [] => simp [Triple.allChars, Triple.allVerbatim]
  | t :: ts =>
    simp [Triple.allChars, Triple.allVerbatim, Triple.newline_mem_keyChars t, Triple.newline_mem_allChars ts]

theorem Formula.newline_mem_chars (f : Formula) : '\n' ∈ f.chars ↔ '\n' ∈ f.verbatim := by
  match f with
  | ⟨[], _⟩ => simp [Formula.chars, Formula.verbatim, Triple.allVerbatim]
  | ⟨t :: ts, _⟩ =>
    have hall := Triple.newline_mem_allChars (t :: ts)
    simp [Formula.chars, Formula.verbatim, hall]

end

/-- the written form of a triple has a line feed where what is written as it stands has one, and nowhere else -/
theorem Triple.newline_mem_chars (t : Triple) : '\n' ∈ t.chars ↔ '\n' ∈ t.verbatim := by
  simp [Triple.chars, Triple.newline_mem_keyChars]

/-! ## Instances and parts -/

mutual

/-- an instance has what the pattern has, and what the values have -/
theorem Term.verbatim_instantiate (b : Bindings) (c : Char) (t : Term) (h : c ∈ (t.instantiate b).verbatim) :
    c ∈ t.verbatim ∨ ∃ name value, b.find? name = some value ∧ c ∈ value.verbatim := by
  cases t with
  | var name =>
    rw [Term.instantiate] at h
    cases hf : b.find? name with
    | none =>
      rw [hf] at h
      exact .inl h
    | some value =>
      rw [hf] at h
      exact .inr ⟨name, value, hf, h⟩
  | list items => exact Term.allVerbatim_instantiateAll b c items h
  | formula body => exact Formula.verbatim_instantiate b c body h
  | _ => exact .inl h

theorem Term.allVerbatim_instantiateAll (b : Bindings) (c : Char) (ts : List Term)
    (h : c ∈ Term.allVerbatim (Term.instantiateAll b ts)) :
    c ∈ Term.allVerbatim ts ∨ ∃ name value, b.find? name = some value ∧ c ∈ value.verbatim := by
  cases ts with
  | nil => exact .inl h
  | cons t ts =>
    rcases List.mem_append.1 h with h | h
    · exact (Term.verbatim_instantiate b c t h).imp_left (List.mem_append_left _)
    · exact (Term.allVerbatim_instantiateAll b c ts h).imp_left (List.mem_append_right _)

theorem Triple.verbatim_instantiate (b : Bindings) (c : Char) (t : Triple) (h : c ∈ (t.instantiate b).verbatim) :
    c ∈ t.verbatim ∨ ∃ name value, b.find? name = some value ∧ c ∈ value.verbatim := by
  obtain ⟨s, p, o⟩ := t
  rcases List.mem_append.1 h with h | h
  · rcases List.mem_append.1 h with h | h
    · refine (Term.verbatim_instantiate b c s h).imp_left ?_
      exact fun hs => List.mem_append_left _ (List.mem_append_left _ hs)
    · refine (Term.verbatim_instantiate b c p h).imp_left ?_
      exact fun hp => List.mem_append_left _ (List.mem_append_right _ hp)
  · exact (Term.verbatim_instantiate b c o h).imp_left (List.mem_append_right _)

theorem Triple.allVerbatim_instantiateAll (b : Bindings) (c : Char) (ts : List Triple)
    (h : c ∈ Triple.allVerbatim (Triple.instantiateAll b ts)) :
    c ∈ Triple.allVerbatim ts ∨ ∃ name value, b.find? name = some value ∧ c ∈ value.verbatim := by
  cases ts with
  | nil => exact .inl h
  | cons t ts =>
    rcases List.mem_append.1 h with h | h
    · exact (Triple.verbatim_instantiate b c t h).imp_left (List.mem_append_left _)
    · exact (Triple.allVerbatim_instantiateAll b c ts h).imp_left (List.mem_append_right _)

theorem Formula.verbatim_instantiate (b : Bindings) (c : Char) (f : Formula) (h : c ∈ (f.instantiate b).verbatim) :
    c ∈ f.verbatim ∨ ∃ name value, b.find? name = some value ∧ c ∈ value.verbatim := by
  obtain ⟨triples, quantifiers⟩ := f
  exact Triple.allVerbatim_instantiateAll b c triples h

end

mutual

/-- the items of a list have nothing that the list has not -/
theorem Term.verbatim_of_mem_parts (t v : Term) (hv : v ∈ t.parts) : v.verbatim ⊆ t.verbatim := by
  cases t with
  | list items =>
    rcases List.mem_cons.1 hv with rfl | hv
    · exact List.Subset.refl _
    · exact Term.verbatim_of_mem_allParts items v hv
  | _ =>
    rw [Term.parts, List.mem_singleton] at hv
    rw [hv]
    exact List.Subset.refl _

theorem Term.verbatim_of_mem_allParts (ts : List Term) (v : Term) (hv : v ∈ Term.allParts ts) :
    v.verbatim ⊆ Term.allVerbatim ts := by
  cases ts with
  | nil => cases hv
  | cons t ts =>
    rcases List.mem_append.1 hv with hv | hv
    · exact List.Subset.trans (Term.verbatim_of_mem_parts t v hv) (List.subset_append_left _ _)
    · exact List.Subset.trans (Term.verbatim_of_mem_allParts ts v hv) (List.subset_append_right _ _)

end

/-- the parts of a triple have nothing that the triple has not -/
theorem Triple.verbatim_of_mem_parts {t : Triple} {v : Term} (hv : v ∈ t.parts) : v.verbatim ⊆ t.verbatim := by
  intro c hc
  exact Triple.mem_verbatim.2 (Term.mem_allVerbatim.1 (Term.verbatim_of_mem_allParts t.terms v hv hc))

/-! ## What is read -/

/-- what is declared to stand in front of names and references -/
def Scope.verbatim (scope : Scope) : List Char :=
  (scope.base.getD "").toList ++ scope.labels.flatMap fun l => l.2.toList

section Read

variable {scope : Scope}

/-- what a part of a text has, or is declared, the text has, or it is declared -/
theorem Scope.subset_of_part {u s t : List Char} (h : u ⊆ scope.verbatim ++ s) (hpart : s ⊆ t) :
    u ⊆ scope.verbatim ++ t :=
  List.Subset.trans h
    (List.append_subset.2 ⟨List.subset_append_left _ _, List.Subset.trans hpart (List.subset_append_right _ _)⟩)

theorem Scope.iriOfReference_subset (scope : Scope) (s : List Char) :
    (scope.iriOfReference s).toList ⊆ scope.verbatim ++ s := by
  unfold Scope.iriOfReference
  cases hbase : scope.base with
  | none => simp
  | some base =>
    dsimp only
    split
    · simp
    · rw [String.toList_append, String.toList_ofList]
      refine List.append_subset.2 ⟨?_, List.subset_append_right _ _⟩
      rw [Scope.verbatim, hbase, Option.getD_some, List.append_assoc]
      exact List.subset_append_left _ _

theorem subset_of_splitColon? {s label loc : List Char} (h : splitColon? s = some (label, loc)) : loc ⊆ s := by
  fun_induction splitColon? s generalizing label with
  | case1 => cases h
  | case2 s =>
    cases h
    exact List.subset_cons_self _ _
  | case3 c s _ ih =>
    obtain ⟨⟨label', loc'⟩, hsplit, hpair⟩ := Option.map_eq_some_iff.1 h
    cases hpair
    exact List.Subset.trans (ih hsplit) (List.subset_cons_self _ _)

theorem Scope.namespace_subset {label iri : String} (h : scope.namespace? label = some iri) :
    iri.toList ⊆ scope.verbatim := by
  obtain ⟨l₁, l₂, hl, -⟩ := List.lookup_eq_some_iff.1 h
  intro c hc
  refine List.mem_append_right _ (List.mem_flatMap.2 ⟨(label, iri), ?_, hc⟩)
  rw [hl]
  simp

theorem Scope.iriOfName_subset (scope : Scope) (s : List Char) : (scope.iriOfName s).toList ⊆ scope.verbatim ++ s := by
  have hself : (String.ofList s).toList ⊆ scope.verbatim ++ s := by
    rw [String.toList_ofList]
    exact List.subset_append_right _ _
  unfold Scope.iriOfName
  split
  · exact hself
  · rename_i label loc hsplit
    split
    · exact hself
    · exact hself
    · rename_i iri hiri
      rw [String.toList_append, String.toList_ofList]
      refine List.append_subset.2 ⟨?_, ?_⟩
      · exact List.Subset.trans (Scope.namespace_subset hiri) (List.subset_append_left _ _)
      · exact List.Subset.trans (subset_of_splitColon? hsplit) (List.subset_append_right _ _)

/-- what follows the closing quote is a part of the text -/
theorem readQuoted_subset {s value suffix : List Char} (h : readQuoted s = some (value, suffix)) : suffix ⊆ s := by
  fun_induction readQuoted s generalizing value with
  | case1 => cases h
  | case2 s =>
    cases h
    exact List.subset_cons_self _ _
  | case3 => cases h
  | case4 c s ih =>
    obtain ⟨⟨value', suffix'⟩, hread, hpair⟩ := Option.map_eq_some_iff.1 h
    cases hpair
    exact List.Subset.trans (ih hread) (List.subset_append_right ['\\', c] s)
  | case5 c s _ _ _ ih =>
    obtain ⟨⟨value', suffix'⟩, hread, hpair⟩ := Option.map_eq_some_iff.1 h
    cases hpair
    exact List.Subset.trans (ih hread) (List.subset_cons_self _ _)

theorem readDatatype?_subset {s : List Char} {datatype : String}
    (h : readDatatype? scope s = some datatype) : datatype.toList ⊆ scope.verbatim ++ s := by
  unfold readDatatype? at h
  split at h
  · rename_i body hbody
    cases h
    obtain ⟨rfl, -⟩ := leadingReference?_eq_some_iff.1 hbody
    exact Scope.subset_of_part (scope.iriOfReference_subset body) (by simp)
  · cases h
  · split at h
    · cases h
      exact scope.iriOfName_subset s
    · cases h

theorem readSuffix?_subset {s : List Char} {datatype language : Option String}
    (h : readSuffix? scope s = some (datatype, language)) :
    verbatimSuffix datatype language ⊆ scope.verbatim ++ s := by
  unfold readSuffix? at h
  split at h
  · cases h
    exact List.nil_subset _
  · rename_i s
    obtain ⟨d, hd, hpair⟩ := Option.map_eq_some_iff.1 h
    cases hpair
    exact Scope.subset_of_part (readDatatype?_subset hd) (List.subset_append_right ['^', '^'] s)
  · split at h
    · cases h
      rw [verbatimSuffix, String.toList_ofList]
      exact List.Subset.trans (List.subset_cons_self _ _) (List.subset_append_right _ _)
    · cases h
  · cases h

theorem readLiteral?_subset {rest : List Char} {t : Term} (h : readLiteral? scope rest = some t) :
    t.verbatim ⊆ scope.verbatim ++ rest := by
  obtain ⟨⟨value, suffix⟩, hquoted, h⟩ := Option.bind_eq_some_iff.1 h
  obtain ⟨⟨datatype, language⟩, hsuffix, h⟩ := Option.bind_eq_some_iff.1 h
  cases h
  exact Scope.subset_of_part (readSuffix?_subset hsuffix) (readQuoted_subset hquoted)

/-- the triple that a statement is read as has nothing but what the statement has, and what is declared, if it is so
with the terms that are read of tokens no longer than it -/
theorem Item.verbatim_of_terms {statement : List Char}
    (hterms : ∀ token t, token.length ≤ statement.length → Term.read scope token = .ok t →
      t.verbatim ⊆ scope.verbatim ++ token)
    {t : Triple} (h : Item.read scope statement = .ok (.triple t)) : t.verbatim ⊆ scope.verbatim ++ statement := by
  cases Item.spelled_of_read h with
  | @triple a b c s p o hclause hs hp ho =>
    obtain ⟨ha, hb, hc⟩ := length_le_of_triple hclause
    have hpart : ∀ token ∈ [a, b, c], token ⊆ statement := by
      rw [← Clause.tokens_of_triple hclause]
      intro token
      exact subset_of_mem_pieces
    have hsubject := Scope.subset_of_part (hterms a s ha hs) (hpart a (by simp))
    have hpredicate := Scope.subset_of_part (hterms b p hb hp) (hpart b (by simp))
    have hobject := Scope.subset_of_part (hterms c o hc ho) (hpart c (by simp))
    exact List.append_subset.2 ⟨List.append_subset.2 ⟨hsubject, hpredicate⟩, hobject⟩

/-- a term has nothing but what its token has, and what is declared -/
theorem Term.verbatim_of_read {token : List Char} {t : Term} (h : Term.read scope token = .ok t) :
    t.verbatim ⊆ scope.verbatim ++ token := by
  induction hn : token.length using Nat.strong_induction_on generalizing token t with
  | _ n ih =>
    subst hn
    have htrim := length_trim_le token
    -- what is left of the token without its marks is a part of it
    have hpart : ∀ {shape : Shape} {s : List Char}, Shape.ofToken (trim token) = shape → s ⊆ shape.chars →
        s ⊆ token := by
      intro shape s hshape hs
      rw [← Shape.eq_chars hshape] at hs
      exact List.Subset.trans hs (trim_subset token)
    cases Term.spelled_of_read h with
    | @reference s hshape =>
      exact Scope.subset_of_part (scope.iriOfReference_subset s) (hpart hshape (by simp [Shape.chars]))
    | literal hshape hliteral =>
      exact Scope.subset_of_part (readLiteral?_subset hliteral) (hpart hshape (by simp [Shape.chars]))
    | @var name hshape _ =>
      rw [Term.verbatim, String.toList_ofList]
      exact Scope.subset_of_part (List.subset_append_right _ _) (hpart hshape (by simp [Shape.chars]))
    | @blank id hshape _ =>
      rw [Term.verbatim, String.toList_ofList]
      exact Scope.subset_of_part (List.subset_append_right _ _) (hpart hshape (List.subset_append_right ['_', ':'] id))
    | @list inside items hshape hitems =>
      refine Scope.subset_of_part (s := inside) ?_ (hpart hshape (by simp [Shape.chars]))
      intro c hc
      obtain ⟨u, hu, hc⟩ := Term.mem_allVerbatim.1 hc
      obtain ⟨w, hw, hread⟩ := mem_of_mapM hitems u hu
      have hinside := length_of_list_shape hshape
      have hlength := length_le_of_mem_tokens hw
      exact Scope.subset_of_part (ih w.length (by omega) hread rfl) (subset_of_mem_pieces hw) hc
    | @formula inside items hshape hitems =>
      refine Scope.subset_of_part (s := inside) ?_ (hpart hshape (by simp [Shape.chars]))
      intro c hc
      obtain ⟨u, hu, hc⟩ := Triple.mem_allVerbatim.1 hc
      obtain ⟨w, hw, hread⟩ := mem_of_mapM hitems _ (Item.mem_triples.1 hu)
      have hinside := length_of_formula_shape hshape
      have hlength := length_le_of_mem_statements hw
      have hstatement : u.verbatim ⊆ scope.verbatim ++ w :=
        Item.verbatim_of_terms (fun token t hle hterm => ih token.length (by omega) hterm rfl) hread
      exact Scope.subset_of_part hstatement (subset_of_mem_pieces hw) hc
    | @name s hshape =>
      exact Scope.subset_of_part (scope.iriOfName_subset s) (hpart hshape (by simp [Shape.chars]))

/-- triples have nothing but what the text of their statements has, and what is declared -/
theorem Item.verbatim_of_mapM {text : List Char} {l : List (List Char)} (hl : l ⊆ statements text) {items : List Item}
    (h : l.mapM (Item.read scope) = .ok items) :
    Triple.allVerbatim (Item.triples items) ⊆ scope.verbatim ++ text := by
  intro c hc
  obtain ⟨t, ht, hc⟩ := Triple.mem_allVerbatim.1 hc
  obtain ⟨s, hs, hread⟩ := mem_of_mapM h _ (Item.mem_triples.1 ht)
  have hstatement := Item.verbatim_of_terms (fun _ _ _ hterm => Term.verbatim_of_read hterm) hread
  exact Scope.subset_of_part hstatement (subset_of_mem_pieces (hl hs)) hc

end Read

/-! ## Directives -/

def Directive.verbatim : Directive → List Char
  | .label _ iri => iri.toList
  | .base iri => iri.toList

theorem subset_of_iriReference? {w iri : List Char} (h : iriReference? w = some iri) : iri ⊆ w := by
  rw [eq_of_iriReference? h]
  simp

theorem labelDirective?_subset {ts : List (List Char)} {d : Directive} (h : labelDirective? ts = some d) :
    d.verbatim ⊆ ts.flatten := by
  unfold labelDirective? at h
  split at h
  · split at h
    · obtain ⟨iri, hiri, rfl⟩ := Option.map_eq_some_iff.1 h
      rw [Directive.verbatim, String.toList_ofList]
      exact List.Subset.trans (subset_of_iriReference? hiri) (by simp)
    · cases h
  · cases h

theorem baseDirective?_subset {ts : List (List Char)} {d : Directive} (h : baseDirective? ts = some d) :
    d.verbatim ⊆ ts.flatten := by
  unfold baseDirective? at h
  split at h
  · obtain ⟨iri, hiri, rfl⟩ := Option.map_eq_some_iff.1 h
    rw [Directive.verbatim, String.toList_ofList]
    exact List.Subset.trans (subset_of_iriReference? hiri) (by simp)
  · cases h

/-- a directive declares what its tokens have -/
theorem Directive.verbatim_of_ofTokens {ts : List (List Char)} {d : Directive}
    (h : Directive.ofTokens ts = .ok (some d)) : d.verbatim ⊆ ts.flatten := by
  cases ts with
  | nil => cases h
  | cons head rest =>
    suffices hrest : d.verbatim ⊆ rest.flatten from List.Subset.trans hrest (List.subset_append_right head rest.flatten)
    simp only [Directive.ofTokens] at h
    split at h
    · cases hlabel : labelDirective? rest with
      | none => simp [hlabel] at h
      | some d' =>
        simp only [hlabel, Option.map_some, Option.getD_some, Except.ok.injEq, Option.some.injEq] at h
        exact h ▸ labelDirective?_subset hlabel
    · cases hbase : baseDirective? rest with
      | none => simp [hbase] at h
      | some d' =>
        simp only [hbase, Option.map_some, Option.getD_some, Except.ok.injEq, Option.some.injEq] at h
        exact h ▸ baseDirective?_subset hbase
    · exact labelDirective?_subset (Except.ok.inj h)
    · exact labelDirective?_subset (Except.ok.inj h)
    · exact baseDirective?_subset (Except.ok.inj h)
    · exact baseDirective?_subset (Except.ok.inj h)
    · cases h

theorem Scope.verbatim_declare (scope : Scope) (d : Directive) :
    (scope.declare d).verbatim ⊆ scope.verbatim ++ d.verbatim := by
  cases d with
  | base iri =>
    intro c hc
    rcases List.mem_append.1 hc with hc | hc
    · exact List.mem_append_right _ hc
    · exact List.mem_append_left _ (List.mem_append_right _ hc)
  | label label iri =>
    intro c hc
    rcases List.mem_append.1 hc with hc | hc
    · exact List.mem_append_left _ (List.mem_append_left _ hc)
    · obtain ⟨l, hl, hc⟩ := List.mem_flatMap.1 hc
      rcases List.mem_cons.1 hl with rfl | hl
      · exact List.mem_append_right _ hc
      · refine List.mem_append_left _ (List.mem_append_right _ (List.mem_flatMap.2 ⟨l, ?_, hc⟩))
        exact (List.mem_filter.1 hl).1

theorem Scope.verbatim_foldl (ds : List Directive) (scope : Scope) :
    (ds.foldl Scope.declare scope).verbatim ⊆ scope.verbatim ++ ds.flatMap Directive.verbatim := by
  induction ds generalizing scope with
  | nil => simp
  | cons d ds ih =>
    refine List.Subset.trans (ih (scope.declare d)) (List.append_subset.2 ⟨?_, ?_⟩)
    · refine List.Subset.trans (scope.verbatim_declare d) (List.append_subset.2 ⟨List.subset_append_left _ _, ?_⟩)
      rw [List.flatMap_cons]
      exact List.Subset.trans (List.subset_append_left _ _) (List.subset_append_right _ _)
    · rw [List.flatMap_cons]
      exact List.Subset.trans (List.subset_append_right _ _) (List.subset_append_right _ _)

/-- a text declares what it has -/
theorem scopeOf_subset (text : List Char) : (scopeOf text).verbatim ⊆ text := by
  intro c hc
  have hmem := Scope.verbatim_foldl _ _ hc
  rw [show ({} : Scope).verbatim = [] from rfl, List.nil_append, List.mem_flatMap] at hmem
  obtain ⟨d, hd, hc⟩ := hmem
  obtain ⟨s, hs, hdirective⟩ := List.mem_filterMap.1 hd
  have htokens : Directive.ofTokens (tokens s) = .ok (some d) := by
    unfold directive? at hdirective
    split at hdirective
    · rename_i hok
      rw [hok, hdirective]
    · cases hdirective
  obtain ⟨w, hw, hc⟩ := List.mem_flatten.1 (Directive.verbatim_of_ofTokens htokens hc)
  exact subset_of_mem_pieces hs (subset_of_mem_pieces hw hc)

/-! ## Documents -/

/-- a rule concludes nothing but what the triple has that it is -/
theorem Triple.verbatim_of_rule? {t : Triple} {r : Rule} (h : t.rule? = some r) :
    r.consequent.verbatim ⊆ t.verbatim := by
  unfold Triple.rule? at h
  split at h
  · split at h
    · cases h
      exact List.subset_append_right _ _
    · cases h
  · cases h

theorem Rule.verbatim_quantify (qs : List Quantifier) (r : Rule) :
    (r.quantify qs).consequent.verbatim = r.consequent.verbatim := by
  obtain ⟨antecedent, ⟨triples, quantifiers⟩⟩ := r
  unfold Rule.quantify
  split <;> rfl

/-- **No made-up names.** All that is written as it stands of the facts of a document that is read, and of what its rules
conclude, is in the compact text, but for a full stop and the spaces around it. -/
theorem Document.verbatim_of_ofText {text : String} {d : Document} (h : Document.ofText text = .ok d) :
    d.verbatim ⊆ compact text.toList ++ " . ".toList := by
  obtain ⟨e, items, rules, he, hitems, hrules, rfl⟩ := Document.ofText_eq_ok h
  obtain ⟨hremainder, hsides⟩ := takeRules_subset he
  have hscope := List.Subset.trans (scopeOf_subset e.remainder) hremainder
  have hread : ∀ {part : List Char} {l : List (List Char)} {items : List Item},
      part ⊆ compact text.toList ++ " . ".toList → l ⊆ statements part →
      l.mapM (Item.read (scopeOf e.remainder)) = .ok items →
      Triple.allVerbatim (Item.triples items) ⊆ compact text.toList ++ " . ".toList := by
    intro part l items hpart hl hmap
    exact List.Subset.trans (Item.verbatim_of_mapM hl hmap) (List.append_subset.2 ⟨hscope, hpart⟩)
  have hstated := hread hremainder (List.filter_sublist.subset) hitems
  refine List.append_subset.2 ⟨?_, ?_⟩
  · intro c hc
    obtain ⟨t, ht, hc⟩ := Triple.mem_allVerbatim.1 hc
    exact hstated (Triple.mem_allVerbatim.2 ⟨t, (List.mem_filter.1 ht).1, hc⟩)
  · intro c hc
    obtain ⟨q, hq, hc⟩ := List.mem_flatMap.1 hc
    obtain ⟨r, hr, rfl⟩ := List.mem_map.1 hq
    rw [Rule.verbatim_quantify] at hc
    rcases List.mem_append.1 hr with hr | hr
    · obtain ⟨⟨rule, qs⟩, hrule, rfl⟩ := List.mem_map.1 hr
      obtain ⟨side, hside, hsideread⟩ := mem_of_mapM hrules _ hrule
      obtain ⟨antecedent, -, hsideread⟩ := bind_eq_ok_iff.1 hsideread
      obtain ⟨consequent, hconsequent, hsideread⟩ := bind_eq_ok_iff.1 hsideread
      rw [Item.readAll_eq] at hconsequent
      cases hsideread
      have htext := List.Subset.trans (hsides side hside).2 (List.subset_append_left _ " . ".toList)
      exact hread htext (List.Subset.refl _) hconsequent hc
    · obtain ⟨t, ht, hrule⟩ := List.mem_filterMap.1 hr
      exact hstated (Triple.mem_allVerbatim.2 ⟨t, ht, Triple.verbatim_of_rule? hrule hc⟩)

end N3Rules
