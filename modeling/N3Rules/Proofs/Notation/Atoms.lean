/-
Which terms that are no lists and no formulas are read back as they were written.

A reference is read back whatever it holds, and a literal without a datatype and a language whatever its value is. A name
is read back if it could be read at all: reading trims its end. A language tag is read back if it is one. What is written
after carets is read back as a datatype only up to its first `>` or blank, and there it has to end.

- `Lettering.atomic`: the lettering of what is read back where nothing stands around it;
- `readSuffix?_written`: datatypes and language tags;
- `Term.read_atom_iff`, `atoms_returned`: what is read back, kind by kind.
-/
import N3Rules.Document
import N3Rules.Proofs.Notation.Spelling

namespace N3Rules

open Text

/-! ## Literals -/

/-- the lettering of what is read back as it is written, where nothing stands around it -/
def Lettering.atomic : Lettering :=
  .read isDatatype

theorem trimEnd_append_cons {c : Char} (hc : isBlank c = false) (s t : List Char) :
    trimEnd (s ++ c :: t) = s ++ c :: trimEnd t := by
  induction s with
  | nil => exact trimEnd_cons hc t
  | cons d s ih =>
    rw [List.cons_append, trimEnd, ih]
    cases s <;> rfl

/-- a blank at the end of a language tag is not read -/
theorem isLanguageTag_trimEnd {s : List Char} (h : isLanguageTag s = true) : trimEnd s = s := by
  refine trimEnd_eq_self ?_
  intro c hc
  exact isBlank_of_isNameChar (isNameChar_of_isLanguageTag h (List.mem_of_getLast? hc))

/-- what stands behind the closing quote is read back if it is a datatype, a language tag or nothing -/
theorem readSuffix?_written {datatype language : Option String} :
    readSuffix? {} (trimEnd (literalSuffix datatype language)) = some (datatype, language) ↔
      Lettering.atomic.suffix datatype language = true := by
  match datatype, language with
  | none, none => simp [literalSuffix, trimEnd, readSuffix?, Lettering.suffix]
  | some datatype, language =>
    have htrim : trimEnd ('^' :: '^' :: ('<' :: (datatype.toList ++ ['>']))) =
        '^' :: '^' :: ('<' :: (datatype.toList ++ ['>'])) := by
      refine trimEnd_eq_self ?_
      rw [← List.cons_append, ← List.cons_append, ← List.cons_append, List.getLast?_concat]
      simp
      decide
    have hread : readSuffix? {} (trimEnd (literalSuffix (some datatype) language)) =
        (readDatatype? {} ('<' :: (datatype.toList ++ ['>']))).map fun d => (some d, none) :=
      congrArg (readSuffix? {}) htrim
    rw [hread, Option.map_eq_some_iff]
    cases language with
    | none =>
      constructor
      · rintro ⟨d, hd, hpair⟩
        obtain rfl := Option.some.inj (Prod.mk.inj hpair).1
        exact readDatatype?_reference.1 hd
      · intro h
        exact ⟨datatype, readDatatype?_reference.2 h, rfl⟩
    | some language => simp [Lettering.suffix]
  | none, some language =>
    have hread : readSuffix? {} (trimEnd (literalSuffix none (some language))) =
        if isLanguageTag (trimEnd language.toList) then some (none, some (String.ofList (trimEnd language.toList)))
        else none :=
      congrArg (readSuffix? {}) (trimEnd_cons (by decide) _)
    rw [hread]
    change _ ↔ isLanguageTag language.toList = true
    constructor
    · intro h
      split at h
      · rename_i htag
        have heq := congrArg String.toList (Option.some.inj (Prod.mk.inj (Option.some.inj h)).2)
        rw [String.toList_ofList] at heq
        rwa [heq] at htag
      · cases h
    · intro h
      rw [isLanguageTag_trimEnd h, h, String.ofList_toList]
      rfl

/-! ## Atoms -/

/-- whether a term is no list and no formula -/
def Term.isAtom : Term → Bool
  | .list _ | .formula _ => false
  | _ => true

theorem trimEnd_of_isClosedName {s : List Char} (h : isClosedName s = true) : s ≠ [] ∧ trimEnd s = s := by
  simp only [isClosedName, Bool.and_eq_true, Option.all_eq_true, Bool.not_eq_true'] at h
  exact ⟨by simpa using h.1, trimEnd_eq_self h.2⟩

theorem Term.read_literal_iff {scope : Scope} {token rest : List Char} {t : Term}
    (h : Shape.ofToken (trim token) = .literal rest) :
    Term.read scope token = .ok t ↔ readLiteral? scope rest = some t := by
  constructor
  · intro hread
    cases Term.spelled_of_read hread with
    | literal hshape hliteral =>
      rw [h] at hshape
      cases hshape
      exact hliteral
    | _ => simp_all
  · exact Term.read_literal h

theorem Term.trim_literal (value : String) (datatype language : Option String) :
    trim (Term.literal value datatype language).chars =
      '"' :: (escape value.toList ++ '"' :: trimEnd (literalSuffix datatype language)) := by
  rw [Term.chars, List.cons_append, trim_cons (by decide), trimEnd_append_cons (by decide)]

/-- an atom is read back as it was written if and only if its names, its datatype and its language tag allow it -/
theorem Term.read_atom_iff {t : Term} (h : t.isAtom = true) :
    Term.read {} t.chars = .ok t ↔ t.keeps .atomic = true := by
  cases t with
  | var name =>
    refine ⟨fun hread => Term.keeps_of_read (Lettering.admits_scoped {}) hread, ?_⟩
    intro hname
    obtain ⟨hne, htrim⟩ := trimEnd_of_isClosedName hname
    have hshape : Shape.ofToken (trim (Term.var name).chars) = .var name.toList := by
      rw [Term.chars, trim_cons (by decide), htrim]
      rfl
    rw [Term.read_var hshape hne, String.ofList_toList]
  | blank id =>
    refine ⟨fun hread => Term.keeps_of_read (Lettering.admits_scoped {}) hread, ?_⟩
    intro hid
    obtain ⟨hne, htrim⟩ := trimEnd_of_isClosedName hid
    have hshape : Shape.ofToken (trim (Term.blank id).chars) = .blank id.toList := by
      rw [Term.chars, trim_cons (by decide), trimEnd_cons (by decide), htrim]
      rfl
    rw [Term.read_blank hshape hne, String.ofList_toList]
  | literal value datatype language =>
    have hshape : Shape.ofToken (trim (Term.literal value datatype language).chars) =
        .literal (escape value.toList ++ '"' :: trimEnd (literalSuffix datatype language)) := by
      rw [Term.trim_literal]
      rfl
    rw [Term.read_literal_iff hshape, readLiteral?_written, Option.map_eq_some_iff]
    change _ ↔ Lettering.atomic.suffix datatype language = true
    rw [← readSuffix?_written]
    constructor
    · rintro ⟨s, hs, heq⟩
      cases heq
      exact hs
    · exact fun hs => ⟨_, hs, rfl⟩
  | iri value =>
    have hbare : IsBare (Term.iri value).chars :=
      (isBare_char (c := '<') (by decide)).around (isBare_char (c := '>') (by decide)) value.toList
    have hshape : Shape.ofToken (trim (Term.iri value).chars) = .iri value.toList := by
      rw [hbare.trim_eq]
      simp [Shape.ofToken, Term.chars, iriReference?]
    rw [Term.read_iri hshape, iriOfReference_default, String.ofList_toList]
    exact iff_of_true rfl rfl
  | list items => cases h
  | formula body => cases h

/-- a term is read back as it was written -/
def Term.Returns (t : Term) : Prop :=
  Term.ofText t.text = .ok t

theorem Term.returns_iff {t : Term} : t.Returns ↔ Term.read {} t.chars = .ok t := by
  rw [Term.Returns, Term.ofText, Term.text, String.toList_ofList]

theorem Term.atom_returns_iff {t : Term} (h : t.isAtom = true) : t.Returns ↔ t.keeps .atomic = true :=
  Term.returns_iff.trans (Term.read_atom_iff h)

/-- **Round trip of atoms.** Every reference is read back as it was written, and every literal without a datatype and a
language. A variable or a blank node is read back exactly if its name is not empty and does not end in a blank, a literal
with a datatype exactly if that is not empty and holds neither `>` nor a blank, and a literal with a language exactly if
that is a language tag. A literal with both never is. -/
theorem atoms_returned :
    (∀ value, (Term.iri value).Returns) ∧
    (∀ name, (Term.var name).Returns ↔ IsReadName name) ∧
    (∀ id, (Term.blank id).Returns ↔ IsReadName id) ∧
    (∀ value, (Term.literal value none none).Returns) ∧
    (∀ value datatype, (Term.literal value (some datatype) none).Returns ↔
      datatype ≠ "" ∧ ∀ c ∈ datatype.toList, c ≠ '>' ∧ isBlank c = false) ∧
    (∀ value language, (Term.literal value none (some language)).Returns ↔ IsLanguage language.toList) ∧
    ∀ value datatype language, ¬(Term.literal value (some datatype) (some language)).Returns := by
  refine ⟨?_, ?_, ?_, ?_, ?_, ?_, ?_⟩
  · exact fun value => (Term.atom_returns_iff rfl).2 rfl
  · exact fun name => (Term.atom_returns_iff rfl).trans isClosedName_iff
  · exact fun id => (Term.atom_returns_iff rfl).trans isClosedName_iff
  · exact fun value => (Term.atom_returns_iff rfl).2 rfl
  · intro value datatype
    have hempty : datatype ≠ "" ↔ datatype.toList ≠ [] := by simp
    rw [Term.atom_returns_iff rfl, hempty]
    exact isDatatype_iff
  · exact fun value language => (Term.atom_returns_iff rfl).trans isLanguageTag_iff
  · intro value datatype language hreturns
    have hsuffix := (Term.atom_returns_iff rfl).1 hreturns
    cases hsuffix

end N3Rules
