/-
What is written is read back: terms, and the statements of a formula, with nothing declared.

- `readDatatype?_eq_some_iff`: the texts that are read as a datatype;
- `readLiteral?_escape`: a literal, whatever its value is;
- `Term.isToken`: a term is one token, so the items of a list and the terms of a triple come apart where they should;
- `statements_allChars`: each triple of a formula is one statement;
- `Term.read_chars`, `Item.read_keyChars`, `Item.readAll_inside`: terms, triples and insides of formulas are read back.
-/
import N3Rules.Term.Read
import N3Rules.Proofs.Notation.Writable
import N3Rules.Proofs.Text.Cutting
import N3Rules.Proofs.Text.Groups

namespace N3Rules

open Text

/-- two steps of which each may fail give a result exactly if the first does, and the second from it -/
theorem bind_eq_ok_iff {ε α β : Type} {x : Except ε α} {f : α → Except ε β} {b : β} :
    x >>= f = .ok b ↔ ∃ a, x = .ok a ∧ f a = .ok b := by
  cases x <;> simp [bind, Except.bind]

/-! ## Literals -/

theorem readQuoted_escape (s t : List Char) : readQuoted (escape s ++ '"' :: t) = some (s, t) := by
  induction s with
  | nil => simp [escape, readQuoted]
  | cons c s ih =>
    rw [escape, List.flatMap_cons, List.append_assoc]
    change readQuoted (escapeChar c ++ (escape s ++ '"' :: t)) = _
    unfold escapeChar
    split
    case h_6 hquote hslash _ _ _ =>
      rw [List.singleton_append, readQuoted, ih]
      · rfl
      all_goals simp_all
    all_goals
      simp only [List.cons_append, List.nil_append, readQuoted, ih]
      rfl

/-! ## Datatypes -/

/-- whether a text is not empty and holds no blank -/
def isWord (s : List Char) : Bool :=
  !s.isEmpty && s.all fun c => !isBlank c

/-- whether a text may stand between angle brackets after carets -/
def isDatatype (s : List Char) : Bool :=
  !s.isEmpty && s.all fun c => c != '>' && !isBlank c

theorem isDatatype_iff {s : List Char} :
    isDatatype s = true ↔ s ≠ [] ∧ ∀ c ∈ s, c ≠ '>' ∧ isBlank c = false := by
  simp [isDatatype]

theorem leadingReference?_eq_some_iff {s body rest : List Char} :
    leadingReference? s = some (body, rest) ↔ s = '<' :: (body ++ '>' :: rest) ∧ isDatatype body = true := by
  constructor
  · intro h
    unfold leadingReference? at h
    split at h
    · rename_i s
      dsimp only at h
      split at h
      · rename_i hbody hrest
        cases h
        have hsplit := List.prefix_iff_eq_append.1 (List.takeWhile_prefix (l := s) fun c => c != '>' && !isBlank c)
        rw [hrest] at hsplit
        have hall : (s.takeWhile fun c => c != '>' && !isBlank c).all (fun c => c != '>' && !isBlank c) = true :=
          List.all_takeWhile
        have hne : (s.takeWhile fun c => c != '>' && !isBlank c).isEmpty = false := by rw [hbody]; rfl
        exact ⟨by rw [hsplit], by rw [isDatatype, hne, hall]; rfl⟩
      · cases h
    · cases h
  · rintro ⟨rfl, hbody⟩
    rw [isDatatype, Bool.and_eq_true, List.all_eq_true] at hbody
    have htake : (body ++ '>' :: rest).takeWhile (fun c => c != '>' && !isBlank c) = body := by
      rw [List.takeWhile_append_of_pos hbody.2]
      simp
    obtain ⟨c, body, rfl⟩ := List.exists_cons_of_ne_nil (l := body) (by simpa using hbody.1)
    simp only [leadingReference?, htake, List.drop_left]

/-- nothing is added to a reference when nothing is declared -/
theorem iriOfReference_default (s : List Char) : Scope.iriOfReference {} s = String.ofList s := rfl

theorem iriOfName_default (name : List Char) : Scope.iriOfName {} name = String.ofList name := by
  unfold Scope.iriOfName
  split
  · rfl
  · split
    · rfl
    · rfl
    · simp_all [Scope.namespace?]

/-- a text that is read as a datatype is a reference, or else a word -/
theorem readDatatype?_eq_some_iff {s : List Char} {datatype : String} :
    readDatatype? {} s = some datatype ↔ (s = '<' :: (datatype.toList ++ ['>']) ∧ isDatatype datatype.toList = true) ∨
      (leadingReference? s = none ∧ s = datatype.toList ∧ isWord s = true) := by
  constructor
  · intro h
    unfold readDatatype? at h
    split at h
    · rename_i body hleading
      rw [iriOfReference_default] at h
      cases h
      rw [String.toList_ofList]
      exact .inl (leadingReference?_eq_some_iff.1 hleading)
    · cases h
    · rename_i hleading
      split at h
      · rename_i hword
        rw [iriOfName_default] at h
        cases h
        exact .inr ⟨hleading, String.toList_ofList.symm, hword⟩
      · cases h
  · rintro (⟨rfl, hdatatype⟩ | ⟨hleading, rfl, hword⟩)
    · have hleading : leadingReference? ('<' :: (datatype.toList ++ ['>'])) = some (datatype.toList, []) :=
        leadingReference?_eq_some_iff.2 ⟨rfl, hdatatype⟩
      rw [readDatatype?, hleading]
      simp [iriOfReference_default]
    · rw [readDatatype?, hleading]
      change (if isWord datatype.toList = true then _ else _) = _
      rw [if_pos hword, iriOfName_default, String.ofList_toList]

/-- what is written after carets is read back as a datatype if it can be one -/
theorem readDatatype?_reference {datatype : String} :
    readDatatype? {} ('<' :: (datatype.toList ++ ['>'])) = some datatype ↔ isDatatype datatype.toList = true := by
  rw [readDatatype?_eq_some_iff]
  constructor
  · rintro (⟨-, h⟩ | ⟨-, hname, -⟩)
    · exact h
    · -- a word would keep its angle brackets
      have hlength := congrArg List.length hname
      simp at hlength
      omega
  · exact fun h => .inl ⟨rfl, h⟩

theorem isDatatype_of_isReference {s : List Char} (h : (!s.isEmpty && isReference s) = true) : isDatatype s = true := by
  rw [isDatatype_iff]
  simp only [isReference, Bool.and_eq_true, List.all_eq_true] at h
  refine ⟨by simpa using h.1, ?_⟩
  intro c hc
  obtain ⟨hblank, hmarks⟩ := isReferenceChar_iff.1 (h.2.1 c hc)
  simp only [enclosers, List.mem_cons, not_or] at hmarks
  exact ⟨by simp [hmarks], hblank⟩

theorem readSuffix?_literalSuffix {datatype language : Option String}
    (h : Lettering.writable.suffix datatype language = true) :
    readSuffix? {} (literalSuffix datatype language) = some (datatype, language) := by
  match datatype, language with
  | none, none => rfl
  | some datatype, none =>
    have hread := readDatatype?_reference.2 (isDatatype_of_isReference h)
    simp [literalSuffix, readSuffix?, hread]
  | none, some language =>
    change isLanguageTag language.toList = true at h
    simp [literalSuffix, readSuffix?, h]
  | some _, some _ => simp [Lettering.suffix] at h

/-- a literal is read back as far as what stands behind its closing quote is -/
theorem readLiteral?_written (value : String) (suffix : List Char) :
    readLiteral? {} (escape value.toList ++ '"' :: suffix) =
      (readSuffix? {} suffix).map fun s => .literal value s.1 s.2 := by
  rw [readLiteral?, readQuoted_escape]
  cases hsuffix : readSuffix? {} suffix <;> simp [hsuffix]

/-- a literal is read back, whatever its value is -/
theorem readLiteral?_escape (value : String) {datatype language : Option String}
    (h : Lettering.writable.suffix datatype language = true) :
    readLiteral? {} (escape value.toList ++ '"' :: literalSuffix datatype language) =
      some (.literal value datatype language) := by
  rw [readLiteral?_written, readSuffix?_literalSuffix h]
  rfl

/-! ## Tokens -/

/-- what the written forms of terms start with -/
def termMarks : List Char :=
  ['?', '"', '_', '<', '(', '{']

/-- the written form of a term starts with the mark of its kind -/
theorem Term.head?_chars (t : Term) : ∃ c ∈ t.chars.head?, c ∈ termMarks := by
  cases t with
  | formula body => exact ⟨'{', by simp [Term.chars, Formula.chars_eq], by decide⟩
  | _ => exact ⟨_, by simp [Term.chars]; rfl, by decide⟩

theorem Term.isToken {t : Term} (h : t.keeps .writable = true) : IsToken t.chars := by
  by_cases hlist : ∃ items, t = .list items
  · obtain ⟨items, rfl⟩ := hlist
    have hitems : Woven (fun _ => True) false (Term.spacedChars items) := Term.woven_spaced items h
    exact isToken_list hitems
  · have hnames : HoldsNames IsWordChar := by
      intro c hc
      have hr := isReferenceChar_iff.1 (isReferenceChar_of_isPlain (isPlain_of_isNameChar hc))
      simp only [enclosers, List.mem_cons, not_or] at hr
      exact ⟨hr.1, by simp [hr], by simp [hr]⟩
    have hwoven : Woven IsWordChar false (t.chars ++ []) :=
      Term.woven hnames t h (fun items ht => absurd ⟨items, ht⟩ hlist) .nil
    rw [List.append_nil] at hwoven
    have hbare := Term.isBare_chars h
    exact isToken_word hwoven hbare.ne_nil hbare.trim_eq

theorem Text.IsToken.alone {w : List Char} (h : IsToken w) : tokens w = [w] := by
  have htokens := h [] (by simp)
  rwa [List.append_nil] at htokens

theorem Text.IsToken.before_space {w : List Char} (h : IsToken w) (t : List Char) :
    tokens (w ++ ' ' :: t) = w :: tokens t := by
  rw [h _ (by simp), tokens_space]

/-- the items of a list are its tokens -/
theorem tokens_spacedChars (ts : List Term) (h : Term.allKeep .writable ts = true) :
    tokens (Term.spacedChars ts) = ts.map Term.chars := by
  induction ts with
  | nil => rfl
  | cons t ts ih =>
    rw [Term.allKeep, Bool.and_eq_true] at h
    have ht := Term.isToken h.1
    cases ts with
    | nil => exact ht.alone
    | cons u ts =>
      rw [Term.spacedChars, ht.before_space, ih h.2]
      rfl

/-- the terms of a triple are its tokens -/
theorem Triple.tokens_keyChars {s p o : Term} (h : Triple.keeps .writable ⟨s, p, o⟩ = true) :
    tokens (Triple.keyChars ⟨s, p, o⟩) = [s.chars, p.chars, o.chars] := by
  simp only [Triple.keeps, Bool.and_eq_true] at h
  obtain ⟨⟨hs, hp⟩, ho⟩ := h
  rw [Triple.keyChars, List.append_assoc, List.cons_append, (Term.isToken hs).before_space,
    (Term.isToken hp).before_space, (Term.isToken ho).alone]

/-! ## Statements -/

/-- a token that starts with the mark of a term declares no quantifier -/
theorem quantifierKind?_of_mark {token : List Char} {c : Char} (hc : c ∈ token.head?) (hmark : c ∈ termMarks) :
    quantifierKind? token = none := by
  have hat : ∀ w, token ≠ '@' :: w := by
    rintro w rfl
    cases hc
    exact absurd hmark (by decide)
  simp [quantifierKind?, hat]

/-- a triple is no quantifier declaration -/
theorem Triple.clause_keyChars {s p o : Term} (h : Triple.keeps .writable ⟨s, p, o⟩ = true) :
    Clause.ofStatement (Triple.keyChars ⟨s, p, o⟩) = .triple s.chars p.chars o.chars := by
  obtain ⟨c, hc, hmark⟩ := Term.head?_chars s
  simp [Clause.ofStatement, Triple.tokens_keyChars h, Clause.ofTokens, quantifierKind?_of_mark hc hmark]

theorem Triple.woven_statement {t : Triple} (h : t.keeps .writable = true) :
    Woven IsStatementChar true t.keyChars := by
  have hnames : HoldsNames IsStatementChar := by
    intro c hc
    have hblank := isBlank_of_isNameChar hc
    simp only [isNameChar, Bool.and_eq_true, bne_iff_ne] at hc
    refine ⟨hc.1.2, hc.2, ?_⟩
    rintro rfl
    exact absurd hblank (by decide)
  have hbrackets : IsStatementChar ' ' ∧ IsStatementChar '(' ∧ IsStatementChar ')' := by
    simp [IsStatementChar]
  have hwoven : Woven IsStatementChar true (t.keyChars ++ []) := Triple.woven hnames hbrackets t h .nil
  rwa [List.append_nil] at hwoven

/-- a triple is a statement, up to its full stop -/
theorem Triple.statements_keyChars {t : Triple} (h : t.keeps .writable = true) (u : List Char) :
    statements (t.keyChars ++ ' ' :: '.' :: u) = t.keyChars :: statements u :=
  statements_statement (Triple.woven_statement h) (Triple.isBare_keyChars h).ne_nil (Triple.isBare_keyChars h).trim_eq u

theorem statements_allChars (ts : List Triple) (h : Triple.allKeep .writable ts = true) :
    statements (Triple.allChars ts) = ts.map Triple.keyChars := by
  induction ts with
  | nil => rfl
  | cons t ts ih =>
    rw [Triple.allKeep, Bool.and_eq_true] at h
    rw [Triple.allChars, Triple.statements_keyChars h.1, statements_space, ih h.2, List.map_cons]

/-- the triples of a formula are its statements -/
theorem Formula.statements_insideChars (f : Formula) (h : f.keeps .writable = true) :
    statements f.insideChars = f.triples.map Triple.keyChars := by
  obtain ⟨triples, quantifiers⟩ := f
  rw [Formula.keeps, Bool.and_eq_true] at h
  cases triples with
  | nil => rfl
  | cons t ts => exact (statements_space _).trans (statements_allChars (t :: ts) h.1)

/-! ## Terms -/

/-- a triple is read term by term, up to the first error -/
theorem Item.read_clause {scope : Scope} {statement a b c : List Char}
    (h : Clause.ofStatement statement = .triple a b c) : Item.read scope statement = (do
      let s ← Term.read scope a
      let p ← Term.read scope b
      let o ← Term.read scope c
      return .triple ⟨s, p, o⟩) := by
  rw [Item.read]
  split <;> simp_all only [reduceCtorEq, Clause.triple.injEq]

theorem Item.read_triple {scope : Scope} {statement a b c : List Char} {s p o : Term}
    (h : Clause.ofStatement statement = .triple a b c) (hs : Term.read scope a = .ok s) (hp : Term.read scope b = .ok p)
    (ho : Term.read scope c = .ok o) : Item.read scope statement = .ok (.triple ⟨s, p, o⟩) := by
  rw [Item.read_clause h, hs, hp, ho]
  rfl

theorem Item.read_other {scope : Scope} {statement : List Char} {found : Nat}
    (h : Clause.ofStatement statement = .other found) :
    Item.read scope statement = .error (.arity (String.ofList statement) found) := by
  rw [Item.read]
  split <;> simp_all

section Shapes

variable {scope : Scope} {token : List Char}

theorem Term.read_iri {reference : List Char} (h : Shape.ofToken (trim token) = .iri reference) :
    Term.read scope token = .ok (.iri (scope.iriOfReference reference)) := by
  rw [Term.read]
  split <;> simp_all

theorem Term.read_name {name : List Char} (h : Shape.ofToken (trim token) = .name name) :
    Term.read scope token = .ok (.iri (scope.iriOfName name)) := by
  rw [Term.read]
  split <;> simp_all

theorem Term.read_literal {rest : List Char} {t : Term} (h : Shape.ofToken (trim token) = .literal rest)
    (ht : readLiteral? scope rest = some t) : Term.read scope token = .ok t := by
  rw [Term.read]
  split <;> simp_all

theorem Term.read_var {name : List Char} (h : Shape.ofToken (trim token) = .var name) (hne : name ≠ []) :
    Term.read scope token = .ok (.var (String.ofList name)) := by
  rw [Term.read]
  split <;> simp_all

theorem Term.read_blank {id : List Char} (h : Shape.ofToken (trim token) = .blank id) (hne : id ≠ []) :
    Term.read scope token = .ok (.blank (String.ofList id)) := by
  rw [Term.read]
  split <;> simp_all

theorem Term.read_malformed {rest : List Char} (h : Shape.ofToken (trim token) = .literal rest)
    (hliteral : readLiteral? scope rest = none) :
    Term.read scope token = .error (.malformedLiteral (String.ofList (trim token))) := by
  rw [Term.read]
  split <;> simp_all

theorem Term.read_nameless_var (h : Shape.ofToken (trim token) = .var []) :
    Term.read scope token = .error (.namelessVariable (String.ofList (trim token))) := by
  rw [Term.read]
  split <;> simp_all

theorem Term.read_nameless_blank (h : Shape.ofToken (trim token) = .blank []) :
    Term.read scope token = .error (.namelessBlank (String.ofList (trim token))) := by
  rw [Term.read]
  split <;> simp_all

end Shapes

theorem Shape.ofToken_list {w : List Char} (h : Woven (fun _ => True) false w) :
    Shape.ofToken ('(' :: (w ++ [')'])) = .list w := by
  simp [Shape.ofToken, iriReference?, inside?_woven (Or.inl ⟨rfl, rfl⟩) h]

theorem Shape.ofToken_formula {w : List Char} (h : Woven (fun _ => True) false w) :
    Shape.ofToken ('{' :: (w ++ ['}'])) = .formula w := by
  have hlist : inside? '(' ')' ('{' :: (w ++ ['}'])) = none := by simp [inside?]
  simp [Shape.ofToken, iriReference?, hlist, inside?_woven (Or.inr ⟨rfl, rfl⟩) h]

/-- triples are all that items made of triples hold -/
theorem Item.triples_map (ts : List Triple) : Item.triples (ts.map Item.triple) = ts := by
  simp [Item.triples, List.filterMap_map]

mutual

/-- the written form of a writable term is read back -/
theorem Term.read_chars (t : Term) (h : t.keeps .writable = true) : Term.read {} t.chars = .ok t := by
  have htrim := (Term.isBare_chars h).trim_eq
  match t with
  | .var name =>
    have hshape : Shape.ofToken (trim (Term.var name).chars) = .var name.toList := by
      rw [htrim]
      rfl
    rw [Term.read_var hshape (isBare_name h).ne_nil, String.ofList_toList]
  | .literal value datatype language =>
    have hshape : Shape.ofToken (trim (Term.literal value datatype language).chars) =
        .literal (escape value.toList ++ '"' :: literalSuffix datatype language) := by
      rw [htrim]
      rfl
    exact Term.read_literal hshape (readLiteral?_escape value h)
  | .blank id =>
    have hshape : Shape.ofToken (trim (Term.blank id).chars) = .blank id.toList := by
      rw [htrim]
      rfl
    rw [Term.read_blank hshape (isBare_name h).ne_nil, String.ofList_toList]
  | .iri value =>
    have hshape : Shape.ofToken (trim (Term.iri value).chars) = .iri value.toList := by
      rw [htrim]
      simp [Shape.ofToken, Term.chars, iriReference?]
    rw [Term.read_iri hshape, iriOfReference_default, String.ofList_toList]
  | .list items =>
    have hshape : Shape.ofToken (trim (Term.list items).chars) = .list (Term.spacedChars items) := by
      rw [htrim, Term.chars]
      exact Shape.ofToken_list (Term.woven_spaced items h)
    rw [Term.read_list hshape, tokens_spacedChars items h, Term.mapM_read items h]
    rfl
  | .formula body =>
    have hshape : Shape.ofToken (trim (Term.formula body).chars) = .formula body.insideChars := by
      rw [htrim, Term.chars, Formula.chars_eq]
      exact Shape.ofToken_formula (Formula.woven_inside body h)
    rw [Term.read_formula hshape, Formula.read_inside body h]
    obtain ⟨triples, quantifiers⟩ := body
    simp only [Term.keeps, Formula.keeps, Bool.and_eq_true, List.isEmpty_iff] at h
    simp [Except.map, Item.triples_map, h.2]

theorem Term.mapM_read (ts : List Term) (h : Term.allKeep .writable ts = true) :
    (ts.map Term.chars).mapM (Term.read {}) = .ok ts := by
  match ts with
  | [] => rfl
  | t :: ts =>
    rw [Term.allKeep, Bool.and_eq_true] at h
    rw [List.map_cons, List.mapM_cons, Term.read_chars t h.1, Term.mapM_read ts h.2]
    rfl

/-- the written form of a writable triple is read back -/
theorem Item.read_keyChars (t : Triple) (h : t.keeps .writable = true) : Item.read {} t.keyChars = .ok (.triple t) := by
  obtain ⟨s, p, o⟩ := t
  have hclause := Triple.clause_keyChars h
  simp only [Triple.keeps, Bool.and_eq_true] at h
  exact Item.read_triple hclause (Term.read_chars s h.1.1) (Term.read_chars p h.1.2) (Term.read_chars o h.2)

theorem Item.mapM_read (ts : List Triple) (h : Triple.allKeep .writable ts = true) :
    (ts.map Triple.keyChars).mapM (Item.read {}) = .ok (ts.map Item.triple) := by
  match ts with
  | [] => rfl
  | t :: ts =>
    rw [Triple.allKeep, Bool.and_eq_true] at h
    rw [List.map_cons, List.mapM_cons, Item.read_keyChars t h.1, Item.mapM_read ts h.2]
    rfl

/-- the inside of a writable formula is read back -/
theorem Formula.read_inside (f : Formula) (h : f.keeps .writable = true) :
    Item.readAll {} f.insideChars = .ok (f.triples.map Item.triple) := by
  rw [Item.readAll_eq, Formula.statements_insideChars f h]
  obtain ⟨triples, quantifiers⟩ := f
  rw [Formula.keeps, Bool.and_eq_true] at h
  exact Item.mapM_read triples h.1

end

end N3Rules
