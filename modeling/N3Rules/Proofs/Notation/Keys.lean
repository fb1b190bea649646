/-
Which triples have one key.

The key of a triple escapes nothing but the values of literals, so two triples may have one key when a reference
holds `>`: `confusable_facts` is a document with such triples, of which one is refused. Where references hold no `>`,
and names neither a space nor `)`, what is written can be read in one way only, and no triple is taken for another.

- `Lettering.legible`: the lettering of what can be read in one way only;
- `Term.chars_inj`, `Triple.keyChars_inj`: two written forms with text after them are one text only if they are one;
- `legible_refused_iff`: of legible triples, only those that are stored already are refused.
-/
import N3Rules.Document
import N3Rules.Proofs.Insertions
import N3Rules.Proofs.Notation.Reading

namespace N3Rules

open Text

/-! ## Legible triples -/

/-- whether a character does not end a name; a space and a closing parenthesis do -/
def isLegibleChar (c : Char) : Bool :=
  c != ' ' && c != ')'

/-- whether a name shows where it ends -/
def isLegibleName (s : List Char) : Bool :=
  s.all isLegibleChar

/-- whether a reference shows where it ends -/
def isLegibleReference (s : List Char) : Bool :=
  s.all (· != '>')

/-- the lettering of what can be read in one way only -/
def Lettering.legible : Lettering where
  name := isLegibleName
  reference := isLegibleReference
  datatype := isLegibleReference
  language := isLegibleName

/-! ## Names, references and literals -/

/-- a run of characters of one class ends at the first character that is not of it -/
theorem run_inj {p : Char → Bool} {s s' a b : List Char} (hs : s.all p = true) (hs' : s'.all p = true)
    (ha : ∀ c ∈ a.head?, p c = false) (hb : ∀ c ∈ b.head?, p c = false) (h : s ++ a = s' ++ b) : s = s' ∧ a = b := by
  have hrun : ∀ {s a : List Char}, s.all p = true → (∀ c ∈ a.head?, p c = false) → (s ++ a).takeWhile p = s := by
    intro s a hs ha
    rw [List.all_eq_true] at hs
    rw [List.takeWhile_append_of_pos hs]
    cases a with
    | nil => simp
    | cons c a => simp [ha c rfl]
  have heq : s = s' := by rw [← hrun hs ha, h, hrun hs' hb]
  rw [heq] at h
  exact ⟨heq, List.append_cancel_left h⟩

theorem reference_inj {s s' a b : List Char} (hs : isLegibleReference s = true) (hs' : isLegibleReference s' = true)
    (h : s ++ '>' :: a = s' ++ '>' :: b) : s = s' ∧ a = b := by
  obtain ⟨heq, hrest⟩ := run_inj hs hs' (by simp) (by simp) h
  exact ⟨heq, List.tail_eq_of_cons_eq hrest⟩

theorem escape_inj {s s' a b : List Char} (h : escape s ++ '"' :: a = escape s' ++ '"' :: b) : s = s' ∧ a = b := by
  have hread := readQuoted_escape s a
  rw [h, readQuoted_escape] at hread
  cases hread
  exact ⟨rfl, rfl⟩

/-- what comes after a term: nothing, a space or a closing parenthesis -/
def IsEnd (a : List Char) : Prop :=
  ∀ c ∈ a.head?, isLegibleChar c = false

theorem isEnd_nil : IsEnd [] := by simp [IsEnd]

theorem isEnd_space (a : List Char) : IsEnd (' ' :: a) := by simp [IsEnd, isLegibleChar]

theorem isEnd_paren (a : List Char) : IsEnd (')' :: a) := by simp [IsEnd, isLegibleChar]

theorem literalSuffix_inj {d l d' l' : Option String} {a b : List Char} (hs : Lettering.legible.suffix d l = true)
    (hs' : Lettering.legible.suffix d' l' = true) (ha : IsEnd a) (hb : IsEnd b)
    (h : literalSuffix d l ++ a = literalSuffix d' l' ++ b) : d = d' ∧ l = l' ∧ a = b := by
  -- without a datatype and a language, the text ends there
  have hplain : ∀ {a : List Char} {c : Char} {s : List Char}, IsEnd a → a = c :: s → isLegibleChar c = false := by
    rintro a c s ha rfl
    exact ha c rfl
  match d, l, d', l' with
  | none, none, none, none => exact ⟨rfl, rfl, h⟩
  | none, none, some _, none => exact absurd (hplain ha h) (by decide)
  | none, none, none, some _ => exact absurd (hplain ha h) (by decide)
  | some _, none, none, none => exact absurd (hplain hb h.symm) (by decide)
  | none, some _, none, none => exact absurd (hplain hb h.symm) (by decide)
  | some d, none, some d', none =>
    simp only [literalSuffix, List.cons_append, List.append_assoc, List.cons.injEq, true_and] at h
    obtain ⟨heq, hrest⟩ := reference_inj hs hs' h
    rw [String.toList_inj] at heq
    exact ⟨congrArg some heq, rfl, hrest⟩
  | none, some l, none, some l' =>
    simp only [literalSuffix, List.cons_append, List.cons.injEq, true_and] at h
    obtain ⟨heq, hrest⟩ := run_inj hs hs' ha hb h
    rw [String.toList_inj] at heq
    exact ⟨rfl, congrArg some heq, hrest⟩
  | some _, none, none, some _ => simp [literalSuffix] at h
  | none, some _, some _, none => simp [literalSuffix] at h
  | some _, some _, _, _ => simp [Lettering.suffix] at hs
  | _, _, some _, some _ => simp [Lettering.suffix] at hs'

/-! ## Terms -/

/-- a written term starts with no character but the mark of a term -/
theorem Term.chars_append_ne {c : Char} (hc : c ∉ termMarks) (t : Term) (a b : List Char) : t.chars ++ a ≠ c :: b := by
  intro h
  obtain ⟨d, hd, hmark⟩ := Term.head?_chars t
  rw [Option.mem_def] at hd
  have hhead := congrArg List.head? h
  rw [List.head?_append, hd, Option.some_or, List.head?_cons, Option.some.injEq] at hhead
  exact hc (hhead ▸ hmark)

/-- the items of a list after the first, each with a space in front -/
def Term.furtherChars (ts : List Term) : List Char :=
  ts.flatMap fun t => ' ' :: t.chars

theorem Term.spacedChars_cons (t : Term) (ts : List Term) :
    Term.spacedChars (t :: ts) = t.chars ++ Term.furtherChars ts := by
  induction ts generalizing t with
  | nil => simp [Term.spacedChars, Term.furtherChars]
  | cons u ts ih =>
    rw [Term.spacedChars, ih]
    rfl

theorem Term.furtherChars_cons (t : Term) (ts : List Term) (a : List Char) :
    Term.furtherChars (t :: ts) ++ a = ' ' :: (t.chars ++ (Term.furtherChars ts ++ a)) := by
  simp [Term.furtherChars]

theorem isEnd_furtherChars (ts : List Term) (a : List Char) : IsEnd (Term.furtherChars ts ++ ')' :: a) := by
  cases ts with
  | nil => exact isEnd_paren a
  | cons t ts =>
    rw [Term.furtherChars_cons]
    exact isEnd_space _

mutual

/-- two written terms with ends of terms after them are one text only if they are one term -/
theorem Term.chars_inj (t u : Term) (ht : t.keeps .legible = true) (hu : u.keeps .legible = true) {a b : List Char}
    (ha : IsEnd a) (hb : IsEnd b) (h : t.chars ++ a = u.chars ++ b) : t = u ∧ a = b := by
  match t, u with
  | .var name, .var name' =>
    simp only [Term.chars, List.cons_append, List.cons.injEq, true_and] at h
    obtain ⟨heq, hrest⟩ := run_inj ht hu ha hb h
    exact ⟨congrArg Term.var (String.toList_inj.1 heq), hrest⟩
  | .literal v d l, .literal v' d' l' =>
    simp only [Term.chars, List.cons_append, List.append_assoc, List.cons.injEq, true_and] at h
    obtain ⟨hvalue, hsuffix⟩ := escape_inj h
    obtain ⟨rfl, rfl, hrest⟩ := literalSuffix_inj ht hu ha hb hsuffix
    rw [String.toList_inj.1 hvalue]
    exact ⟨rfl, hrest⟩
  | .blank id, .blank id' =>
    simp only [Term.chars, List.cons_append, List.cons.injEq, true_and] at h
    obtain ⟨heq, hrest⟩ := run_inj ht hu ha hb h
    exact ⟨congrArg Term.blank (String.toList_inj.1 heq), hrest⟩
  | .iri value, .iri value' =>
    simp only [Term.chars, List.cons_append, List.append_assoc, List.nil_append, List.cons.injEq, true_and] at h
    obtain ⟨heq, hrest⟩ := reference_inj ht hu h
    exact ⟨congrArg Term.iri (String.toList_inj.1 heq), hrest⟩
  | .list items, .list items' =>
    simp only [Term.chars, List.cons_append, List.append_assoc, List.nil_append, List.cons.injEq, true_and] at h
    obtain ⟨heq, hrest⟩ := Term.spacedChars_inj items items' ht hu h
    exact ⟨congrArg Term.list heq, hrest⟩
  | .formula body, .formula body' =>
    obtain ⟨heq, hrest⟩ := Formula.chars_inj body body' ht hu h
    exact ⟨congrArg Term.formula heq, hrest⟩
  | .var _, .literal .. | .var _, .blank _ | .var _, .iri _ | .var _, .list _ | .var _, .formula _
  | .literal .., .var _ | .literal .., .blank _ | .literal .., .iri _ | .literal .., .list _ | .literal .., .formula _
  | .blank _, .var _ | .blank _, .literal .. | .blank _, .iri _ | .blank _, .list _ | .blank _, .formula _
  | .iri _, .var _ | .iri _, .literal .. | .iri _, .blank _ | .iri _, .list _ | .iri _, .formula _
  | .list _, .var _ | .list _, .literal .. | .list _, .blank _ | .list _, .iri _ | .list _, .formula _
  | .formula _, .var _ | .formula _, .literal .. | .formula _, .blank _ | .formula _, .iri _ | .formula _, .list _ =>
    simp [Term.chars, Formula.chars_eq] at h
termination_by structural t

theorem Term.spacedChars_inj (ts us : List Term) (ht : Term.allKeep .legible ts = true)
    (hu : Term.allKeep .legible us = true) {a b : List Char}
    (h : Term.spacedChars ts ++ ')' :: a = Term.spacedChars us ++ ')' :: b) : ts = us ∧ a = b := by
  match ts, us with
  | [], [] => exact ⟨rfl, List.tail_eq_of_cons_eq h⟩
  | [], u :: us =>
    rw [Term.spacedChars_cons, List.append_assoc] at h
    exact absurd h.symm (Term.chars_append_ne (by decide) u _ _)
  | t :: ts, [] =>
    rw [Term.spacedChars_cons, List.append_assoc] at h
    exact absurd h (Term.chars_append_ne (by decide) t _ _)
  | t :: ts, u :: us =>
    rw [Term.allKeep, Bool.and_eq_true] at ht hu
    rw [Term.spacedChars_cons, Term.spacedChars_cons, List.append_assoc, List.append_assoc] at h
    obtain ⟨rfl, hrest⟩ := Term.chars_inj t u ht.1 hu.1 (isEnd_furtherChars ts a) (isEnd_furtherChars us b) h
    obtain ⟨rfl, hend⟩ := Term.furtherChars_inj ts us ht.2 hu.2 hrest
    exact ⟨rfl, hend⟩
termination_by structural ts

theorem Term.furtherChars_inj (ts us : List Term) (ht : Term.allKeep .legible ts = true)
    (hu : Term.allKeep .legible us = true) {a b : List Char}
    (h : Term.furtherChars ts ++ ')' :: a = Term.furtherChars us ++ ')' :: b) : ts = us ∧ a = b := by
  match ts, us with
  | [], [] => exact ⟨rfl, List.tail_eq_of_cons_eq h⟩
  | [], u :: us => simp [Term.furtherChars] at h
  | t :: ts, [] => simp [Term.furtherChars] at h
  | t :: ts, u :: us =>
    rw [Term.allKeep, Bool.and_eq_true] at ht hu
    rw [Term.furtherChars_cons, Term.furtherChars_cons] at h
    obtain ⟨rfl, hrest⟩ := Term.chars_inj t u ht.1 hu.1 (isEnd_furtherChars ts a) (isEnd_furtherChars us b)
      (List.tail_eq_of_cons_eq h)
    obtain ⟨rfl, hend⟩ := Term.furtherChars_inj ts us ht.2 hu.2 hrest
    exact ⟨rfl, hend⟩
termination_by structural ts

/-- the same of the three terms of triples -/
theorem Triple.keyChars_inj (t u : Triple) (ht : t.keeps .legible = true) (hu : u.keeps .legible = true)
    {a b : List Char} (ha : IsEnd a) (hb : IsEnd b) (h : t.keyChars ++ a = u.keyChars ++ b) : t = u ∧ a = b := by
  obtain ⟨s, p, o⟩ := t
  obtain ⟨s', p', o'⟩ := u
  simp only [Triple.keeps, Bool.and_eq_true] at ht hu
  simp only [Triple.keyChars, List.append_assoc, List.cons_append] at h
  obtain ⟨hsubject, hafter⟩ := Term.chars_inj s s' ht.1.1 hu.1.1 (isEnd_space _) (isEnd_space _) h
  obtain ⟨hpredicate, hafter'⟩ :=
    Term.chars_inj p p' ht.1.2 hu.1.2 (isEnd_space _) (isEnd_space _) (List.tail_eq_of_cons_eq hafter)
  obtain ⟨hobject, hend⟩ := Term.chars_inj o o' ht.2 hu.2 ha hb (List.tail_eq_of_cons_eq hafter')
  rw [hsubject, hpredicate, hobject]
  exact ⟨rfl, hend⟩
termination_by structural t

theorem Triple.allChars_inj (ts us : List Triple) (ht : Triple.allKeep .legible ts = true)
    (hu : Triple.allKeep .legible us = true) {a b : List Char}
    (h : Triple.allChars ts ++ '}' :: a = Triple.allChars us ++ '}' :: b) : ts = us ∧ a = b := by
  match ts, us with
  | [], [] => exact ⟨rfl, List.tail_eq_of_cons_eq h⟩
  | [], ⟨s, p, o⟩ :: us =>
    simp only [Triple.allChars, Triple.keyChars, List.append_assoc] at h
    exact absurd h.symm (Term.chars_append_ne (by decide) s _ _)
  | ⟨s, p, o⟩ :: ts, [] =>
    simp only [Triple.allChars, Triple.keyChars, List.append_assoc] at h
    exact absurd h (Term.chars_append_ne (by decide) s _ _)
  | t :: ts, u :: us =>
    rw [Triple.allKeep, Bool.and_eq_true] at ht hu
    simp only [Triple.allChars, List.append_assoc, List.cons_append] at h
    obtain ⟨htriple, hafter⟩ := Triple.keyChars_inj t u ht.1 hu.1 (isEnd_space _) (isEnd_space _) h
    simp only [List.cons.injEq, true_and] at hafter
    obtain ⟨htriples, hend⟩ := Triple.allChars_inj ts us ht.2 hu.2 hafter
    rw [htriple, htriples]
    exact ⟨rfl, hend⟩
termination_by structural ts

theorem Formula.chars_inj (f g : Formula) (hf : f.keeps .legible = true) (hg : g.keeps .legible = true) {a b : List Char}
    (h : f.chars ++ a = g.chars ++ b) : f = g ∧ a = b := by
  obtain ⟨ts, qs⟩ := f
  obtain ⟨us, rs⟩ := g
  simp only [Formula.keeps, Bool.and_eq_true, List.isEmpty_iff] at hf hg
  have hinj := Triple.allChars_inj ts us hf.1 hg.1 (a := a) (b := b)
  rw [hf.2, hg.2]
  cases ts with
  | nil =>
    cases us with
    | nil => exact ⟨rfl, by simpa [Formula.chars] using h⟩
    | cons u us => simp [Formula.chars] at h
  | cons t ts =>
    cases us with
    | nil => simp [Formula.chars] at h
    | cons u us =>
      simp only [Formula.chars, List.cons_append, List.append_assoc, List.nil_append, List.cons.injEq, true_and] at h
      obtain ⟨htriples, hend⟩ := hinj h
      rw [htriples]
      exact ⟨rfl, hend⟩
termination_by structural f

end

/-! ## Keys -/

/-- legible triples with one key are one triple -/
theorem Triple.key_inj {t u : Triple} (ht : t.keeps .legible = true) (hu : u.keeps .legible = true) (h : t.key = u.key) :
    t = u := by
  have hchars : t.keyChars = u.keyChars := String.ofList_injective h
  exact (Triple.keyChars_inj t u ht hu isEnd_nil isEnd_nil (by rw [hchars])).1

/-- what is stored was inserted, and the base is well formed -/
theorem FactBase.wellFormed_ofInsertions (insertions : List (Triple × Origin)) :
    (FactBase.ofInsertions insertions).WellFormed ∧
      ∀ t ∈ (FactBase.ofInsertions insertions).triples, t ∈ insertions.map Prod.fst := by
  have hfollows := FactBase.follows insertions
  refine ⟨hfollows.wellFormed, fun t ht => ?_⟩
  rw [hfollows.triples] at ht
  exact ((firsts_sublist insertions).map Prod.fst).subset ht

/-- **No legible fact is lost.** After any insertions of legible triples, a legible triple has the key of one of them
only if it is that triple, and it is refused exactly if it is stored. -/
theorem legible_refused_iff (insertions : List (Triple × Origin)) (h : ∀ i ∈ insertions, i.1.keeps .legible = true)
    {t : Triple} (ht : t.keeps .legible = true) (origin : Origin) :
    let base := FactBase.ofInsertions insertions
    (∀ i ∈ insertions, i.1.key = t.key → i.1 = t) ∧ (base.insert? t origin = none ↔ t ∈ base.triples) := by
  have hone : ∀ i ∈ insertions, i.1.key = t.key → i.1 = t := fun i hi hkey => Triple.key_inj (h i hi) ht hkey
  obtain ⟨hwell, hmem⟩ := FactBase.wellFormed_ofInsertions insertions
  refine ⟨hone, ?_⟩
  rw [FactBase.insert?_eq_none_iff, hwell.contains_iff]
  constructor
  · rintro ⟨u, hu, hkey⟩
    obtain ⟨i, hi, rfl⟩ := List.mem_map.1 (hmem u hu)
    exact hone i hi hkey ▸ hu
  · intro hstored
    exact ⟨t, hstored, rfl⟩

/-- facts that differ in where a literal or a list ends -/
def lookalikes : List (Triple × Origin) :=
  [(⟨.iri "a) b", .var "p", .literal "\"@en" none none⟩, .asserted),
    (⟨.iri "a) b", .var "p", .literal "\"" none (some "en")⟩, .inferred)]

/-- a fact that is stored already is refused, and a list of its object alone is not taken for it -/
theorem lookalikes_told_apart :
    let tagged : Term := .literal "\"" none (some "en")
    let stored : Triple := ⟨.iri "a) b", .var "p", tagged⟩
    let listed : Triple := ⟨.iri "a) b", .var "p", .list [tagged]⟩
    let base := FactBase.ofInsertions lookalikes
    (∀ i ∈ lookalikes, i.1.keeps .legible = true) ∧ stored.keeps .legible = true ∧ listed.keeps .legible = true ∧
      base.insert? stored .asserted = none ∧ base.insert? listed .asserted ≠ none := by
  intro tagged stored listed base
  have hlegible : ∀ i ∈ lookalikes, i.1.keeps .legible = true := by decide +kernel
  have hstored : stored.keeps .legible = true := by decide +kernel
  have hlisted : listed.keeps .legible = true := by decide +kernel
  refine ⟨hlegible, hstored, hlisted, ?_, ?_⟩
  · have hmem : stored ∈ base.triples := by decide +kernel
    exact (legible_refused_iff lookalikes hlegible hstored .asserted).2.2 hmem
  · intro hrefused
    have hmem : listed ∉ base.triples := by decide +kernel
    exact hmem ((legible_refused_iff lookalikes hlegible hlisted .asserted).2.1 hrefused)

/-! ## Confusable triples -/

/-- a text whose tokens `a<` and `x<` are names, as no reference starts with a space, and whose tokens `<a<> <b>>` and
`<x<> <y>>` are one reference each, with a `<` inside that counts as an opening bracket -/
def confusableText : String :=
  "<a<> <b>> x< <y>> . a< <b>> <x<> <y>> ."

/-- a text states two different facts with one key, and the second is refused when the first is stored -/
theorem confusable_facts :
    ∃ d t u, Document.ofText confusableText = .ok d ∧ d.triples = [t, u] ∧ t.key = u.key ∧ t ≠ u ∧
      (FactBase.ofInsertions [(t, .asserted)]).insert? u .asserted = none ∧
      u ∉ (FactBase.ofInsertions [(t, .asserted)]).triples := by
  have hread : (Document.ofText confusableText).toOption.map (·.triples) =
      some [⟨.iri "a<> <b>", .iri "x<", .iri "y>"⟩, ⟨.iri "a<", .iri "b>", .iri "x<> <y>"⟩] := by
    decide +kernel
  cases hd : Document.ofText confusableText with
  | error e => simp [hd, Except.toOption] at hread
  | ok d =>
    simp only [hd, Except.toOption, Option.map_some, Option.some.injEq] at hread
    refine ⟨d, _, _, rfl, hread, by decide +kernel, by decide +kernel, ?_, by decide +kernel⟩
    rw [FactBase.insert?_eq_none_iff]
    decide +kernel

end N3Rules
