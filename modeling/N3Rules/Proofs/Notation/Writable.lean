/-
Writable terms, and their written forms as woven text.

A term is writable when its names and references hold nothing that the notation gives a meaning to. The value of a
literal may be any text, and lists and formulas may nest to any depth. What is written is then woven text, which every
scan passes over.

- `Lettering`, `Term.keeps`, `Rule.keeps`: what the parts of a term, and of a rule, may be spelled with;
- `Lettering.writable`: the lettering of writable terms;
- `closedBy_escape`: an escaped value is closed by the quote after it, and by none in it;
- `Term.woven`, `Triple.woven`, `Formula.woven`: what is written is woven text;
- `Term.isBare_chars`, `Triple.isBare_keyChars`: it starts and ends with no blank.
-/
import N3Rules.Term.Written
import N3Rules.Term.Literal
import N3Rules.Proofs.Text.Compact

namespace N3Rules

open Text

/-! ## What terms are spelled with -/

/-- what the names, the references and the literals of a term may be spelled with -/
structure Lettering where
  name : List Char → Bool
  reference : List Char → Bool
  datatype : List Char → Bool
  language : List Char → Bool

/-- whether the datatype or the language of a literal keeps to a lettering; a literal has at most one of them -/
def Lettering.suffix (l : Lettering) : Option String → Option String → Bool
  | none, none => true
  | some datatype, none => l.datatype datatype.toList
  | none, some language => l.language language.toList
  | some _, some _ => false

mutual

/-- whether all names, references and literals in a term keep to a lettering -/
def Term.keeps (l : Lettering) : Term → Bool
  | .var name => l.name name.toList
  | .literal _ datatype language => l.suffix datatype language
  | .blank id => l.name id.toList
  | .iri value => l.reference value.toList
  | .list items => Term.allKeep l items
  | .formula body => body.keeps l

def Term.allKeep (l : Lettering) : List Term → Bool
  | [] => true
  | t :: ts => t.keeps l && Term.allKeep l ts

def Triple.keeps (l : Lettering) : Triple → Bool
  | ⟨s, p, o⟩ => s.keeps l && p.keeps l && o.keeps l

def Triple.allKeep (l : Lettering) : List Triple → Bool
  | [] => true
  | t :: ts => t.keeps l && Triple.allKeep l ts

/-- the same of a formula; quantifier declarations are not written, so it has none -/
def Formula.keeps (l : Lettering) : Formula → Bool
  | ⟨triples, quantifiers⟩ => Triple.allKeep l triples && quantifiers.isEmpty

end

def Rule.keeps (l : Lettering) (r : Rule) : Bool :=
  r.antecedent.keeps l && r.consequent.keeps l

/-- the lettering of what is read back as it is written -/
def Lettering.writable : Lettering where
  name := isName
  reference := isReference
  datatype := fun s => !s.isEmpty && isReference s
  language := isLanguageTag

/-! ## Literals -/

/-- an escaped value is closed by the quote after it, and by none in it -/
theorem closedBy_escape (s : List Char) : Quote.ClosedBy ⟨'"', false⟩ (escape s ++ ['"']) := by
  have hescaped : ∀ {c : Char} {t : List Char}, Quote.ClosedBy ⟨'"', false⟩ t →
      Quote.ClosedBy ⟨'"', false⟩ ('\\' :: c :: t) := by
    intro c t ht
    have hslash : Quote.feed ⟨'"', false⟩ '\\' = some ⟨'"', true⟩ := rfl
    have hnext : Quote.feed ⟨'"', true⟩ c = some ⟨'"', false⟩ := rfl
    exact .next hslash (.next hnext ht)
  induction s with
  | nil => exact .last rfl
  | cons c s ih =>
    rw [escape, List.flatMap_cons, List.append_assoc]
    unfold escapeChar
    split
    case h_6 hquote hslash _ _ _ =>
      have hfeed : Quote.feed ⟨'"', false⟩ c = some ⟨'"', false⟩ := by simp_all [Quote.feed]
      exact .next hfeed ih
    all_goals exact hescaped ih

theorem isNameChar_of_isAlphanum {c : Char} (h : c.isAlphanum = true) : isNameChar c = true := by
  have hblank : isBlank c = false := by
    have hrange : (decide ('A'.val ≤ c.val ∧ c.val ≤ 'Z'.val) || decide ('a'.val ≤ c.val) && decide (c.val ≤ 'z'.val) ||
        decide ('0'.val ≤ c.val) && decide (c.val ≤ '9'.val)) = true := h
    simp only [Bool.or_eq_true, Bool.and_eq_true, decide_eq_true_eq, UInt32.le_iff_toNat_le] at hrange
    change ((65 ≤ c.toNat ∧ c.toNat ≤ 90) ∨ (97 ≤ c.toNat ∧ c.toNat ≤ 122)) ∨ (48 ≤ c.toNat ∧ c.toNat ≤ 57) at hrange
    simp [isBlank, blankRanges]
    omega
  have hmarks : ('#' :: '.' :: ';' :: enclosers).all (!·.isAlphanum) = true := by decide
  have hne : ∀ d ∈ '#' :: '.' :: ';' :: enclosers, c ≠ d := by
    rintro d hd rfl
    simpa [h] using List.all_eq_true.1 hmarks c hd
  simp only [List.mem_cons, forall_eq_or_imp] at hne
  have hmem : c ∉ enclosers := fun hc => hne.2.2.2 c hc rfl
  simp [isNameChar, isPlain, isReferenceChar, hblank, hne, hmem]

/-- a language tag holds letters, digits and hyphens, which may all stand in a name -/
theorem isNameChar_of_isLanguageTag {s : List Char} (h : isLanguageTag s = true) {c : Char} (hc : c ∈ s) :
    isNameChar c = true := by
  simp only [isLanguageTag] at h
  split at h
  · simp at h
  rename_i tag subtags hsplit
  simp only [Bool.and_eq_true, isRunOf, List.all_eq_true] at h
  obtain ⟨⟨-, htag⟩, hsubtags⟩ := h
  have hjoin : tag ++ following '-' subtags = s := by
    rw [← intercalate_cons, ← hsplit]
    exact List.intercalate_splitOn '-'
  rw [← hjoin] at hc
  rcases List.mem_append.1 hc with hc | hc
  · exact isNameChar_of_isAlphanum (by simp [Char.isAlphanum, htag c hc])
  · obtain ⟨subtag, hsubtag, hc⟩ := List.mem_flatMap.1 hc
    rcases List.mem_cons.1 hc with rfl | hc
    · decide
    · exact isNameChar_of_isAlphanum ((hsubtags subtag hsubtag).2 c hc)

/-! ## Written forms are woven -/

/-- a class of characters that holds all that may stand in a name -/
def HoldsNames (ok : Char → Prop) : Prop :=
  ∀ c, isNameChar c = true → ok c

/-- a row of characters of names in front -/
theorem Text.Woven.names {ok : Char → Prop} (hok : HoldsNames ok) {gap : Bool} {c : Char} {s w : List Char}
    (hc : isNameChar c = true) (hs : ∀ d ∈ s, isNameChar d = true) (hw : Woven ok false w) :
    Woven ok gap (c :: (s ++ w)) := by
  have hplain : ∀ d, isNameChar d = true → isPlain d = true ∧ ok d := fun d hd => ⟨isPlain_of_isNameChar hd, hok d hd⟩
  exact .plain (hplain c hc).1 (hplain c hc).2 (.plains (fun d hd => hplain d (hs d hd)) hw)

theorem isNameChar_of_isName {name : String} (h : isName name.toList = true) :
    ∀ c ∈ name.toList, isNameChar c = true := by
  simp only [isName, Bool.and_eq_true, List.all_eq_true] at h
  exact h.2

theorem woven_literalSuffix {ok : Char → Prop} (hok : HoldsNames ok) {datatype language : Option String}
    (h : Lettering.writable.suffix datatype language = true) {w : List Char} (hw : Woven ok false w) :
    Woven ok false (literalSuffix datatype language ++ w) := by
  match datatype, language with
  | none, none => exact hw
  | some datatype, none =>
    simp only [Lettering.suffix, Lettering.writable, Bool.and_eq_true] at h
    have hreference : Woven ok false ('<' :: (datatype.toList ++ '>' :: w)) := .reference h.2 hw
    have hcarets : Woven ok false ('^' :: (['^'] ++ '<' :: (datatype.toList ++ '>' :: w))) :=
      .names hok (by decide) (List.forall_mem_singleton.2 (by decide)) hreference
    simpa [literalSuffix] using hcarets
  | none, some language =>
    exact Woven.names hok (by decide) (fun c hc => isNameChar_of_isLanguageTag h hc) hw
  | some _, some _ => simp [Lettering.suffix] at h

/-- the inside of a formula's braces -/
def Formula.insideChars : Formula → List Char
  | ⟨[], _⟩ => []
  | ⟨t :: ts, _⟩ => ' ' :: Triple.allChars (t :: ts)

theorem Formula.chars_eq (f : Formula) : f.chars = '{' :: (f.insideChars ++ ['}']) := by
  obtain ⟨triples, quantifiers⟩ := f
  cases triples <;> rfl

mutual

/-- the written form of a writable term is woven text; only a list has parentheses outside of its brackets -/
theorem Term.woven {ok : Char → Prop} (hok : HoldsNames ok) (t : Term) (h : t.keeps .writable = true)
    (hparens : ∀ items, t = .list items → ok '(' ∧ ok ')') {w : List Char} (hw : Woven ok false w) {gap : Bool} :
    Woven ok gap (t.chars ++ w) := by
  match t with
  | .var name => exact Woven.names hok (by decide) (isNameChar_of_isName h) hw
  | .literal value datatype language =>
    have hsuffix := woven_literalSuffix hok h hw
    simpa [Term.chars] using (Woven.quoted (closedBy_escape value.toList) hsuffix : Woven ok gap _)
  | .blank id =>
    have hid : ∀ c ∈ ':' :: id.toList, isNameChar c = true := by
      rintro c (_ | ⟨_, hc⟩)
      · decide
      · exact isNameChar_of_isName h c hc
    exact Woven.names hok (by decide) hid hw
  | .iri value => simpa [Term.chars] using (Woven.reference h hw : Woven ok gap _)
  | .list items =>
    obtain ⟨hopen, hclose⟩ := hparens items rfl
    simpa [Term.chars] using (Woven.parens hopen hclose (Term.woven_spaced items h) hw : Woven ok gap _)
  | .formula body =>
    rw [Term.chars, Formula.chars_eq]
    simpa using (Woven.braces (Formula.woven_inside body h) hw : Woven ok gap _)

theorem Term.woven_spaced (ts : List Term) (h : Term.allKeep .writable ts = true) {gap : Bool} :
    Woven (fun _ => True) gap (Term.spacedChars ts) := by
  match ts with
  | [] => exact .nil
  | [t] =>
    simp only [Term.allKeep, Bool.and_true] at h
    simpa [Term.spacedChars] using Term.woven (fun _ _ => trivial) t h (by simp) .nil
  | t :: u :: ts =>
    rw [Term.allKeep, Bool.and_eq_true] at h
    have hrest : Woven (fun _ => True) true (Term.spacedChars (u :: ts)) := Term.woven_spaced (u :: ts) h.2
    exact Term.woven (fun _ _ => trivial) t h.1 (by simp) (.space trivial hrest)

/-- the three terms of a writable triple, in a class that holds the space and the parentheses -/
theorem Triple.woven {ok : Char → Prop} (hok : HoldsNames ok) (hbrackets : ok ' ' ∧ ok '(' ∧ ok ')') (t : Triple)
    (h : t.keeps .writable = true) {w : List Char} (hw : Woven ok false w) {gap : Bool} :
    Woven ok gap (t.keyChars ++ w) := by
  obtain ⟨s, p, o⟩ := t
  simp only [Triple.keeps, Bool.and_eq_true] at h
  obtain ⟨⟨hs, hp⟩, ho⟩ := h
  obtain ⟨hspace, hparens⟩ := hbrackets
  have hobject : Woven ok true (o.chars ++ w) := Term.woven hok o ho (fun _ _ => hparens) hw
  have hpredicate : Woven ok true (p.chars ++ ' ' :: (o.chars ++ w)) :=
    Term.woven hok p hp (fun _ _ => hparens) (.space hspace hobject)
  simpa [Triple.keyChars] using Term.woven hok s hs (fun _ _ => hparens) (.space hspace hpredicate)

theorem Triple.woven_all (ts : List Triple) (h : Triple.allKeep .writable ts = true) {gap : Bool} :
    Woven (fun _ => True) gap (Triple.allChars ts) := by
  match ts with
  | [] => exact .nil
  | t :: ts =>
    rw [Triple.allKeep, Bool.and_eq_true] at h
    have hstop : Woven (fun _ => True) true ('.' :: ' ' :: Triple.allChars ts) :=
      .plain (by decide) trivial (.space trivial (Triple.woven_all ts h.2))
    exact Triple.woven (fun _ _ => trivial) ⟨trivial, trivial, trivial⟩ t h.1 (.space trivial hstop)

theorem Formula.woven_inside (f : Formula) (h : f.keeps .writable = true) :
    Woven (fun _ => True) false f.insideChars := by
  obtain ⟨triples, quantifiers⟩ := f
  rw [Formula.keeps, Bool.and_eq_true] at h
  have hall : Woven (fun _ => True) true (Triple.allChars triples) := Triple.woven_all triples h.1
  cases triples with
  | nil => exact .nil
  | cons t ts => exact .space trivial hall

end

/-! ## Written forms are trimmed -/

/-- a text that is not empty and neither starts nor ends with a blank -/
structure IsBare (w : List Char) : Prop where
  first : ∃ c ∈ w.head?, isBlank c = false
  last : ∃ c ∈ w.getLast?, isBlank c = false

theorem IsBare.ne_nil {w : List Char} (h : IsBare w) : w ≠ [] := by
  rintro rfl
  simpa using h.first

theorem IsBare.trim_eq {w : List Char} (h : IsBare w) : trim w = w := by
  obtain ⟨⟨a, ha, ha'⟩, b, hb, hb'⟩ := h
  refine trim_eq_self ?_ ?_
  · intro c hc
    rwa [Option.mem_unique hc ha]
  · intro c hc
    rwa [Option.mem_unique hc hb]

theorem isBare_row {s : List Char} (hne : s ≠ []) (hs : ∀ c ∈ s, isBlank c = false) : IsBare s where
  first := ⟨s.head hne, List.head?_eq_some_head hne, hs _ (List.head_mem hne)⟩
  last := ⟨s.getLast hne, List.getLast?_eq_some_getLast hne, hs _ (List.getLast_mem hne)⟩

theorem isBare_char {c : Char} (hc : isBlank c = false) : IsBare [c] :=
  isBare_row (by simp) (List.forall_mem_singleton.2 hc)

/-- it does not matter what stands between two bare texts -/
theorem IsBare.around {u v : List Char} (hu : IsBare u) (hv : IsBare v) (w : List Char) : IsBare (u ++ (w ++ v)) := by
  obtain ⟨a, ha, ha'⟩ := hu.first
  obtain ⟨b, hb, hb'⟩ := hv.last
  rw [Option.mem_def] at ha hb
  exact ⟨⟨a, by simp [ha], ha'⟩, ⟨b, by simp [List.getLast?_append, hb], hb'⟩⟩

theorem isBlank_of_isNameChar {c : Char} (h : isNameChar c = true) : isBlank c = false :=
  (isReferenceChar_iff.1 (isReferenceChar_of_isPlain (isPlain_of_isNameChar h))).1

theorem isBare_name {name : String} (h : isName name.toList = true) : IsBare name.toList := by
  have hchars := isNameChar_of_isName h
  simp only [isName, Bool.and_eq_true] at h
  exact isBare_row (by simpa using h.1) fun c hc => isBlank_of_isNameChar (hchars c hc)

/-- the closing quote of a literal and what follows it -/
theorem isBare_literalSuffix {datatype language : Option String}
    (h : Lettering.writable.suffix datatype language = true) :
    IsBare ('"' :: literalSuffix datatype language) := by
  have hquote : IsBare ['"'] := isBare_char (by decide)
  match datatype, language with
  | none, none => exact hquote
  | some datatype, none => exact hquote.around (isBare_char (c := '>') (by decide)) _
  | none, some language =>
    have htag : ∀ c ∈ '@' :: language.toList, isBlank c = false := by
      rintro c (_ | ⟨_, hc⟩)
      · decide
      · exact isBlank_of_isNameChar (isNameChar_of_isLanguageTag h hc)
    exact hquote.around (isBare_row (by simp) htag) []
  | some _, some _ => simp [Lettering.suffix] at h

/-- the written form of a writable term starts and ends with no blank -/
theorem Term.isBare_chars {t : Term} (h : t.keeps .writable = true) : IsBare t.chars := by
  cases t with
  | var name => exact (isBare_char (c := '?') (by decide)).around (isBare_name h) []
  | literal value datatype language =>
    simpa [Term.chars] using (isBare_char (c := '"') (by decide)).around (isBare_literalSuffix h) (escape value.toList)
  | blank id => exact (isBare_char (c := '_') (by decide)).around (isBare_name h) [':']
  | iri value => exact (isBare_char (c := '<') (by decide)).around (isBare_char (c := '>') (by decide)) value.toList
  | list items =>
    exact (isBare_char (c := '(') (by decide)).around (isBare_char (c := ')') (by decide)) (Term.spacedChars items)
  | formula body =>
    rw [Term.chars, Formula.chars_eq]
    exact (isBare_char (c := '{') (by decide)).around (isBare_char (c := '}') (by decide)) body.insideChars

theorem Triple.isBare_keyChars {t : Triple} (h : t.keeps .writable = true) : IsBare t.keyChars := by
  obtain ⟨s, p, o⟩ := t
  simp only [Triple.keeps, Bool.and_eq_true] at h
  obtain ⟨⟨hs, hp⟩, ho⟩ := h
  simpa [Triple.keyChars] using
    (Term.isBare_chars hs).around (Term.isBare_chars ho) (' ' :: (p.chars ++ [' ']))

end N3Rules
