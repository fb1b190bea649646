/-
How a text starts with its first piece.

Where a text is cut nothing is open, so the text after a piece is cut like a text of its own. A text is therefore taken
apart from its start: blanks and separators do not matter there, and any other character belongs to the first piece.

- `head?_trim`, `getLast?_trim`: a trimmed text neither starts nor ends with a blank;
- `CutRule.Restarts`: where a rule cuts, nothing is open;
- `CutRule.Restarts.pieces_gap`: a blank or a separator in front does not matter;
- `CutRule.Restarts.pieces_first`: any other text starts with its first piece, and the other pieces are those of the text
  after it.
-/
import N3Rules.Proofs.Text.Cutting

namespace N3Rules.Text

/-! ## Trimming -/

theorem trimEnd_split (s : List Char) : ∃ b, s = trimEnd s ++ b ∧ ∀ c ∈ b, isBlank c = true := by
  induction s using List.reverseRecOn with
  | nil => exact ⟨[], rfl, by simp⟩
  | append_singleton s c ih =>
    cases hc : isBlank c with
    | false =>
      refine ⟨[], ?_, by simp⟩
      rw [trimEnd_append hc, List.append_nil]
    | true =>
      obtain ⟨b, hb, hblank⟩ := ih
      refine ⟨b ++ [c], ?_, ?_⟩
      · rw [trimEnd_append_blank hc, ← List.append_assoc, ← hb]
      · intro d hd
        rcases List.mem_append.1 hd with hd | hd
        · exact hblank d hd
        · rwa [List.mem_singleton.1 hd]

theorem getLast?_trimEnd (s : List Char) : ∀ c ∈ (trimEnd s).getLast?, isBlank c = false := by
  induction s using List.reverseRecOn with
  | nil => simp [trimEnd]
  | append_singleton s c ih =>
    cases hc : isBlank c with
    | false =>
      rw [trimEnd_append hc]
      simpa using hc
    | true => rwa [trimEnd_append_blank hc]

theorem getLast?_trim (s : List Char) : ∀ c ∈ (trim s).getLast?, isBlank c = false :=
  getLast?_trimEnd _

theorem trimEnd_cons {c : Char} (hc : isBlank c = false) (s : List Char) : trimEnd (c :: s) = c :: trimEnd s := by
  rw [trimEnd]
  split <;> simp_all

theorem trim_cons {c : Char} (hc : isBlank c = false) (s : List Char) : trim (c :: s) = c :: trimEnd s := by
  rw [trim, trimStart, List.dropWhile_cons, hc, if_neg (by decide), trimEnd_cons hc]

theorem head?_trim (s : List Char) : ∀ c ∈ (trim s).head?, isBlank c = false := by
  induction s with
  | nil => simp [trim, trimStart, trimEnd]
  | cons c s ih =>
    cases hc : isBlank c with
    | true => rwa [trim_cons_blank hc]
    | false =>
      rw [trim_cons hc]
      simpa using hc

/-- pieces are trimmed -/
theorem trim_of_mem_pieces {rule : CutRule} {s p : List Char} (h : p ∈ pieces rule s) : trim p = p := by
  obtain ⟨q, -, rfl⟩ := List.mem_map.1 (List.mem_filter.1 h).1
  exact trim_eq_self (head?_trim q) (getLast?_trim q)

/-! ## Cuts -/

/-- nothing happens at a blank where no quote is open -/
theorem Enclosure.feed_blank {e : Enclosure} (he : e.quote = none) {c : Char} (hc : isBlank c = true)
    (next : Option Char) : e.feed c next = e := by
  obtain ⟨quote, p, b, r, a⟩ := e
  obtain rfl : quote = none := he
  have hmark : ∀ d, isBlank d = false → c ≠ d := by
    rintro d hd rfl
    simp [hc] at hd
  have hquote : Quote.opening? c = none := by
    simp [Quote.opening?, hmark '"' (by decide), hmark apostrophe (by decide)]
  simp only [Enclosure.feed]
  split <;> first | exact absurd rfl (hmark _ (by decide)) | rw [hquote]

/-- a rule that cuts only where nothing is open, and does nothing else at a blank -/
structure CutRule.Restarts (rule : CutRule) : Prop where
  drop : ∀ {e : Enclosure} {c : Char} {next : Option Char}, rule e c next = .drop → e = {} ∧ e.feed c next = {}
  before : ∀ {e : Enclosure} {c : Char} {next : Option Char}, rule e c next = .before → e = {}
  after : ∀ {e : Enclosure} {c : Char} {next : Option Char}, rule e c next = .after → e.feed c next = {}
  blank : ∀ {c : Char} {next : Option Char}, isBlank c = true → rule {} c next = .keep ∨ rule {} c next = .drop

theorem restarts_statementCut : statementCut.Restarts := by
  constructor
  case drop =>
    intro e c next h
    simp only [statementCut] at h
    split at h
    · rename_i hcut
      simp only [Bool.and_eq_true, Bool.or_eq_true, beq_iff_eq, Enclosure.isOutside_iff] at hcut
      obtain ⟨rfl, (rfl | rfl) | rfl⟩ := hcut <;> exact ⟨rfl, rfl⟩
    · cases h
  case before =>
    intro e c next h
    simp only [statementCut] at h
    split at h <;> cases h
  case after =>
    intro e c next h
    simp only [statementCut] at h
    split at h <;> cases h
  case blank =>
    intro c next _
    simp only [statementCut]
    split <;> simp

theorem restarts_tokenCut : tokenCut.Restarts := by
  constructor
  case drop =>
    intro e c next h
    simp only [tokenCut] at h
    split at h
    · rename_i hcut
      simp only [Bool.and_eq_true, Enclosure.isOutside_iff] at hcut
      obtain ⟨rfl, hc⟩ := hcut
      exact ⟨rfl, Enclosure.feed_blank rfl hc next⟩
    · repeat' split at h
      all_goals cases h
  case before =>
    intro e c next h
    simp only [tokenCut] at h
    repeat' split at h
    all_goals cases h
    simp_all [Enclosure.isOutside_iff]
  case after =>
    intro e c next h
    simp only [tokenCut] at h
    repeat' split at h
    all_goals cases h
    rename_i hcut
    rw [Bool.and_eq_true, Enclosure.isOutside_iff] at hcut
    exact hcut.2
  case blank =>
    intro c next hc
    right
    simp [tokenCut, hc, Enclosure.isOutside]

/-- the text is not cut between two marks that open references -/
def EndsApart (p rest : List Char) : Prop :=
  (∀ c ∈ p.getLast?, c = '<') → '<' ∉ rest.head?

/-- the trimmed texts that are not empty -/
def finished (ps : List (List Char)) : List (List Char) :=
  (ps.map trim).filter fun p => !p.isEmpty

theorem pieces_eq_finished (rule : CutRule) (s : List Char) :
    pieces rule s = finished ((cut rule {} s).1 :: (cut rule {} s).2) := rfl

theorem finished_cons (p : List Char) (ps : List (List Char)) :
    finished (p :: ps) = if (trim p).isEmpty then finished ps else trim p :: finished ps := by
  unfold finished
  cases h : (trim p).isEmpty <;> simp [h]

theorem finished_nil (ps : List (List Char)) : finished ([] :: ps) = finished ps := by
  rw [finished_cons]
  rfl

/-- a text that starts with no gap and is not cut after its first character starts with the piece of that character -/
theorem pieces_cons {rule : CutRule} {c : Char} {s : List Char} (hblank : isBlank c = false)
    (hcut : rule {} c s.head? = .keep ∨ rule {} c s.head? = .before) :
    pieces rule (c :: s) = (c :: trimEnd (cut rule (({} : Enclosure).feed c s.head?) s).1) ::
      finished (cut rule (({} : Enclosure).feed c s.head?) s).2 := by
  rw [← trim_cons hblank]
  have hne : ∀ q, (trim (c :: q)).isEmpty = false := by
    intro q
    rw [trim_cons hblank]
    rfl
  rcases hcut with hcut | hcut
  · rw [pieces_eq_finished, cut_cons_keep hcut, finished_cons, hne]
    rfl
  · simp only [pieces_eq_finished, cut, hcut, finished_nil]
    rw [finished_cons, hne]
    rfl

section Pieces

variable {rule : CutRule} (hrule : rule.Restarts) (hregular : rule.Regular)

include hrule

/-- a gap in front does not matter -/
theorem CutRule.Restarts.pieces_gap {c : Char} {s : List Char}
    (hc : isBlank c = true ∨ rule {} c s.head? = .drop) : pieces rule (c :: s) = pieces rule s := by
  by_cases hdrop : rule {} c s.head? = .drop
  · exact pieces_dropped hdrop (hrule.drop hdrop).2
  · have hblank := hc.resolve_right hdrop
    exact pieces_blank hblank ((hrule.blank hblank).resolve_right hdrop) (Enclosure.feed_blank rfl hblank _)

theorem CutRule.Restarts.pieces_blanks {b : List Char} (hb : ∀ c ∈ b, isBlank c = true) (s : List Char) :
    pieces rule (b ++ s) = pieces rule s := by
  induction b with
  | nil => rfl
  | cons c b ih =>
    rw [List.cons_append, hrule.pieces_gap (.inl (hb c List.mem_cons_self)),
      ih fun d hd => hb d (List.mem_cons_of_mem c hd)]

include hregular

/-- the first piece starts the text, and the other pieces are those of the text after it -/
theorem CutRule.Restarts.cut_split (e : Enclosure) (s : List Char) : ∃ rest, s = (cut rule e s).1 ++ rest ∧
    finished (cut rule e s).2 = pieces rule rest ∧ EndsApart (cut rule e s).1 rest := by
  have hmark : ∀ e next, rule e '<' next = .keep := hregular.marks (by simp)
  induction s generalizing e with
  | nil => exact ⟨[], rfl, rfl, by simp [EndsApart]⟩
  | cons c s ih =>
    obtain ⟨rest, hsplit, hlater, hapart⟩ := ih (e.feed c s.head?)
    -- a text that is cut at its first character is the rest of an empty piece
    have hfirst : ∀ {cut' : Cut}, rule e c s.head? = cut' → cut' ≠ .keep → EndsApart [] (c :: s) := by
      rintro cut' hcut hne - hc
      obtain rfl : c = '<' := Option.some.inj hc
      exact hne (hcut.symm.trans (hmark e _))
    cases hcut : rule e c s.head? with
    | keep =>
      rw [cut_cons_keep hcut]
      refine ⟨rest, by rw [List.cons_append, ← hsplit], hlater, ?_⟩
      intro hlast
      refine hapart fun d hd => hlast d ?_
      rw [List.getLast?_cons, hd]
      rfl
    | drop =>
      obtain ⟨rfl, hfeed⟩ := hrule.drop hcut
      refine ⟨c :: s, by simp [cut, hcut], ?_, by simpa [cut, hcut] using hfirst hcut (by simp)⟩
      rw [pieces_eq_finished, cut_cons_drop hcut, finished_nil]
    | before =>
      obtain rfl := hrule.before hcut
      refine ⟨c :: s, by simp [cut, hcut], ?_, by simpa [cut, hcut] using hfirst hcut (by simp)⟩
      simp only [pieces_eq_finished, cut, hcut, finished_nil]
    | after =>
      have hfeed := hrule.after hcut
      refine ⟨s, by simp [cut, hcut], ?_, ?_⟩
      · simp only [cut, hcut, pieces_eq_finished, hfeed]
      · simp only [cut, hcut]
        intro hc
        obtain rfl : c = '<' := hc c rfl
        rw [hmark] at hcut
        cases hcut

/-- a text that starts with no gap starts with a piece -/
theorem CutRule.Restarts.pieces_first {c : Char} {s : List Char} (hblank : isBlank c = false)
    (hdrop : rule {} c s.head? ≠ .drop) : ∃ p rest, c :: s = p ++ rest ∧ p = trim p ∧ c ∈ p.head? ∧
      pieces rule (c :: s) = p :: pieces rule rest ∧ EndsApart p rest := by
  -- up to the blanks at its end, which are left to the text after it
  suffices ∃ q rest, c :: s = c :: (q ++ rest) ∧ pieces rule (c :: s) = trim (c :: q) :: pieces rule rest ∧
      EndsApart (c :: q) rest by
    obtain ⟨q, rest, hsplit, hpieces, hapart⟩ := this
    obtain ⟨b, hb, hend⟩ := trimEnd_split q
    have htrim := trim_cons hblank q
    refine ⟨trim (c :: q), b ++ rest, ?_, ?_, ?_, ?_, ?_⟩
    · rw [hsplit, htrim, List.cons_append, ← List.append_assoc, ← hb]
    · exact (trim_eq_self (head?_trim _) (getLast?_trim _)).symm
    · rw [htrim]
      rfl
    · rw [hpieces, hrule.pieces_blanks hend]
    · cases b with
      | nil =>
        rw [List.append_nil] at hb
        rwa [htrim, ← hb]
      | cons d b =>
        intro _ hd
        obtain rfl : d = '<' := Option.some.inj hd
        exact absurd (hend '<' List.mem_cons_self) (by decide)
  obtain ⟨rest, hsplit, hlater, hapart⟩ := hrule.cut_split hregular (({} : Enclosure).feed c s.head?) s
  have hcons : EndsApart (c :: (cut rule (({} : Enclosure).feed c s.head?) s).1) rest := by
    intro hlast
    refine hapart fun d hd => hlast d ?_
    rw [List.getLast?_cons, hd]
    rfl
  cases hcut : rule {} c s.head? with
  | drop => exact absurd hcut hdrop
  | keep =>
    refine ⟨_, rest, congrArg _ hsplit, ?_, hcons⟩
    rw [pieces_cons hblank (.inl hcut), hlater, trim_cons hblank]
  | before =>
    refine ⟨_, rest, congrArg _ hsplit, ?_, hcons⟩
    rw [pieces_cons hblank (.inr hcut), hlater, trim_cons hblank]
  | after =>
    refine ⟨[], s, rfl, ?_, ?_⟩
    · simp only [pieces_eq_finished, cut, hcut, hrule.after hcut]
      rw [finished_cons, trim_cons hblank]
      rfl
    · intro hc
      obtain rfl : c = '<' := hc c rfl
      rw [hregular.marks (by simp)] at hcut
      cases hcut

end Pieces

end N3Rules.Text
