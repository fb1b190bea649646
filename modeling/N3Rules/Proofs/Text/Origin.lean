/-
Where the characters of pieces come from.

Cutting a text makes up no characters. Taking its rules out puts a full stop in the place of each; and where a text is
made compact, blanks turn into spaces, except in quotes and references.

- `subset_of_mem_pieces`: a piece has nothing but what the text has;
- `takeRules_subset`: the same of a text without its rules, but for full stops, and of the sides of the rules;
- `blank_of_mem_compact`: the blanks of a compact text other than spaces stand in quotes and references.
-/
import N3Rules.Proofs.Text.Compact
import N3Rules.Proofs.Text.Pieces
import N3Rules.Proofs.Text.RuleBlocks

namespace N3Rules.Text

/-! ## Pieces -/

theorem trim_subset (s : List Char) : trim s ⊆ s := by
  obtain ⟨b, hb, -⟩ := trimEnd_split (trimStart s)
  have hend : trimEnd (trimStart s) ⊆ trimStart s := by
    conv_rhs => rw [hb]
    exact List.subset_append_left _ _
  exact List.Subset.trans hend (List.dropWhile_sublist _).subset

theorem cut_subset (rule : CutRule) (e : Enclosure) (s : List Char) :
    (cut rule e s).1 ⊆ s ∧ ∀ p ∈ (cut rule e s).2, p ⊆ s := by
  induction s generalizing e with
  | nil => simp [cut]
  | cons c s ih =>
    obtain ⟨hp, hl⟩ := ih (e.feed c s.head?)
    have hp' := List.Subset.trans hp (List.subset_cons_self c s)
    have hl' : ∀ p ∈ (cut rule (e.feed c s.head?) s).2, p ⊆ c :: s :=
      fun p hmem => List.Subset.trans (hl p hmem) (List.subset_cons_self c s)
    simp only [cut]
    split <;> simp_all

theorem subset_of_mem_pieces {rule : CutRule} {s p : List Char} (h : p ∈ pieces rule s) : p ⊆ s := by
  obtain ⟨q, hq, rfl⟩ := List.mem_map.1 (List.mem_filter.1 h).1
  have hcut := cut_subset rule {} s
  rcases List.mem_cons.1 hq with rfl | hq
  · exact List.Subset.trans (trim_subset _) hcut.1
  · exact List.Subset.trans (trim_subset _) (hcut.2 q hq)

/-! ## Rules -/

theorem slice_subset (s : List Char) (a b : Nat) : slice s a b ⊆ s :=
  List.Subset.trans (List.take_subset _ _) (List.drop_subset _ _)

theorem blankOut_subset (s : List Char) (n : Nat) (pairs : List Pair) : blankOut s n pairs ⊆ s ++ " . ".toList := by
  induction pairs generalizing n with
  | nil => exact List.Subset.trans (List.drop_subset _ _) (List.subset_append_left _ _)
  | cons p pairs ih =>
    refine List.append_subset.2 ⟨List.append_subset.2 ⟨?_, List.subset_append_right _ _⟩, ih _⟩
    exact List.Subset.trans (slice_subset s _ _) (List.subset_append_left _ _)

/-- of a text without its rules, only a full stop for each of them and the spaces around it are not of the text -/
theorem takeRules_subset {s : List Char} {e : Extract} (h : takeRules s = .ok e) :
    e.remainder ⊆ s ++ " . ".toList ∧ ∀ r ∈ e.rules, r.antecedent ⊆ s ∧ r.consequent ⊆ s := by
  rcases takeRules_cases s with ⟨n, -, herror⟩ | ⟨g, k, -, herror⟩ | ⟨pairs, e', htaken, -, hok⟩
  · cases herror.symm.trans h
  · cases herror.symm.trans h
  · cases hok.symm.trans h
    constructor
    · rw [htaken.remainder]
      exact blankOut_subset s 0 pairs
    · intro r hr
      rw [htaken.rules] at hr
      obtain ⟨p, -, rfl⟩ := List.mem_map.1 hr
      exact ⟨slice_subset s _ _, slice_subset s _ _⟩

/-! ## Blanks of a compact text -/

/-- whether blanks are kept as they are where a text is laid out so -/
def Layout.keepsBlanks : Layout → Bool
  | .quoted _ | .iri => true
  | .plain | .comment => false

/-- a blank other than a space is written where it is kept, and nowhere else -/
theorem Layout.keepsBlanks_of_write {l : Layout} {gap : Bool} {c d : Char} (hblank : isBlank d = true) (hd : d ≠ ' ')
    (h : d ∈ l.write gap c) : c = d ∧ l.keepsBlanks = true := by
  cases l with
  | quoted q => simpa [Layout.write, Layout.keepsBlanks, eq_comm] using h
  | iri => simpa [Layout.write, Layout.keepsBlanks, eq_comm] using h
  | comment =>
    simp only [Layout.write] at h
    split at h
    · exact absurd (List.mem_singleton.1 h) hd
    · cases h
  | plain =>
    simp only [Layout.write] at h
    split at h
    · cases h
    · split at h
      · split at h
        · cases h
        · exact absurd (List.mem_singleton.1 h) hd
      · rename_i hc
        obtain rfl := List.mem_singleton.1 h
        exact absurd hblank hc

theorem blank_of_mem_squeeze {l : Layout} (gap : Bool) {s : List Char} {d : Char} (hblank : isBlank d = true)
    (hd : d ≠ ' ') (h : d ∈ squeeze l gap s) : ∃ u v, s = u ++ d :: v ∧ (l.after (some d) u).keepsBlanks = true := by
  induction s generalizing l gap with
  | nil => cases h
  | cons c s ih =>
    rw [squeeze_cons, List.mem_append] at h
    rcases h with h | h
    · obtain ⟨rfl, hkeeps⟩ := Layout.keepsBlanks_of_write hblank hd h
      exact ⟨[], s, rfl, hkeeps⟩
    · obtain ⟨u, v, rfl, hkeeps⟩ := ih _ h
      refine ⟨c :: u, v, rfl, ?_⟩
      cases u <;> exact hkeeps

/-- the blanks of a compact text other than spaces stand in quotes and references -/
theorem blank_of_mem_compact {s : List Char} {d : Char} (hblank : isBlank d = true) (hd : d ≠ ' ') (h : d ∈ compact s) :
    ∃ u v, s = u ++ d :: v ∧ (Layout.plain.after (some d) u).keepsBlanks = true := by
  obtain ⟨b, hb, -⟩ := trimEnd_split (squeeze .plain true s)
  refine blank_of_mem_squeeze true hblank hd ?_
  rw [hb]
  exact List.mem_append_left b h

end N3Rules.Text
