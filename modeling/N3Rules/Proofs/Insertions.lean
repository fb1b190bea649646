/-
What a row of insertions makes of an empty fact base.

A triple is refused if the key of a triple before it is the same, wherever both come from. So the base holds the first
triple of each key, in order, and what is noted of a fact, its number and where it comes from, is noted when the first
triple of its key comes, and stays.

- `firsts`: the insertions whose key none before them has;
- `FactBase.ofInsertions`: the base that insertions make; a document inserts its triples (`FactBase.ofAsserted_eq`);
- `FactBase.Follows`: what is kept along a row, a step (`FactBase.Follows.insert`) and then the row (`FactBase.follows`);
- `FactBase.Represents`, `insertions_represented`: what the base tells of the row.
-/
import N3Rules.Proofs.FactBase

namespace N3Rules

/-! ## Rows of insertions -/

/-- a triple that is put into a base, and where it comes from -/
abbrev Insertion : Type :=
  Triple × Origin

def Insertion.key (i : Insertion) : String :=
  i.1.key

/-- whether the insertion at a place of a row has a key that none before it has -/
def isNewIn (row : List Insertion) (e : Insertion × Nat) : Bool :=
  e.1.key ∉ (row.take e.2).map Insertion.key

/-- the insertions of a row whose key none before them has -/
def firsts (row : List Insertion) : List Insertion :=
  (row.zipIdx.filter (isNewIn row)).map Prod.fst

/-- what comes later does not count -/
theorem isNewIn_append {row : List Insertion} {e : Insertion × Nat} (he : e ∈ row.zipIdx) (later : List Insertion) :
    isNewIn (row ++ later) e = isNewIn row e := by
  have hplace : e.2 < row.length := by simpa using List.snd_lt_of_mem_zipIdx he
  rw [isNewIn, isNewIn, List.take_append_of_le_length (Nat.le_of_lt hplace)]

theorem isNewIn_last (row : List Insertion) (i : Insertion) :
    isNewIn (row ++ [i]) (i, row.length) = decide (i.key ∉ row.map Insertion.key) := by
  rw [isNewIn, List.take_left]

/-- one more insertion is one of the first if its key is new, and changes nothing else -/
theorem firsts_append_singleton (row : List Insertion) (i : Insertion) :
    firsts (row ++ [i]) = firsts row ++ if i.key ∈ row.map Insertion.key then [] else [i] := by
  unfold firsts
  rw [List.zipIdx_append, List.filter_append, List.map_append, List.filter_congr fun e he => isNewIn_append he [i]]
  simp only [List.zipIdx_singleton, Nat.zero_add, List.filter_cons, isNewIn_last, List.filter_nil]
  by_cases hkey : i.key ∈ row.map Insertion.key
  · simp [hkey]
  · simp [hkey]

theorem firsts_sublist (row : List Insertion) : List.Sublist (firsts row) row := by
  have hfirsts : List.Sublist (firsts row) (row.zipIdx.map Prod.fst) := List.filter_sublist.map Prod.fst
  rwa [List.zipIdx_map_fst] at hfirsts

/-- insertions with different keys are all first -/
theorem firsts_of_nodup {row : List Insertion} (h : (row.map Insertion.key).Nodup) : firsts row = row := by
  induction row using List.reverseRecOn with
  | nil => rfl
  | append_singleton row i ih =>
    rw [List.map_append, List.nodup_append] at h
    have hnew : i.key ∉ row.map Insertion.key := fun hold => h.2.2 i.key hold i.key (by simp) rfl
    rw [firsts_append_singleton, ih h.1, if_neg hnew]

/-- the base that insertions make, in order -/
def FactBase.ofInsertions (insertions : List (Triple × Origin)) : FactBase :=
  insertions.foldl (fun s i => s.insert i.1 i.2) {}

theorem FactBase.ofInsertions_append (insertions : List (Triple × Origin)) (i : Triple × Origin) :
    FactBase.ofInsertions (insertions ++ [i]) = (FactBase.ofInsertions insertions).insert i.1 i.2 := by
  simp [FactBase.ofInsertions]

/-- what the insertions of a row answer in turn: whether their triples are taken -/
def FactBase.answers (s : FactBase) : List Insertion → List Bool
  | [] => []
  | i :: row => (s.insert? i.1 i.2).isSome :: (s.insert i.1 i.2).answers row

theorem FactBase.answers_append_singleton (s : FactBase) (row : List Insertion) (i : Insertion) :
    s.answers (row ++ [i]) = s.answers row ++
      [((row.foldl (fun s i => s.insert i.1 i.2) s).insert? i.1 i.2).isSome] := by
  induction row generalizing s with
  | nil => rfl
  | cons j row ih =>
    rw [List.cons_append, FactBase.answers, FactBase.answers, ih]
    rfl

/-! ## Along a row -/

/-- the insertion that a fact comes from -/
def Fact.insertion (f : Fact) : Insertion :=
  (f.triple, f.origin)

/-- a base has the first insertions of a row, and the keys of all -/
structure FactBase.Follows (row : List Insertion) (s : FactBase) : Prop where
  wellFormed : s.WellFormed
  stored : s.facts.toList.map Fact.insertion = firsts row
  keyed : ∀ t, s.contains t = true ↔ t.key ∈ row.map Insertion.key

theorem FactBase.follows_empty : ({} : FactBase).Follows [] := by
  refine ⟨FactBase.wellFormed_empty, rfl, ?_⟩
  intro t
  simp [FactBase.contains]

theorem FactBase.Follows.insert {row : List Insertion} {s : FactBase} (h : s.Follows row) (i : Insertion) :
    (s.insert i.1 i.2).Follows (row ++ [i]) := by
  have hfirsts := firsts_append_singleton row i
  rcases s.insert_cases i.1 i.2 with ⟨hc, hs⟩ | hs
  · have hold : i.key ∈ row.map Insertion.key := (h.keyed i.1).1 hc
    rw [hs]
    refine ⟨h.wellFormed, ?_, ?_⟩
    · rw [h.stored, hfirsts, if_pos hold, List.append_nil]
    · intro t
      rw [h.keyed, List.map_append, List.mem_append, List.map_singleton, List.mem_singleton]
      constructor
      · exact Or.inl
      · rintro (ht | ht)
        · exact ht
        · rwa [ht]
  · have hnew : i.key ∉ row.map Insertion.key := by
      intro hold
      have hc := (h.keyed i.1).2 hold
      rw [(FactBase.insert?_eq_some_iff.1 hs).1] at hc
      cases hc
    refine ⟨FactBase.wellFormed_insert? h.wellFormed hs, ?_, ?_⟩
    · rw [FactBase.facts_of_insert? hs, Array.toList_push, List.map_append, h.stored, hfirsts, if_neg hnew]
      rfl
    · intro t
      rw [FactBase.contains_of_insert? hs, h.keyed, List.map_append, List.mem_append, List.map_singleton,
        List.mem_singleton, or_comm, eq_comm, Insertion.key]

theorem FactBase.follows (row : List Insertion) : (FactBase.ofInsertions row).Follows row := by
  induction row using List.reverseRecOn with
  | nil => exact FactBase.follows_empty
  | append_singleton row i ih =>
    rw [FactBase.ofInsertions_append]
    exact ih.insert i

theorem FactBase.Follows.triples {row : List Insertion} {s : FactBase} (h : s.Follows row) :
    s.triples = (firsts row).map Prod.fst := by
  rw [← h.stored, List.map_map]
  rfl

/-- an insertion is taken where its key is new -/
theorem FactBase.answers_eq (row : List Insertion) : FactBase.answers {} row = row.zipIdx.map (isNewIn row) := by
  induction row using List.reverseRecOn with
  | nil => rfl
  | append_singleton row i ih =>
    have hkeyed : (FactBase.ofInsertions row).contains i.1 = true ↔ i.key ∈ row.map Insertion.key :=
      (FactBase.follows row).keyed i.1
    have hlast : ((FactBase.ofInsertions row).insert? i.1 i.2).isSome = isNewIn (row ++ [i]) (i, row.length) := by
      rw [isNewIn_last, Bool.eq_iff_iff, Option.isSome_iff_ne_none, Ne, FactBase.insert?_eq_none_iff, hkeyed,
        decide_eq_true_iff]
    have hrow : row.zipIdx.map (isNewIn (row ++ [i])) = row.zipIdx.map (isNewIn row) :=
      List.map_congr_left fun e he => isNewIn_append he [i]
    rw [FactBase.answers_append_singleton, ih, List.zipIdx_append, List.map_append, hrow, ← FactBase.ofInsertions, hlast]
    simp

/-- an insertion leaves the facts from before in their places -/
theorem FactBase.facts_insert_prefix (s : FactBase) (t : Triple) (origin : Origin) :
    s.facts.toList <+: (s.insert t origin).facts.toList := by
  rcases s.insert_cases t origin with ⟨-, hs⟩ | hs
  · rw [hs]
  · rw [FactBase.facts_of_insert? hs, Array.toList_push]
    exact List.prefix_append _ _

theorem FactBase.facts_ofInsertions_prefix (row later : List Insertion) :
    (FactBase.ofInsertions row).facts.toList <+: (FactBase.ofInsertions (row ++ later)).facts.toList := by
  induction later using List.reverseRecOn with
  | nil => simp
  | append_singleton later i ih =>
    rw [← List.append_assoc, FactBase.ofInsertions_append]
    exact ih.trans (FactBase.facts_insert_prefix _ i.1 i.2)

/-! ## The facts that a document states -/

theorem FactBase.ofAsserted_eq (ts : List Triple) :
    FactBase.ofAsserted ts = .ofInsertions (ts.map fun t => (t, .asserted)) := by
  rw [FactBase.ofAsserted, FactBase.ofInsertions, List.foldl_map]

theorem FactBase.follows_ofAsserted (ts : List Triple) :
    (FactBase.ofAsserted ts).Follows (ts.map fun t => (t, .asserted)) :=
  FactBase.ofAsserted_eq ts ▸ FactBase.follows _

theorem FactBase.wellFormed_ofAsserted (ts : List Triple) : (FactBase.ofAsserted ts).WellFormed :=
  (FactBase.follows_ofAsserted ts).wellFormed

/-- what is stored for a document is stated in it -/
theorem FactBase.mem_ofAsserted {ts : List Triple} {f : Fact} (hf : f ∈ (FactBase.ofAsserted ts).facts) :
    f.origin = .asserted ∧ f.triple ∈ ts := by
  have hfirst : f.insertion ∈ (FactBase.ofAsserted ts).facts.toList.map Fact.insertion := List.mem_map_of_mem hf.val
  rw [(FactBase.follows_ofAsserted ts).stored] at hfirst
  obtain ⟨t, ht, hinsertion⟩ := List.mem_map.1 ((firsts_sublist _).subset hfirst)
  have htriple : t = f.triple := congrArg Prod.fst hinsertion
  have horigin : Origin.asserted = f.origin := congrArg Prod.snd hinsertion
  exact ⟨horigin.symm, htriple ▸ ht⟩

/-- what a document states is stored, or something with its key -/
theorem FactBase.contains_ofAsserted {ts : List Triple} {t : Triple} (ht : t ∈ ts) :
    (FactBase.ofAsserted ts).contains t = true := by
  rw [(FactBase.follows_ofAsserted ts).keyed, List.map_map]
  exact List.mem_map_of_mem ht

/-- triples with different keys are all stored, in order -/
theorem FactBase.triples_ofAsserted {ts : List Triple} (h : (ts.map Triple.key).Nodup) :
    (FactBase.ofAsserted ts).triples = ts := by
  have hkeys : ((ts.map fun t => (t, Origin.asserted)).map Insertion.key).Nodup := by rwa [List.map_map]
  rw [(FactBase.follows_ofAsserted ts).triples, firsts_of_nodup hkeys, List.map_map]
  exact List.map_id ts

/-- of the triples that a document states, the first of each key is stored -/
theorem FactBase.ofAsserted_firsts (ts : List Triple) :
    (FactBase.ofAsserted ts).triples = ts.eraseDupsBy fun t u => t.key == u.key := by
  rw [FactBase.ofAsserted, FactBase.triples_foldl_insert]
  simp [FactBase.triples, FactBase.contains]

theorem FactBase.inferred_ofAsserted (ts : List Triple) : (FactBase.ofAsserted ts).inferred = [] := by
  rw [FactBase.inferred, List.map_eq_nil_iff, List.filter_eq_nil_iff]
  intro f hf
  have hm : f ∈ (FactBase.ofAsserted ts).facts := ⟨hf⟩
  simp [(FactBase.mem_ofAsserted hm).1]

/-! ## What a base tells -/

/-- what is noted of the facts: their numbers, and where they come from -/
def FactBase.provenance (s : FactBase) : List (Nat × Origin) :=
  s.facts.toList.map fun f => (f.id, f.origin)

/-- what a base tells of the row of insertions that it was made by -/
structure FactBase.Represents (row : List Insertion) (s : FactBase) : Prop where
  aligned : s.provenance.length = s.triples.length
  numbered : s.provenance.map Prod.fst = List.range s.triples.length
  distinct : (s.triples.map Triple.key).Nodup
  /-- the keys that are known are those of the facts -/
  known : ∀ k, s.keys.contains k = true ↔ k ∈ s.triples.map Triple.key
  /-- the facts are the first triples of each key, and come from where these came from -/
  stored : s.triples = (firsts row).map Prod.fst
  origins : s.provenance.map Prod.snd = (firsts row).map Prod.snd
  found : ∀ t, s.contains t = true ↔ ∃ i ∈ row, i.key = t.key
  inferred : s.inferred = ((firsts row).filter fun i => i.2 = .inferred).map Prod.fst

theorem FactBase.Follows.represents {row : List Insertion} {s : FactBase} (h : s.Follows row) : s.Represents row := by
  have hlength : s.provenance.length = s.triples.length := by simp [FactBase.provenance, FactBase.triples]
  have hnumbered : s.provenance.map Prod.fst = List.range s.triples.length := by
    rw [FactBase.length_triples, ← h.wellFormed.numbered, FactBase.provenance, List.map_map]
    rfl
  refine ⟨hlength, hnumbered, h.wellFormed.distinct, h.wellFormed.keyed, h.triples, ?_, ?_, ?_⟩
  · rw [← h.stored, List.map_map, FactBase.provenance, List.map_map]
    rfl
  · intro t
    rw [h.keyed, List.mem_map]
  · rw [← h.stored, List.filter_map, List.map_map]
    rfl

/-- **Fact bases.** After any row of insertions into an empty base, the base tells of the row what `FactBase.Represents`
says: its facts are the first insertions of each key, a part of the row in order. An insertion is taken exactly where its
key is new, and those that come later leave the facts as they are. -/
theorem insertions_represented (row : List Insertion) :
    (FactBase.ofInsertions row).Represents row ∧ List.Sublist (firsts row) row ∧
    FactBase.answers {} row = row.zipIdx.map (isNewIn row) ∧
    ∀ later, (FactBase.ofInsertions row).facts.toList <+: (FactBase.ofInsertions (row ++ later)).facts.toList :=
  ⟨(FactBase.follows row).represents, firsts_sublist row, FactBase.answers_eq row, FactBase.facts_ofInsertions_prefix row⟩

/-- a triple that a rule concludes first and the document states again stays a conclusion -/
example : FactBase.inferred (.ofInsertions [(⟨.iri "a", .iri "b", .plain "1"⟩, .inferred),
    (⟨.iri "a", .iri "b", .plain "2"⟩, .asserted), (⟨.iri "a", .iri "b", .plain "1"⟩, .asserted)]) =
    [⟨.iri "a", .iri "b", .plain "1"⟩] := by
  decide +kernel

end N3Rules
