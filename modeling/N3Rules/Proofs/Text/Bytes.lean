/-
Texts as bytes, and slices of a text between bytes.

A slice is there only if its two bytes are in order and in range and neither is inside of a character. A cursor that
goes over the bytes of a text is at such a place wherever it has whole characters behind it. And the bytes of a
character beyond ASCII look like no ASCII character, so a scan that looks for some of these passes over them.

- `bytes`: the UTF-8 bytes of a text;
- `from?`, `between?`: the slices of a text;
- `from?_isSome_iff`, `between?_isSome_iff`, `isBoundary_iff`: when a slice is there;
- `head?_bytes_eq_some_iff`, `quoteNext_wide`: what a cursor sees of a character.
-/
import Mathlib.Tactic
import N3Rules.Proofs.Text.Braces
import N3Rules.Text.Utf8

namespace N3Rules.Text

/-! ## Bytes -/

/-- the UTF-8 bytes of a text, each as the character with its number -/
def bytes (s : List Char) : List Char :=
  s.flatMap fun c => (String.utf8EncodeChar c).map fun b => Char.ofNat b.toNat

/-- a byte that is no ASCII character -/
def IsWide (b : Char) : Prop :=
  128 ≤ b.toNat

/-- a byte that goes on with a character -/
def IsContinuation (b : Char) : Prop :=
  0x80 ≤ b.toNat ∧ b.toNat < 0xC0

theorem bytes_append (s t : List Char) : bytes (s ++ t) = bytes s ++ bytes t :=
  List.flatMap_append

theorem bytes_cons (c : Char) (s : List Char) : bytes (c :: s) = bytes [c] ++ bytes s :=
  bytes_append [c] s

theorem length_bytes_char (c : Char) : (bytes [c]).length = c.utf8Size := by
  simp [bytes]

theorem length_bytes (s : List Char) : (bytes s).length = utf8Length s := by
  induction s with
  | nil => rfl
  | cons c s ih => rw [bytes_cons, List.length_append, length_bytes_char, ih, utf8Length]

/-- where a cursor has whole characters behind it, the bytes before it are theirs -/
theorem drop_bytes (u s : List Char) : (bytes (u ++ s)).drop (utf8Length u) = bytes s := by
  rw [bytes_append, ← length_bytes, List.drop_left]

theorem getElem?_bytes (u s : List Char) : (bytes (u ++ s))[utf8Length u]? = (bytes s).head? := by
  rw [← drop_bytes u s, List.head?_drop]

theorem toNat_byte (b : UInt8) : (Char.ofNat b.toNat).toNat = b.toNat := by
  have hb := b.toNat_lt
  have hvalid : b.toNat.isValidChar := .inl (by omega)
  rw [Char.ofNat, dif_pos hvalid]
  rfl

theorem utf8Size_ascii {c : Char} (hc : c.toNat < 128) : c.utf8Size = 1 := by
  rw [Char.utf8Size_eq_one_iff, UInt32.le_iff_toNat_le]
  exact Nat.le_of_lt_succ hc

/-- an ASCII character is its own byte -/
theorem bytes_ascii {c : Char} (hc : c.toNat < 128) : bytes [c] = [c] := by
  have hbyte : c.val.toUInt8.toNat = c.toNat := by
    have hlt : c.toNat < 256 := by omega
    exact Nat.mod_eq_of_lt hlt
  rw [bytes, List.flatMap_singleton, String.utf8EncodeChar_eq_singleton (utf8Size_ascii hc), List.map_singleton, hbyte,
    Char.ofNat_toNat]

theorem isContinuation_byte (x : UInt8) : IsContinuation (Char.ofNat (x &&& 0x3f ||| 0x80).toNat) := by
  have hmod : (x &&& 0x3f).toNat = x.toNat % 2 ^ 6 := by
    rw [UInt8.toNat_and]
    exact Nat.and_two_pow_sub_one_eq_mod x.toNat 6
  have hlt : x.toNat % 2 ^ 6 < 2 ^ 6 := Nat.mod_lt _ (by decide)
  have hor : (x &&& 0x3f ||| 0x80).toNat = 2 ^ 7 * 1 + x.toNat % 2 ^ 6 := by
    rw [UInt8.toNat_or, Nat.or_comm, hmod, Nat.two_pow_add_eq_or_of_lt (by omega) 1]
    rfl
  rw [IsContinuation, toNat_byte, hor]
  omega

theorem le_toNat_lead (x : UInt8) {y : UInt8} (h : 0xC0 ≤ y.toNat) : 0xC0 ≤ (Char.ofNat (x ||| y).toNat).toNat := by
  rw [toNat_byte, UInt8.toNat_or]
  exact Nat.le_trans h Nat.right_le_or

/-- beyond ASCII, the first byte of a character begins it, and its other bytes go on with it -/
theorem exists_bytes_wide {c : Char} (hc : 128 ≤ c.toNat) :
    ∃ b bs, bytes [c] = b :: bs ∧ 0xC0 ≤ b.toNat ∧ ∀ d ∈ bs, IsContinuation d := by
  have hone : c.utf8Size ≠ 1 := by
    rw [ne_eq, Char.utf8Size_eq_one_iff, UInt32.le_iff_toNat_le]
    exact Nat.not_le.2 (by exact hc)
  rw [bytes, List.flatMap_singleton]
  rcases Char.utf8Size_eq c with hsize | hsize | hsize | hsize
  · exact absurd hsize hone
  · rw [String.utf8EncodeChar_eq_cons_cons hsize]
    refine ⟨_, _, rfl, le_toNat_lead _ (by decide), ?_⟩
    simp only [List.map_cons, List.map_nil, List.forall_mem_cons, isContinuation_byte, List.not_mem_nil,
      false_implies, implies_true, and_self]
  · rw [String.utf8EncodeChar_eq_cons_cons_cons hsize]
    refine ⟨_, _, rfl, le_toNat_lead _ (by decide), ?_⟩
    simp only [List.map_cons, List.map_nil, List.forall_mem_cons, isContinuation_byte, List.not_mem_nil,
      false_implies, implies_true, and_self]
  · rw [String.utf8EncodeChar_eq_cons_cons_cons_cons hsize]
    refine ⟨_, _, rfl, le_toNat_lead _ (by decide), ?_⟩
    simp only [List.map_cons, List.map_nil, List.forall_mem_cons, isContinuation_byte, List.not_mem_nil,
      false_implies, implies_true, and_self]

theorem isWide_of_mem_bytes {c : Char} (hc : 128 ≤ c.toNat) : ∀ b ∈ bytes [c], IsWide b := by
  obtain ⟨b, bs, hbytes, hb, hbs⟩ := exists_bytes_wide hc
  rw [hbytes]
  rintro d (_ | ⟨_, hd⟩)
  · exact Nat.le_trans (by decide) hb
  · exact (hbs d hd).1

/-- the first byte of a character begins it -/
theorem exists_bytes_char (c : Char) :
    ∃ b bs, bytes [c] = b :: bs ∧ ¬IsContinuation b ∧ ∀ d ∈ bs, IsContinuation d := by
  by_cases hc : c.toNat < 128
  · refine ⟨c, [], bytes_ascii hc, ?_, by simp⟩
    rintro ⟨hle, -⟩
    omega
  · obtain ⟨b, bs, hbytes, hb, hbs⟩ := exists_bytes_wide (Nat.le_of_not_lt hc)
    refine ⟨b, bs, hbytes, ?_, hbs⟩
    rintro ⟨-, hlt⟩
    omega

/-! ## Slices -/

/-- the text from a byte on: none if the byte is out of range or inside of a character -/
def from? : Nat → List Char → Option (List Char)
  | 0, s => some s
  | _ + 1, [] => none
  | n + 1, c :: s => if c.utf8Size ≤ n + 1 then from? (n + 1 - c.utf8Size) s else none

/-- the text before a byte: none if the byte is out of range or inside of a character -/
def upTo? : Nat → List Char → Option (List Char)
  | 0, _ => some []
  | _ + 1, [] => none
  | n + 1, c :: s => if c.utf8Size ≤ n + 1 then (upTo? (n + 1 - c.utf8Size) s).map (c :: ·) else none

/-- the text between two bytes: none if they are out of order, or one is out of range or inside of a character -/
def between? (i j : Nat) (s : List Char) : Option (List Char) :=
  if i ≤ j then (from? i s).bind (upTo? (j - i)) else none

/-- the byte is where a character of the text begins, or where the text ends -/
def IsBoundary (s : List Char) (i : Nat) : Prop :=
  ∃ u v, s = u ++ v ∧ utf8Length u = i

theorem utf8Length_cons_pos (c : Char) (s : List Char) : 0 < utf8Length (c :: s) := by
  have := c.utf8Size_pos
  rw [utf8Length]
  omega

theorem from?_eq_some_iff {n : Nat} {s v : List Char} : from? n s = some v ↔ ∃ u, s = u ++ v ∧ utf8Length u = n := by
  fun_induction from? n s with
  | case1 s =>
    constructor
    · rintro ⟨⟩
      exact ⟨[], rfl, rfl⟩
    · rintro ⟨u, rfl, hu⟩
      cases u with
      | nil => rfl
      | cons c u => exact absurd hu (utf8Length_cons_pos c u).ne'
  | case2 n =>
    simp only [reduceCtorEq, false_iff]
    rintro ⟨u, hnil, hu⟩
    obtain rfl := (List.append_eq_nil_iff.1 hnil.symm).1
    cases hu
  | case3 n c s hle ih =>
    rw [ih]
    constructor
    · rintro ⟨u, rfl, hu⟩
      refine ⟨c :: u, rfl, ?_⟩
      rw [utf8Length, hu, Nat.add_sub_cancel' hle]
    · rintro ⟨u, hs, hu⟩
      cases u with
      | nil => cases hu
      | cons d u =>
        obtain ⟨rfl, rfl⟩ := List.cons.inj hs
        exact ⟨u, rfl, Nat.eq_sub_of_add_eq' hu⟩
  | case4 n c s hle =>
    simp only [reduceCtorEq, false_iff]
    rintro ⟨u, hs, hu⟩
    cases u with
    | nil => cases hu
    | cons d u =>
      obtain ⟨rfl, -⟩ := List.cons.inj hs
      rw [utf8Length] at hu
      omega

theorem upTo?_eq_some_iff {n : Nat} {s m : List Char} : upTo? n s = some m ↔ m <+: s ∧ utf8Length m = n := by
  fun_induction upTo? n s generalizing m with
  | case1 s =>
    constructor
    · rintro ⟨⟩
      exact ⟨List.nil_prefix, rfl⟩
    · rintro ⟨-, hm⟩
      cases m with
      | nil => rfl
      | cons c m => exact absurd hm (utf8Length_cons_pos c m).ne'
  | case2 n =>
    simp only [reduceCtorEq, List.prefix_nil, false_iff]
    rintro ⟨rfl, hm⟩
    cases hm
  | case3 n c s hle ih =>
    rw [Option.map_eq_some_iff]
    constructor
    · rintro ⟨m, hm, rfl⟩
      obtain ⟨hstarts, hlength⟩ := ih.1 hm
      refine ⟨(List.prefix_cons_inj c).2 hstarts, ?_⟩
      rw [utf8Length]
      omega
    · rintro ⟨hstarts, hlength⟩
      cases m with
      | nil => cases hlength
      | cons d m =>
        obtain ⟨rfl, hm⟩ := List.cons_prefix_cons.1 hstarts
        exact ⟨m, ih.2 ⟨hm, Nat.eq_sub_of_add_eq' hlength⟩, rfl⟩
  | case4 n c s hle =>
    simp only [reduceCtorEq, false_iff]
    rintro ⟨hstarts, hlength⟩
    cases m with
    | nil => cases hlength
    | cons d m =>
      obtain ⟨rfl, -⟩ := List.cons_prefix_cons.1 hstarts
      rw [utf8Length] at hlength
      omega

/-- the slice between two bytes that have whole characters behind them -/
theorem between?_eq_some_iff {i j : Nat} {s m : List Char} :
    between? i j s = some m ↔ ∃ u v, s = u ++ (m ++ v) ∧ utf8Length u = i ∧ utf8Length (u ++ m) = j := by
  simp only [between?, utf8Length_append]
  constructor
  · intro h
    split at h
    · obtain ⟨w, hw, hm⟩ := Option.bind_eq_some_iff.1 h
      obtain ⟨u, rfl, rfl⟩ := from?_eq_some_iff.1 hw
      obtain ⟨⟨v, rfl⟩, hlength⟩ := upTo?_eq_some_iff.1 hm
      exact ⟨u, v, rfl, rfl, by omega⟩
    · cases h
  · rintro ⟨u, v, rfl, rfl, rfl⟩
    rw [if_pos (Nat.le_add_right _ _), Option.bind_eq_some_iff]
    refine ⟨m ++ v, from?_eq_some_iff.2 ⟨u, rfl, rfl⟩, upTo?_eq_some_iff.2 ⟨List.prefix_append m v, ?_⟩⟩
    omega

theorem between?_append (u m v : List Char) :
    between? (utf8Length u) (utf8Length (u ++ m)) (u ++ (m ++ v)) = some m :=
  between?_eq_some_iff.2 ⟨u, v, rfl, rfl, rfl⟩

/-- the rest of a text is there exactly from where a character begins or the text ends -/
theorem from?_isSome_iff {i : Nat} {s : List Char} : (from? i s).isSome ↔ IsBoundary s i := by
  simp only [Option.isSome_iff_exists, from?_eq_some_iff]
  exact exists_comm

/-- **Slices.** A slice is there exactly if its bytes are in order, and each is where a character begins or the text
ends. -/
theorem between?_isSome_iff {i j : Nat} {s : List Char} :
    (between? i j s).isSome ↔ i ≤ j ∧ IsBoundary s i ∧ IsBoundary s j := by
  rw [Option.isSome_iff_exists]
  constructor
  · rintro ⟨m, hm⟩
    obtain ⟨u, v, rfl, rfl, rfl⟩ := between?_eq_some_iff.1 hm
    refine ⟨?_, ⟨u, m ++ v, rfl, rfl⟩, u ++ m, v, (List.append_assoc u m v).symm, rfl⟩
    rw [utf8Length_append]
    exact Nat.le_add_right _ _
  · rintro ⟨hle, ⟨u, v, rfl, rfl⟩, u', v', hs, rfl⟩
    -- of two texts that the text starts with, the one with fewer bytes is what the other starts with
    rcases List.append_eq_append_iff.1 hs with ⟨w, rfl, rfl⟩ | ⟨w, rfl, rfl⟩
    · exact ⟨w, between?_append u w v'⟩
    · rw [utf8Length_append] at hle
      obtain rfl : w = [] := by
        cases w with
        | nil => rfl
        | cons c w =>
          have := utf8Length_cons_pos c w
          omega
      refine ⟨[], between?_eq_some_iff.2 ⟨u', v, ?_, ?_, ?_⟩⟩ <;> simp

example : between? 0 1 ['é', 'x'] = none ∧ between? 2 3 ['é', 'x'] = some ['x'] := by decide

theorem isBoundary_cons_iff {c : Char} {s : List Char} {i : Nat} :
    IsBoundary (c :: s) i ↔ i = 0 ∨ c.utf8Size ≤ i ∧ IsBoundary s (i - c.utf8Size) := by
  constructor
  · rintro ⟨u, v, hs, rfl⟩
    cases u with
    | nil => exact .inl rfl
    | cons d u =>
      obtain ⟨rfl, rfl⟩ := List.cons.inj hs
      rw [utf8Length]
      exact .inr ⟨Nat.le_add_right _ _, u, v, rfl, by omega⟩
  · rintro (rfl | ⟨hle, u, v, rfl, hu⟩)
    · exact ⟨[], c :: s, rfl, rfl⟩
    · refine ⟨c :: u, v, rfl, ?_⟩
      rw [utf8Length]
      omega

/-- a byte is such a place exactly if it is the end of the text, or goes on with no character -/
theorem isBoundary_iff {s : List Char} {i : Nat} :
    IsBoundary s i ↔ i = utf8Length s ∨ ∃ b, (bytes s)[i]? = some b ∧ ¬IsContinuation b := by
  induction s generalizing i with
  | nil =>
    constructor
    · rintro ⟨u, v, hs, rfl⟩
      rw [List.append_eq_nil_iff.1 hs.symm |>.1]
      exact .inl rfl
    · rintro (rfl | ⟨b, hb, -⟩)
      · exact ⟨[], [], rfl, rfl⟩
      · cases hb
  | cons c s ih =>
    obtain ⟨b, bs, hbytes, hb, hbs⟩ := exists_bytes_char c
    have hsize : bs.length + 1 = c.utf8Size := by rw [← length_bytes_char, hbytes, List.length_cons]
    rw [isBoundary_cons_iff, bytes_cons, hbytes, utf8Length]
    cases i with
    | zero => simp [hb]
    | succ i =>
      rw [List.cons_append, List.getElem?_cons_succ]
      by_cases hi : i < bs.length
      · rw [List.getElem?_append_left hi, List.getElem?_eq_getElem hi]
        have hcontinues := hbs _ (List.getElem_mem hi)
        simp only [Option.some.injEq, exists_eq_left', hcontinues, not_true_eq_false, or_false]
        omega
      · rw [List.getElem?_append_right (by omega), and_iff_right (by omega), ih]
        have hplace : i + 1 - c.utf8Size = i - bs.length := by omega
        rw [hplace, or_iff_right (by omega)]
        refine or_congr_left ?_
        omega

/-! ## What a cursor sees of a character -/

theorem IsWide.ne {b c : Char} (hb : IsWide b) (hc : c.toNat < 128) : b ≠ c := by
  rintro rfl
  exact absurd hb (Nat.not_le.2 hc)

/-- where a character begins, a cursor sees an ASCII character just if the character is this one -/
theorem head?_bytes_eq_some_iff {a : Char} (ha : a.toNat < 128) {s : List Char} :
    (bytes s).head? = some a ↔ s.head? = some a := by
  cases s with
  | nil => rfl
  | cons c s =>
    rw [bytes_cons]
    by_cases hc : c.toNat < 128
    · rw [bytes_ascii hc]
      rfl
    · obtain ⟨b, bs, hbytes, hb, -⟩ := exists_bytes_wide (Nat.le_of_not_lt hc)
      have hne : b ≠ a := IsWide.ne (Nat.le_trans (by decide) hb) ha
      have hne' : c ≠ a := by
        rintro rfl
        exact hc ha
      simp [hbytes, hne, hne']

theorem getElem?_bytes_ascii {c : Char} (hc : c.toNat < 128) (u s : List Char) :
    (bytes (u ++ c :: s))[utf8Length u]? = some c := by
  rw [getElem?_bytes, head?_bytes_eq_some_iff hc]
  rfl

/-- a byte beyond ASCII may end an escape, and is no mark -/
theorem quoteNext_wide {b : Char} (hb : IsWide b) {quote : Option Quote} (hquote : ∀ q ∈ quote, q.mark.toNat < 128) :
    quoteNext quote b = quote.map fun q => { q with escaped := false } := by
  cases quote with
  | none =>
    have hmarks : b ≠ '"' ∧ b ≠ apostrophe := ⟨hb.ne (by decide), hb.ne (by decide)⟩
    simp [quoteNext, Quote.opening?, hmarks]
  | some q =>
    obtain ⟨mark, escaped⟩ := q
    have hmarks : b ≠ '\\' ∧ b ≠ mark := ⟨hb.ne (by decide), hb.ne (hquote _ rfl)⟩
    cases escaped <;> simp [quoteNext, Quote.feed, hmarks]

end N3Rules.Text
