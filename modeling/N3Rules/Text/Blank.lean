/-
Blank characters, and trimming a text by them.

A character is blank when it has the Unicode property White_Space. Texts are lists of characters here, so that a
scan is a recursion on the list.

- `blankRanges`: the property, as ranges of code points;
- `trim`: the text without the blanks at its two ends;
- `length_trim_le`: trimming never lengthens a text;
- `trim_cons_blank`, `trim_append_blank`, `trim_eq_self`: blanks at the two ends do not matter, and without them
  trimming changes nothing.
-/

namespace N3Rules.Text

/-- the code points with the property White_Space, as inclusive ranges in increasing order -/
def blankRanges : List (Nat × Nat) :=
  [(0x09, 0x0D), (0x20, 0x20), (0x85, 0x85), (0xA0, 0xA0), (0x1680, 0x1680), (0x2000, 0x200A), (0x2028, 0x2029),
    (0x202F, 0x202F), (0x205F, 0x205F), (0x3000, 0x3000)]

/-- whether a character has the property White_Space -/
def isBlank (c : Char) : Bool :=
  blankRanges.any fun r => r.1 ≤ c.toNat && c.toNat ≤ r.2

/-- whether a character is one of the five ASCII blanks: space, tab, line feed, form feed, carriage return -/
def isAsciiBlank (c : Char) : Bool :=
  c == ' ' || c == '\t' || c == '\n' || c == '\x0c' || c == '\r'

/-- the text without the blanks it starts with -/
def trimStart (s : List Char) : List Char :=
  s.dropWhile isBlank

def trimEnd : List Char → List Char
  | [] => []
  | c :: s =>
    match trimEnd s with
    | [] => if isBlank c then [] else [c]
    | kept => c :: kept

def trim (s : List Char) : List Char :=
  trimEnd (trimStart s)

/-- every ASCII blank has the property White_Space -/
theorem isBlank_of_isAsciiBlank {c : Char} (h : isAsciiBlank c = true) : isBlank c = true := by
  simp only [isAsciiBlank, Bool.or_eq_true, beq_iff_eq] at h
  rcases h with (((rfl | rfl) | rfl) | rfl) | rfl <;> decide

theorem length_trimStart_le (s : List Char) : (trimStart s).length ≤ s.length :=
  (List.dropWhile_sublist _).length_le

theorem length_trimEnd_le (s : List Char) : (trimEnd s).length ≤ s.length := by
  induction s with
  | nil => simp [trimEnd]
  | cons c s ih =>
    simp only [trimEnd]
    split
    · split <;> simp
    · rename_i h
      simpa using ih

theorem length_trim_le (s : List Char) : (trim s).length ≤ s.length :=
  Nat.le_trans (length_trimEnd_le _) (length_trimStart_le s)

theorem trimEnd_append_blank {c : Char} (hc : isBlank c = true) (s : List Char) :
    trimEnd (s ++ [c]) = trimEnd s := by
  induction s with
  | nil => simp [trimEnd, hc]
  | cons d s ih => simp [trimEnd, ih]

theorem trimEnd_append {c : Char} (hc : isBlank c = false) (s : List Char) :
    trimEnd (s ++ [c]) = s ++ [c] := by
  induction s with
  | nil => simp [trimEnd, hc]
  | cons d s ih =>
    rw [List.cons_append, trimEnd, ih]
    split
    · simp_all
    · rfl

/-- a text that does not end in a blank is trimmed at its end -/
theorem trimEnd_eq_self {s : List Char} (h : ∀ c ∈ s.getLast?, isBlank c = false) : trimEnd s = s := by
  rcases List.eq_nil_or_concat s with rfl | ⟨t, c, rfl⟩
  · rfl
  · rw [List.concat_eq_append]
    exact trimEnd_append (h c (by simp)) t

theorem trim_cons_blank {c : Char} (hc : isBlank c = true) (s : List Char) : trim (c :: s) = trim s := by
  simp [trim, trimStart, hc]

theorem trim_append_blank {c : Char} (hc : isBlank c = true) (s : List Char) : trim (s ++ [c]) = trim s := by
  simp only [trim, trimStart, List.dropWhile_append]
  split
  · rename_i hall
    rw [List.isEmpty_iff.1 hall]
    simp [trimEnd, hc]
  · exact trimEnd_append_blank hc _

/-- a text that neither starts nor ends with a blank is trimmed -/
theorem trim_eq_self {s : List Char} (hfirst : ∀ c ∈ s.head?, isBlank c = false)
    (hlast : ∀ c ∈ s.getLast?, isBlank c = false) : trim s = s := by
  have hstart : trimStart s = s := by
    cases s with
    | nil => rfl
    | cons c s => simp [trimStart, hfirst c rfl]
  rw [trim, hstart, trimEnd_eq_self hlast]

end N3Rules.Text
