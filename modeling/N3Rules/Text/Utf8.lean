/-
Text as UTF-8 bytes: how many bytes a text takes, and reading bytes as text.

The reader takes one byte at a time. Between characters any first byte may come; inside a character it knows how
many bytes are owed and the least and the greatest that the next one may be. It stops at the first fault and says
where the faulty sequence starts and, unless the bytes just end there, how many bytes of it could have been right.
-/

namespace N3Rules.Text

/-- how many bytes a text takes in UTF-8 -/
def utf8Length : List Char → Nat
  | [] => 0
  | c :: s => c.utf8Size + utf8Length s

theorem utf8Length_append (s t : List Char) : utf8Length (s ++ t) = utf8Length s + utf8Length t := by
  induction s with
  | nil => simp [utf8Length]
  | cons c s ih => rw [List.cons_append, utf8Length, utf8Length, ih, Nat.add_assoc]

/-- why bytes are not UTF-8 text -/
structure Utf8Fault where
  /-- the index of the first byte of the faulty sequence -/
  start : Nat
  /-- how many bytes of it are the beginning of some character, or none when the bytes end inside the sequence -/
  width : Option Nat
  deriving DecidableEq, Repr

def Utf8Fault.message (f : Utf8Fault) : String :=
  match f.width with
  | some n => s!"invalid utf-8 sequence of {n} bytes from index {f.start}"
  | none => s!"incomplete utf-8 byte sequence from index {f.start}"

/-- a character of several bytes, read in part -/
structure Lead where
  /-- the index of its first byte -/
  start : Nat
  seen : Nat
  /-- the number of bytes still to come -/
  owed : Nat
  /-- the least next byte -/
  low : Nat
  /-- the greatest next byte -/
  high : Nat
  code : Nat
  deriving DecidableEq, Repr

/-- the character of several bytes that byte `b` at index `i` begins, if it can begin one -/
def Lead.ofFirst? (i b : Nat) : Option Lead :=
  if 0xC2 ≤ b ∧ b ≤ 0xDF then some ⟨i, 1, 1, 0x80, 0xBF, b - 0xC0⟩
  else if b = 0xE0 then some ⟨i, 1, 2, 0xA0, 0xBF, 0⟩
  else if b = 0xED then some ⟨i, 1, 2, 0x80, 0x9F, 0xD⟩
  else if 0xE1 ≤ b ∧ b ≤ 0xEF then some ⟨i, 1, 2, 0x80, 0xBF, b - 0xE0⟩
  else if b = 0xF0 then some ⟨i, 1, 3, 0x90, 0xBF, 0⟩
  else if 0xF1 ≤ b ∧ b ≤ 0xF3 then some ⟨i, 1, 3, 0x80, 0xBF, b - 0xF0⟩
  else if b = 0xF4 then some ⟨i, 1, 3, 0x80, 0x8F, 4⟩
  else none

/-- the text of the bytes from index `i` on, inside the character `lead` if there is one -/
def decodeFrom (i : Nat) (lead : Option Lead) : List UInt8 → Except Utf8Fault (List Char)
  | [] =>
    match lead with
    | none => .ok []
    | some l => .error ⟨l.start, none⟩
  | byte :: bytes =>
    let b := byte.toNat
    match lead with
    | none =>
      if b < 0x80 then (decodeFrom (i + 1) none bytes).map (Char.ofNat b :: ·)
      else
        match Lead.ofFirst? i b with
        | none => .error ⟨i, some 1⟩
        | some l => decodeFrom (i + 1) (some l) bytes
    | some l =>
      if l.low ≤ b ∧ b ≤ l.high then
        let code := l.code * 64 + (b - 0x80)
        if l.owed = 1 then (decodeFrom (i + 1) none bytes).map (Char.ofNat code :: ·)
        else decodeFrom (i + 1) (some ⟨l.start, l.seen + 1, l.owed - 1, 0x80, 0xBF, code⟩) bytes
      else .error ⟨l.start, some l.seen⟩

/-- the text that bytes are the UTF-8 form of -/
def decodeUtf8 (bytes : List UInt8) : Except Utf8Fault (List Char) :=
  decodeFrom 0 none bytes

end N3Rules.Text
