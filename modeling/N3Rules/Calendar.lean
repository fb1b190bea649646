/-
Texts that denote a date or a time of the proleptic Gregorian calendar.

A reader takes what it needs from the front of a text and hands on the rest, or fails. There are two notations:

- the loose one, in which a number may be short and may follow blanks, and a signed year has any number of digits;
- the strict one of timestamps, in which every number has all its digits and an offset from universal time follows.

`isDate` takes loose dates, `isDateTime` takes strict timestamps and loose date-times.
-/
import N3Rules.Text.Blank

namespace N3Rules.Calendar

open Text

/-! ## The calendar -/

/-- a leap year has a 29th of February -/
def isLeap (year : Int) : Bool :=
  year % 4 == 0 && (year % 100 != 0 || year % 400 == 0)

/-- the number of days of a month, zero when there is no such month -/
def daysIn (year : Int) (month : Nat) : Nat :=
  match month with
  | 1 | 3 | 5 | 7 | 8 | 10 | 12 => 31
  | 4 | 6 | 9 | 11 => 30
  | 2 => if isLeap year then 29 else 28
  | _ => 0

/-- the years that a date may have -/
def firstYear : Int := -262143

def lastYear : Int := 262142

def isDay (year : Int) (month day : Nat) : Bool :=
  firstYear ≤ year && year ≤ lastYear && 1 ≤ day && day ≤ daysIn year month

/-- whether there is such a time of day; a minute may have a leap second -/
def isTime (hour minute second : Nat) : Bool :=
  hour ≤ 23 && minute ≤ 59 && second ≤ 60

/-! ## Readers -/

def digitsValue (s : List Char) : Nat :=
  s.foldl (fun n c => 10 * n + (c.toNat - '0'.toNat)) 0

/-- a number of at least `least` and at most `most` digits -/
def number? (least most : Nat) (s : List Char) : Option (Nat × List Char) :=
  let digits := (s.take most).takeWhile Char.isDigit
  if digits.length < least then none else some (digitsValue digits, s.drop digits.length)

def char? (c : Char) : List Char → Option (List Char)
  | [] => none
  | d :: s => if d = c then some s else none

/-- nothing, or a point and one or more digits -/
def fraction? : List Char → Option (List Char)
  | '.' :: s => if (s.takeWhile Char.isDigit).isEmpty then none else some (s.dropWhile Char.isDigit)
  | s => some s

/-! ## The loose notation -/

/-- a number of one or two digits, after any blanks -/
def looseNumber? (s : List Char) : Option (Nat × List Char) :=
  number? 1 2 (trimStart s)

/-- a year, after any blanks: up to four digits, or a sign and any number of digits -/
def looseYear? (s : List Char) : Option (Int × List Char) :=
  match trimStart s with
  | '-' :: t => (number? 1 t.length t).map fun r => (-(r.1 : Int), r.2)
  | '+' :: t => (number? 1 t.length t).map fun r => ((r.1 : Int), r.2)
  | t => (number? 1 4 t).map fun r => ((r.1 : Int), r.2)

/-- year, month and day, with hyphens between them -/
def looseDay? (s : List Char) : Option (List Char) := do
  let (year, s) ← looseYear? s
  let (month, s) ← looseNumber? (← char? '-' s)
  let (day, s) ← looseNumber? (← char? '-' s)
  if isDay year month day then some s else none

/-- hour, minute and second, with colons between them, and an optional fraction -/
def looseTime? (s : List Char) : Option (List Char) := do
  let (hour, s) ← looseNumber? s
  let (minute, s) ← looseNumber? (← char? ':' s)
  let (second, s) ← looseNumber? (← char? ':' s)
  if isTime hour minute second then fraction? s else none

/-! ## The strict notation -/

/-- an offset from universal time: `Z`, or a sign, hours and minutes, less than a day -/
def offset? : List Char → Option (List Char)
  | [] => none
  | c :: s =>
    if c = 'Z' ∨ c = 'z' then some s
    else if c = '+' ∨ c = '-' ∨ c = '−' then do
      let (hours, s) ← number? 2 2 s
      let (minutes, s) ← number? 2 2 (← char? ':' s)
      if hours ≤ 23 && minutes ≤ 59 then some s else none
    else none

/-- a day, a time of day and an offset, every number with all its digits -/
def timestamp? (s : List Char) : Option (List Char) := do
  let (year, s) ← number? 4 4 s
  let (month, s) ← number? 2 2 (← char? '-' s)
  let (day, s) ← number? 2 2 (← char? '-' s)
  let s ← char? 'T' s <|> char? 't' s <|> char? ' ' s
  let (hour, s) ← number? 2 2 s
  let (minute, s) ← number? 2 2 (← char? ':' s)
  let (second, s) ← number? 2 2 (← char? ':' s)
  let s ← fraction? s
  if isDay year month day && isTime hour minute second then offset? s else none

/-! ## Recognisers -/

def isDate (s : List Char) : Bool :=
  looseDay? s == some []

/-- whether a text is a date and a time, with `T` between them -/
def isLooseDateTime (s : List Char) : Bool :=
  (do looseTime? (← char? 'T' (← looseDay? s))) == some []

/-- whether a text is a point in time -/
def isDateTime (s : List Char) : Bool :=
  timestamp? s == some [] || isLooseDateTime s

end N3Rules.Calendar
