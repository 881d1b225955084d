import ServiceDirectory.Decimal.Range
import ServiceDirectory.Toml.Quoted

/-!
# Scalars

Integers fit into 64 bits with a sign, in four bases; digits may be grouped by
single underscores. A float may be infinite only if it says so or is negative.
Dates have to exist, and a time of the day needs its seconds.
-/

namespace ServiceDirectory.Toml

/-! ## Numbers -/

/-- The digits of a run in which single underscores may stand between two digits. -/
def digitGroups? (isDigit : Char → Bool) (text : List Char) : Option (List Char × List Char) :=
  let belongs (c : Char) : Bool := isDigit c || c == '_'
  let groups := (text.takeWhile belongs).splitOn '_'
  if groups.any List.isEmpty then none else some (groups.flatten, text.dropWhile belongs)

def hexNat (digits : List Char) (base : Nat) : Nat :=
  digits.foldl (fun n c => n * base + (hexValue? c).getD 0) 0

/-- The integers of 64 bits. -/
def int64? (n : Int) : Option Int :=
  if -0x8000000000000000 ≤ n ∧ n < 0x8000000000000000 then some n else none

/-- The base that the mark after a zero stands for. -/
def base? (mark : Char) : Option Nat :=
  if mark = 'x' then some 16 else if mark = 'o' then some 8 else if mark = 'b' then some 2 else none

def isDigitBelow (base : Nat) (c : Char) : Bool := (hexValue? c).any (· < base)

/-- An integer in another base than ten, after its mark. -/
def basedInteger? (base : Nat) (text : List Char) : Option (Value × List Char) := do
  let (digits, rest) ← digitGroups? (isDigitBelow base) text
  let n ← int64? (hexNat digits base)
  some (.integer n, rest)

/-- A sign, if there is one, as whether it is a minus sign. -/
def sign (text : List Char) : Bool × List Char :=
  match text with
  | '-' :: rest => (true, rest)
  | '+' :: rest => (false, rest)
  | _ => (false, text)

/-- The digits after a point, none without a point. -/
def fraction? (text : List Char) : Option (List Char × List Char) :=
  match text with
  | '.' :: rest => digitGroups? Char.isDigit rest
  | _ => some ([], text)

def exponent? (text : List Char) : Option (Option (Bool × List Char) × List Char) :=
  match text with
  | mark :: rest =>
    if mark = 'e' ∨ mark = 'E' then
      let (negative, rest) := sign rest
      (digitGroups? Char.isDigit rest).map fun r => (some (negative, r.1), r.2)
    else some (none, text)
  | [] => some (none, text)

/-- A decimal integer or float after its sign. -/
def decimal? (negative : Bool) (text : List Char) : Option (Value × List Char) := do
  let (whole, rest) ← digitGroups? Char.isDigit text
  if whole.head? = some '0' ∧ whole ≠ ['0'] then none
  let (fraction, rest) ← fraction? rest
  let (exponent, rest) ← exponent? rest
  let n : Numeral := { negative, whole, fraction, exponent }
  if fraction.isEmpty && exponent.isNone then
    let magnitude : Int := Numeral.natOfDigits whole
    (int64? (if negative then -magnitude else magnitude)).map (.integer ·, rest)
  else if n.overflows && !negative then none
  else some (.float, rest)

/-- A word at the start of a text. -/
def word? (word : String) (text : List Char) : Option (List Char) :=
  if word.toList.isPrefixOf text then some (text.drop word.length) else none

/-- The floats that are words. -/
def namedFloat? (text : List Char) : Option (Value × List Char) :=
  ((word? "inf" text).or (word? "nan" text)).map (.float, ·)

def number? (text : List Char) : Option (Value × List Char) :=
  match text with
  | '0' :: mark :: rest =>
    match base? mark with
    | some base => basedInteger? base rest
    | none => decimal? false text
  | _ =>
    let (negative, rest) := sign text
    (namedFloat? rest).or (decimal? negative rest)

/-! ## Dates and times -/

/-- A number of exactly as many digits as given. -/
def digits? (count : Nat) (text : List Char) : Option (Nat × List Char) :=
  let digits := text.take count
  if digits.length = count ∧ digits.all Char.isDigit then
    some (Numeral.natOfDigits digits, text.drop count)
  else none

def mark? (mark : Char) (text : List Char) : Option (List Char) :=
  match text with
  | c :: rest => if c = mark then some rest else none
  | [] => none

def daysIn (year month : Nat) : Nat :=
  if month = 2 then
    if year % 4 = 0 ∧ (year % 100 ≠ 0 ∨ year % 400 = 0) then 29 else 28
  else if [4, 6, 9, 11].contains month then 30
  else 31

/-- A date that exists. -/
def date? (text : List Char) : Option (List Char) := do
  let (year, rest) ← digits? 4 text
  let (month, rest) ← digits? 2 (← mark? '-' rest)
  let (day, rest) ← digits? 2 (← mark? '-' rest)
  if 1 ≤ month ∧ month ≤ 12 ∧ 1 ≤ day ∧ day ≤ daysIn year month then some rest else none

/-- Hours and minutes. -/
def clock? (text : List Char) : Option (List Char) := do
  let (hour, rest) ← digits? 2 text
  let (minute, rest) ← digits? 2 (← mark? ':' rest)
  if hour ≤ 23 ∧ minute ≤ 59 then some rest else none

/-- Without a point and the digits after it. -/
def dropSecondFraction (text : List Char) : List Char :=
  match text with
  | '.' :: c :: rest => if c.isDigit then rest.dropWhile Char.isDigit else text
  | _ => text

/-- A time of the day; there may be a leap second. -/
def timeOfDay? (text : List Char) : Option (List Char) := do
  let rest ← clock? text
  let (second, rest) ← digits? 2 (← mark? ':' rest)
  if second ≤ 60 then some (dropSecondFraction rest) else none

/-- Without the offset that it may start with. -/
def dropOffset (text : List Char) : List Char :=
  match text with
  | c :: rest =>
    if c = 'Z' ∨ c = 'z' then rest
    else if c = '+' ∨ c = '-' then (clock? rest).getD text
    else text
  | [] => text

/-- A date, a date with a time of the day, or such a time alone. -/
def time? (text : List Char) : Option (Value × List Char) :=
  match date? text with
  | none => (timeOfDay? text).map (.time, ·)
  | some rest =>
    match rest with
    | mark :: after =>
      if mark = 'T' ∨ mark = 't' ∨ mark = ' ' then
        match timeOfDay? after with
        | some rest => some (.time, dropOffset rest)
        | none => some (.time, rest)
      else some (.time, rest)
    | [] => some (.time, rest)

/-! ## All scalars -/

def bool? (text : List Char) : Option (Value × List Char) :=
  ((word? "true" text).map (.bool true, ·)).or ((word? "false" text).map (.bool false, ·))

/-- A value that holds no other values. -/
def scalar? (text : List Char) : Option (Value × List Char) :=
  (((string? text).map fun r => (.string r.1, r.2)).or (bool? text)).or
    ((time? text).or (number? text))

end ServiceDirectory.Toml
