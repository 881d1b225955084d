import ServiceDirectory.Decimal.Binary64

/-!
# Decimal numerals

A numeral as it is spelled: a sign, digits, digits after a point, an exponent.
As a natural number it is read exactly, and only without point and exponent. As
a double it is read through the digits that fit into 64 bits, scaled once by a
rounded power of ten; this can miss the nearest double by a rounding.
-/

namespace ServiceDirectory

structure Numeral where
  negative : Bool := false
  /-- The digits before the point. -/
  whole : List Char
  /-- The digits after the point, none without a point. -/
  fraction : List Char := []
  /-- The exponent's sign and digits. -/
  exponent : Option (Bool × List Char) := none
  deriving DecidableEq

namespace Numeral

def digitValue (c : Char) : Nat := c.toNat - '0'.toNat

def natOfDigits (digits : List Char) : Nat := digits.foldl (fun n c => n * 10 + digitValue c) 0

/-- The spelling; an exponent always shows its sign. -/
def spell (n : Numeral) : List Char :=
  (if n.negative then ['-'] else []) ++ n.whole ++
    (if n.fraction.isEmpty then [] else '.' :: n.fraction) ++
    (match n.exponent with
      | none => []
      | some (negative, digits) => 'e' :: (if negative then '-' else '+') :: digits)

/-- What a numeral can be spelled from: digits, no needless leading zero, no empty exponent. -/
def WellFormed (n : Numeral) : Prop :=
  n.whole ≠ [] ∧ (∀ c ∈ n.whole, c.isDigit) ∧ (n.whole.head? = some '0' → n.whole = ['0']) ∧
    (∀ c ∈ n.fraction, c.isDigit) ∧
    (∀ e ∈ n.exponent, e.2 ≠ [] ∧ ∀ c ∈ e.2, c.isDigit)

def ofNat (n : Nat) : Numeral := { whole := Nat.toDigits 10 n }

/-- The natural number, if the numeral is written as one. -/
def natural? (n : Numeral) : Option Nat :=
  if n.negative || !n.fraction.isEmpty || n.exponent.isSome then none
  else some (natOfDigits n.whole)

/-- The significand of a numeral: at most 64 bits of leading digits, times a power of ten. -/
structure Significand where
  value : Nat := 0
  power : Int := 0

namespace Significand

def fits (n : Nat) : Bool := n < UInt64.size

/-- Whole digits are kept up to the first that does not fit; from there on each only counts. -/
def readWhole (s : Significand) : List Char → Significand
  | [] => s
  | c :: rest =>
    let next := s.value * 10 + digitValue c
    if fits next then readWhole { s with value := next } rest
    else { s with power := s.power + (rest.length + 1) }

/-- Digits after the point are kept up to the first that does not fit. -/
def readFraction (s : Significand) : List Char → Significand
  | [] => s
  | c :: rest =>
    let next := s.value * 10 + digitValue c
    if fits next then readFraction ⟨next, s.power - 1⟩ rest else s

end Significand

def significand (n : Numeral) : Significand :=
  let s := (({} : Significand).readWhole n.whole).readFraction n.fraction
  match n.exponent with
  | none => s
  | some (negative, digits) =>
    let e : Int := natOfDigits digits
    { s with power := if negative then s.power - e else s.power + e }

/-- The units of the double nearest to a power of ten. -/
def powerUnits (k : Nat) : Nat := Binary64.nearestUnits (Nat.pow 10 k) 1

/-- A double times a rounded power of ten. -/
def scaleUp (units k : Nat) : Nat :=
  Binary64.nearestUnits (units * powerUnits k) (Binary64.unitsPerOne * Binary64.unitsPerOne)

/-- A double divided by a rounded power of ten. -/
def scaleDown (units k : Nat) : Nat := Binary64.nearestUnits units (powerUnits k)

/--
The magnitude in units. Powers of ten go up to 308: a greater power is out of
range unless the significand is zero, and a lesser one is reached in two
divisions, of which two by 10^308 leave nothing of 64 bits.
-/
def magnitude? (s : Significand) : Option Nat :=
  let units := Binary64.nearestUnits s.value 1
  if 308 < s.power then if s.value = 0 then some 0 else none
  else if 0 ≤ s.power then
    let product := scaleUp units s.power.toNat
    if Binary64.overflows product then none else some product
  else
    let down := (-s.power).toNat
    if down ≤ 308 then some (scaleDown units down)
    else if down ≤ 616 then some (scaleDown (scaleDown units 308) (down - 308))
    else some 0

/-- The double that the numeral stands for, unless it is out of range. -/
def double? (n : Numeral) : Option Binary64 :=
  (magnitude? n.significand).map (Binary64.ofUnits n.negative)

end Numeral

end ServiceDirectory
