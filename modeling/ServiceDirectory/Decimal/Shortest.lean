import ServiceDirectory.Decimal.Numeral

/-!
# The shortest decimal that reads back

Of all decimals that round to a double, one with the fewest digits is chosen,
and of those the nearest to the double. The choice is made on the exact decimal
expansion of the double, which is finite.
-/

namespace ServiceDirectory.Binary64

/-- A decimal number: digits without zeros at the ends, and the power of the first. -/
structure Digits where
  digits : List Char
  /-- The first digit counts `10 ^ point`. -/
  point : Int

/-- The power of ten below one unit: every double is a whole number of these. -/
def finePower : Nat := 1074

/-- A magnitude in steps of `10 ^ -1074`. -/
def fine (units : Nat) : Nat := units * Nat.pow 5 finePower

/-- Whether a number of fine steps rounds to the given magnitude. -/
def readsBack (units steps : Nat) : Bool := nearestUnits steps (Nat.pow 10 finePower) == units

/-- The number next to `value` on the grid of step `grid` that `reads` accepts, if one is. -/
def onGrid? (reads : Nat → Bool) (value grid : Nat) : Option Nat :=
  let below := value / grid
  let rest := value % grid
  let low := if reads (below * grid) then some below else none
  let high := if reads ((below + 1) * grid) then some (below + 1) else none
  match low, high with
  | some low, some high =>
    if 2 * rest < grid then some low
    else if 2 * rest > grid then some high
    else some (low + low % 2)
  | some low, none => some low
  | none, high => high

/-- Grids from one digit on, `fuel` of them; when all fail the expansion is cut. -/
def firstGrid (reads : Nat → Bool) (value length : Nat) : Nat → Nat → Nat × Nat
  | 0, count => (value / Nat.pow 10 (length - count), length - count)
  | fuel + 1, count =>
    match onGrid? reads value (Nat.pow 10 (length - count)) with
    | some n => (n, length - count)
    | none => firstGrid reads value length fuel (count + 1)

/-- The digits of `n * 10 ^ power` fine steps, without the zeros at the end. -/
def Digits.ofGrid (n power : Nat) : Digits :=
  let digits := Nat.toDigits 10 n
  { digits := (digits.reverse.dropWhile (· == '0')).reverse,
    point := (digits.length + power : Nat) - (finePower + 1 : Nat) }

/-- The shortest digits of a positive magnitude. Seventeen digits always suffice. -/
def shortest (units : Nat) : Digits :=
  let length := (Nat.toDigits 10 (fine units)).length
  let place := firstGrid (readsBack units) (fine units) length 17 1
  Digits.ofGrid place.1 place.2

end ServiceDirectory.Binary64
