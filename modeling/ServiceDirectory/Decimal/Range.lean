import ServiceDirectory.Decimal.Numeral

/-!
# The range of doubles

Whether a numeral is too great for a double, decided exactly: the numeral is
rounded to the nearest double as if exponents had no upper end.
-/

namespace ServiceDirectory.Numeral

/-- The numeral without its sign as `digits * 10 ^ power`. -/
def scientific (n : Numeral) : Nat × Int :=
  let exponent : Int :=
    match n.exponent with
    | none => 0
    | some (negative, digits) =>
      if negative then -(natOfDigits digits : Int) else natOfDigits digits
  (natOfDigits (n.whole ++ n.fraction), exponent - n.fraction.length)

/-- A numeral of more than 400 places before the point is too great, one of none is not. -/
def overflows (n : Numeral) : Bool :=
  let (digits, power) := n.scientific
  let places := (Nat.toDigits 10 digits).length + power
  if digits = 0 ∨ places ≤ 0 then false
  else if 400 < places then true
  else
    Binary64.overflows
      (Binary64.nearestUnits (digits * Nat.pow 10 power.toNat) (Nat.pow 10 (-power).toNat))

end ServiceDirectory.Numeral
