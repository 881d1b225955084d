import ServiceDirectory.Decimal.Shortest

/-!
# How doubles are written

Between 10^-5 and 10^16 a double is written positionally, with at least one
digit after the point; outside, with one leading digit and a signed exponent.
The digits are the shortest that read back.
-/

namespace ServiceDirectory.Binary64

/-- The least and greatest power of the first digit that is written positionally. -/
def positionalRange : Int × Int := (-5, 15)

/-- Digits written in positional or exponent notation. -/
def written (negative : Bool) (d : Digits) : Numeral :=
  if d.point < positionalRange.1 || positionalRange.2 < d.point then
    { negative, whole := d.digits.take 1, fraction := d.digits.drop 1,
      exponent := some (d.point < 0, Nat.toDigits 10 d.point.natAbs) }
  else if d.point < 0 then
    { negative, whole := ['0'], fraction := List.replicate (d.point.natAbs - 1) '0' ++ d.digits }
  else
    let places := d.point.toNat + 1
    let fraction := d.digits.drop places
    { negative, whole := d.digits.take places ++ List.replicate (places - d.digits.length) '0',
      fraction := if fraction.isEmpty then ['0'] else fraction }

/-- The numeral of a finite double; the others have none. -/
def numeral? (x : Binary64) : Option Numeral :=
  if !x.isFinite then none
  else if x.units = 0 then some { negative := x.isNegative, whole := ['0'], fraction := ['0'] }
  else some (written x.isNegative (shortest x.units))

end ServiceDirectory.Binary64
