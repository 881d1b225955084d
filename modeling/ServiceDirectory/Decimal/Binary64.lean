/-!
# Doubles by bit pattern

A double is its 64 bits. Its exact value is a natural number of units, one unit
being the least positive double 2^-1074, and rounding is done on quotients of
natural numbers, so nothing here rests on machine floats.
-/

namespace ServiceDirectory

/-- A double precision number, told apart by its bits. -/
structure Binary64 where
  bits : UInt64
  deriving DecidableEq, Inhabited

namespace Binary64

def signBit : Nat := 0x8000000000000000

/-- The bits of positive infinity; greater magnitudes are no numbers. -/
def infinityBits : Nat := 0x7FF0000000000000

/-- The leading bit of a significand of 53 bits, which is not written. -/
def leadingBit : Nat := 0x10000000000000

/-- Units in one. -/
def unitsPerOne : Nat := Nat.pow 2 1074

def isNegative (x : Binary64) : Bool := x.bits.toNat ≥ signBit

/-- The bits without the sign. -/
def magnitudeBits (x : Binary64) : Nat := x.bits.toNat % signBit

def isFinite (x : Binary64) : Bool := x.magnitudeBits < infinityBits

/-- The magnitude in units, for a finite double. -/
def units (x : Binary64) : Nat :=
  let exponent := x.magnitudeBits / leadingBit
  let fraction := x.magnitudeBits % leadingBit
  if exponent = 0 then fraction else (leadingBit + fraction) * Nat.pow 2 (exponent - 1)

/-- The bits of a magnitude given in units; all units up from 2^2098 are infinity. -/
def bitsOfUnits (units : Nat) : Nat :=
  if units < 2 * leadingBit then units
  else
    let shift := units.log2 - 52
    min infinityBits (shift * leadingBit + units / Nat.pow 2 shift)

def ofUnits (negative : Bool) (units : Nat) : Binary64 :=
  ⟨UInt64.ofNat ((if negative then signBit else 0) + bitsOfUnits units)⟩

/-- A quotient rounded to the nearest natural number, a half to the even one. -/
def roundHalfEven (num den : Nat) : Nat :=
  let quotient := num / den
  let rest := num % den
  if 2 * rest < den then quotient
  else if 2 * rest > den then quotient + 1
  else quotient + quotient % 2

/-- The units of the double nearest to `num / den`, as if exponents had no upper end. -/
def nearestUnits (num den : Nat) : Nat :=
  let scaled := num * unitsPerOne
  let shift := (scaled / den).log2 - 52
  roundHalfEven scaled (den * Nat.pow 2 shift) * Nat.pow 2 shift

/-- Whether a magnitude in units lies beyond the greatest finite double. -/
def overflows (units : Nat) : Bool := infinityBits ≤ bitsOfUnits units

def one : Binary64 := ⟨0x3FF0000000000000⟩

def zero : Binary64 := ⟨0⟩

def infinity (negative : Bool) : Binary64 := ofUnits negative (Nat.pow 2 2098)

/-- The positive quiet number-less double. -/
def notANumber : Binary64 := ⟨0x7FF8000000000000⟩

/--
The place of a double in the total order of all bit patterns: negative ones
first and by falling magnitude, then the others by rising magnitude.
-/
def rank (x : Binary64) : Nat :=
  if x.bits.toNat < signBit then signBit + x.bits.toNat else 0xFFFFFFFFFFFFFFFF - x.bits.toNat

instance : Ord Binary64 where
  compare a b := compare a.rank b.rank

theorem rank_inj {a b : Binary64} (h : a.rank = b.rank) : a = b := by
  have ha := a.bits.toNat_lt
  have hb := b.bits.toNat_lt
  have hbits : a.bits.toNat = b.bits.toNat := by
    unfold rank signBit at h
    split at h <;> split at h <;> omega
  cases a
  cases b
  exact congrArg Binary64.mk (UInt64.toNat_inj.mp hbits)

instance : Std.TransOrd Binary64 :=
  inferInstanceAs (Std.TransCmp (compareOn Binary64.rank))

instance : Std.LawfulEqOrd Binary64 where
  compare_self := Std.ReflOrd.compare_self (α := Nat)
  eq_of_compare h := rank_inj (Std.LawfulEqOrd.eq_of_compare h)

end Binary64

end ServiceDirectory
