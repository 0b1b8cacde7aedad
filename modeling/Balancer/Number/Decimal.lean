import Balancer.Number.Arithmetic

/-!
# Decimal numbers and their rounding

A decimal number is a natural number of digits and a power of ten.

* `Balancer.Decimal.round` – **the floating-point number nearest to a decimal
  number**, a half going to the even significand. Decimals far outside the range of
  the format are recognised by their number of places, so that no huge power of ten
  is ever written out.
-/

namespace Balancer

/-- A decimal number, `digits * 10 ^ exponent`. -/
structure Decimal where
  /-- The digits, read as one number. -/
  digits : Nat
  /-- The power of ten. -/
  exponent : Int
  deriving DecidableEq

namespace Decimal

/-- **The decimal places before the point**: the number lies below `10 ^ places` and,
unless it is zero, not below `10 ^ (places - 1)`. -/
def places (d : Decimal) : Int :=
  (Nat.toDigits 10 d.digits).length + d.exponent

/-- Numbers with more places than this overflow the format, and those with more zero
places behind the point than this round to zero. -/
def placeBound : Int := 400

/-- **The floating-point number nearest to a decimal number.** -/
def round (d : Decimal) (negative : Bool) : Binary64 :=
  if d.digits = 0 ∨ d.places < -placeBound then Binary64.round negative 0 1
  else if placeBound < d.places then .infinite negative
  else match d.exponent with
    | .ofNat e => Binary64.round negative (d.digits * 10 ^ e * unitsPerOne) 1
    | .negSucc e => Binary64.round negative (d.digits * unitsPerOne) (10 ^ (e + 1))

end Decimal

end Balancer
