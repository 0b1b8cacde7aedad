import Balancer.Number.Binary64

/-!
# The 64-bit words of floating-point numbers

A word holds, from the top, the sign, eleven bits of exponent and fifty-two bits of
fraction. The exponent 0 marks the numbers below the normal range, whose fraction
counts units; the exponent 2047 marks the infinities and not a number.

* `Balancer.Binary64.ofBits` – the number that a word stands for.
* `Balancer.Binary64.toBits` – the word of a number; not a number has the word with
  the top bit of its fraction set.
-/

namespace Balancer.Binary64

/-- The fraction bits of a word. -/
def fractionSize : Nat := 2 ^ 52

/-- The exponent of the infinities and of not a number. -/
def topExponent : Nat := 2047

/-- **The number that a word stands for.** -/
def ofBits (word : Nat) : Binary64 :=
  let negative := word / 2 ^ 63 % 2 == 1
  let exponent := word / fractionSize % 2048
  let fraction := word % fractionSize
  if exponent = topExponent then
    if fraction = 0 then .infinite negative else .nan
  else if exponent = 0 then round negative fraction 1
  else round negative ((fractionSize + fraction) * 2 ^ (exponent - 1)) 1

/-- **The word of a number.** -/
def toBits : Binary64 → Nat
  | .nan => topExponent * fractionSize + 2 ^ 51
  | .infinite negative => signBit negative + topExponent * fractionSize
  | .finite negative units _ =>
    if units < fractionSize then signBit negative + units
    else
      let scale := units.log2 - 52
      signBit negative + scale * fractionSize + units / 2 ^ scale
where
  /-- The sign in its place. -/
  signBit (negative : Bool) : Nat := if negative then 2 ^ 63 else 0

end Balancer.Binary64
