import Balancer.Number.Decimal

/-!
# Numbers as text

A number is written with **the fewest digits that read back as the same number**, and
among those with the digits nearest to it.

* `Balancer.Binary64.shortest` – the decimal number so chosen. A decimal is accepted
  only if rounding it gives the number back, so that the choice reads back by
  construction; seventeen digits always suffice, and behind them stands the exact
  decimal expansion.
* `Balancer.Layout` – where the positional form ends and the exponent form begins.
* `Balancer.Binary64.text` – the text.
-/

namespace Balancer

/-! ### The choice of digits -/

namespace Binary64

/-- A magnitude divided by a power of ten, as a quotient. -/
def scaled (units : Nat) : Int → Nat × Nat
  | .ofNat e => (units, unitsPerOne * 10 ^ e)
  | .negSucc e => (units * 10 ^ (e + 1), unitsPerOne)

/-- The decimal places of a magnitude before the point. -/
def placesOf (units : Nat) : Int :=
  (Nat.toDigits 10 (units * 10 ^ 324 / unitsPerOne)).length - 324

/-- **The multiple of a power of ten that reads back**, the nearer one where both
neighbours do, and the even one at equal distance. -/
def onGrid? (units : Nat) (representable : Representable units) (exponent : Int) :
    Option Decimal :=
  let (num, den) := scaled units exponent
  let below : Decimal := ⟨num / den, exponent⟩
  let above : Decimal := ⟨num / den + 1, exponent⟩
  let readsBack (d : Decimal) : Bool := d.round false == .finite false units representable
  let near : Decimal := ⟨nearest num den, exponent⟩
  if readsBack near then some near
  else if readsBack below then some below
  else if readsBack above then some above
  else none

/-- The exact decimal expansion of a magnitude. -/
def expansion (units : Nat) : Decimal := ⟨units * 5 ^ binaryPlaces, -(binaryPlaces : Int)⟩

/-- **The decimal number with the fewest digits that reads back as a magnitude.** -/
def shortest (units : Nat) (representable : Representable units) : Decimal :=
  ((List.range 17).findSome? fun (n : Nat) =>
    onGrid? units representable (placesOf units - (n + 1))).getD (expansion units)

end Binary64

/-! ### The layout -/

/-- The decimal exponents written in positional form. -/
structure Layout where
  /-- The least exponent in positional form. -/
  lowest : Int
  /-- The greatest exponent in positional form. -/
  highest : Int

/-- **Numbers are positional from a millionth to below `10 ^ 21`**; outside, one digit
stands before the point and the exponent follows with its sign. -/
def Layout.standard : Layout := ⟨-6, 20⟩

namespace Decimal

/-- A text of digits without the zeros at its end. -/
def dropZeros (ds : List Char) : List Char :=
  (ds.reverse.dropWhile (· == '0')).reverse

/-- The digits behind the first one, with a point before them if there are any. -/
def pointed : List Char → List Char
  | [] => []
  | d :: ds => '.' :: d :: ds

/-- A signed decimal exponent. -/
def exponentText (e : Int) : List Char :=
  'e' :: (if e < 0 then '-' else '+') :: Nat.toDigits 10 e.natAbs

/-- **A decimal number laid out.** -/
def render (layout : Layout) (d : Decimal) : List Char :=
  let ds := dropZeros (Nat.toDigits 10 d.digits)
  let leading := d.places - 1
  if leading < layout.lowest ∨ layout.highest < leading then
    match ds with
    | [] => []
    | first :: rest => first :: pointed rest ++ exponentText leading
  else if leading < 0 then
    '0' :: '.' :: List.replicate (-leading - 1).toNat '0' ++ ds
  else
    let whole := leading.toNat + 1
    ds.take whole ++ List.replicate (whole - ds.length) '0' ++ pointed (ds.drop whole)

end Decimal

/-- **The text of a number**; both zeros are written alike. -/
def Binary64.text : Binary64 → String
  | .nan => "NaN"
  | .infinite negative => if negative then "-Infinity" else "Infinity"
  | .finite negative units h =>
    if units = 0 then "0"
    else
      let magnitude := Decimal.render Layout.standard (shortest units h)
      String.ofList (if negative then '-' :: magnitude else magnitude)

end Balancer
