import Balancer.Number.Binary64

/-!
# Arithmetic and order of floating-point numbers

Every operation is exact on units and then rounded once.

* `Balancer.Binary64.add` – the sum; the sum of two numbers of opposite sign and
  equal magnitude is the positive zero.
* `Balancer.Binary64.lt`, `le`, `same` – **the order and the equality of the format**:
  not a number is neither below, above nor the same as anything, itself included,
  and the two zeros are the same.
* `Balancer.Binary64.floor` – the greatest integer that is not greater.
* `Balancer.Binary64.toInt?` – the integer that a number is, if it is one.
-/

namespace Balancer.Binary64

/-! ### Values -/

/-- A signed magnitude as an integer. -/
def signed (negative : Bool) (magnitude : Nat) : Int :=
  if negative then -(magnitude : Int) else magnitude

/-- **The value in units**, the infinities counting as the overflow bound; not a
number has none. -/
def units? : Binary64 → Option Int
  | .nan => none
  | .infinite negative => some (signed negative overflowBound)
  | .finite negative units _ => some (signed negative units)

/-- Whether a number is neither infinite nor not a number. -/
def isFinite : Binary64 → Bool
  | .finite .. => true
  | _ => false

/-! ### Order -/

/-- Strictly below, in the order of the format. -/
def lt (x y : Binary64) : Bool :=
  match x.units?, y.units? with
  | some a, some b => a < b
  | _, _ => false

/-- Below or the same, in the order of the format. -/
def le (x y : Binary64) : Bool :=
  match x.units?, y.units? with
  | some a, some b => a ≤ b
  | _, _ => false

/-- **The equality of the format**: the zeros agree, and not a number differs from
itself. -/
def same (x y : Binary64) : Bool :=
  match x.units?, y.units? with
  | some a, some b => a == b
  | _, _ => false

/-- Not a number is not the same as itself. -/
@[simp] theorem same_nan_left (x : Binary64) : same .nan x = false := rfl

/-- Every other number is the same as itself. -/
theorem same_self {x : Binary64} (h : x ≠ .nan) : x.same x = true := by
  cases x <;> simp_all [same, units?]

/-! ### Sums -/

/-- **The sum, rounded once.** -/
def add : Binary64 → Binary64 → Binary64
  | .nan, _ | _, .nan => .nan
  | .infinite a, .infinite b => if a = b then .infinite a else .nan
  | .infinite a, .finite .. | .finite .., .infinite a => .infinite a
  | .finite a m _, .finite b n _ =>
    let sum := signed a m + signed b n
    if sum = 0 then round (a && b) 0 1 else round (sum < 0) sum.natAbs 1

instance : Add Binary64 := ⟨add⟩

/-! ### Whole numbers -/

/-- Whether a number is an integer. -/
def isInteger : Binary64 → Bool
  | .finite _ units _ => units % unitsPerOne == 0
  | _ => false

/-- The integer that a number is, if it is one. -/
def toInt? : Binary64 → Option Int
  | .finite negative units _ =>
    if units % unitsPerOne = 0 then some (signed negative (units / unitsPerOne)) else none
  | _ => none

/-- **The greatest integer that is not greater**; integers, the zeros among them, and
what is not finite stay as they are. -/
def floor : Binary64 → Binary64
  | .finite negative units h =>
    if units % unitsPerOne = 0 then .finite negative units h
    else ofInt (signed negative units / (unitsPerOne : Int))
  | x => x

end Balancer.Binary64
