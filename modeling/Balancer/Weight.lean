import Balancer.Number.Arithmetic
import Balancer.Table

/-!
# Weights and the election sequence

A weight says how often a target is elected in one pass, relative to the others.
Weights are made whole, reduced by their greatest common divisor and expanded into
the sequence that a pass walks through.

* `Balancer.Weight.normalize` – **the whole weight, at least 1**, that a number counts as.
* `Balancer.Weight.divisors` – the divisors of a number, the greatest first.
* `Balancer.Weight.reduction` – the greatest divisor of the least weight that divides
  all weights.
* `Balancer.Weight.expand` – **the election sequence**: one block per target, in the
  order of the table, as long as the reduced weight.
-/

namespace Balancer.Weight

/-! ### Whole weights -/

/-- **The whole weight that a number counts as**: its integer part, or 1 where that is
less than 1 or the number is not finite. -/
def normalize : Binary64 → Nat
  | .finite false units _ => max 1 (units / unitsPerOne)
  | _ => 1

/-- A weight is at least 1. -/
theorem one_le_normalize (weight : Binary64) : 1 ≤ normalize weight := by
  unfold normalize
  split
  · exact Nat.le_max_left 1 _
  · exact Nat.le_refl 1

/-! ### Divisors -/

/-- The divisors of a number up to a bound, the greatest first. -/
def divisorsUpTo (n : Nat) : Nat → List Nat
  | 0 => []
  | bound + 1 =>
    if n % (bound + 1) = 0 then (bound + 1) :: divisorsUpTo n bound else divisorsUpTo n bound

/-- **The divisors of a number above 1**, the greatest first: the number, then those up
to its half. -/
def properDivisors (n : Nat) : List Nat :=
  if n ≤ 1 then [] else n :: divisorsUpTo n (n / 2)

/-- The number one. -/
def one : Binary64 := .ofNat 1

/-- **The divisors of a floating-point number**: none up to 1, those of a whole number
above 1, and of anything else the number alone. -/
def divisors (value : Binary64) : List Binary64 :=
  if value.le one then []
  else match value.toInt? with
    | some n => (properDivisors n.toNat).map Binary64.ofNat
    | none => [value]

/-! ### Reduction and expansion -/

/-- **The greatest divisor of the least weight that divides all weights**, and 1 where
there is no weight. -/
def reduction (weights : List Nat) : Nat :=
  let least := weights.min?.getD 1
  ((properDivisors least).find? fun d => weights.all fun w => w % d == 0).getD 1

/-- **The election sequence of a table of weights.** A single target stands once; several
stand in blocks of their weights divided by the reduction. Without a target there is no
sequence. -/
def expand (table : Table Nat) : Option (Array String) :=
  match table.entries with
  | [] => none
  | [(target, _)] => some #[target]
  | entries =>
    let factor := reduction (entries.map Prod.snd)
    some (entries.flatMap fun (target, weight) =>
      List.replicate (weight / factor) target).toArray

end Balancer.Weight
