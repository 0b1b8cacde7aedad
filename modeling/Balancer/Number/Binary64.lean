/-!
# Binary floating-point numbers, exactly

Weights, ports, clock readings and timings are numbers of the 64-bit binary
floating-point format. A finite one is held as a sign and a whole number of
*units*, one unit being `2 ^ (-1074)`, the smallest positive number of the
format; so arithmetic on them is arithmetic on natural numbers, and rounding is
the only place where anything is lost.

* `Balancer.Representable` – **which magnitudes the format has**: at most 53
  significant bits, below the overflow bound.
* `Balancer.Binary64` – not a number, an infinity, or a signed representable
  magnitude. Every number of the format has exactly one such form.
* `Balancer.roundUnits` – a quotient of units, rounded to the nearest magnitude of
  53 significant bits, a half going to the even one
  (`Balancer.representable_roundUnits`).
* `Balancer.Binary64.round` – the same with sign and overflow.
-/

namespace Balancer

-- Powers of natural numbers are `Nat.pow`. The priority is above `high`, at which a monoid brings
-- its own, so that the order of imports does not matter.
@[default_instance 20000]
instance (priority := 20000) natPow : Pow Nat Nat := instPowNat

/-! ### Representable magnitudes -/

/-- The binary places after the point that the smallest positive number needs. -/
def binaryPlaces : Nat := 1074

/-- The units in one: a unit is `2 ^ (-1074)`. -/
def unitsPerOne : Nat := 2 ^ binaryPlaces

/-- The binary exponent of the largest scale at which a significand can stand, in units. -/
def largestScale : Nat := 2045

/-- The units at which the format overflows: 53 bits at the largest scale, `2 ^ 1024`
as a number. -/
def overflowBound : Nat := 2 ^ 53 * 2 ^ largestScale

/-- **A magnitude of the format**: all bits below the 53rd significant one are
zero, and it lies below the overflow bound. -/
def Representable (units : Nat) : Prop :=
  2 ^ (units.log2 - 52) ∣ units ∧ units < overflowBound

instance (units : Nat) : Decidable (Representable units) :=
  inferInstanceAs (Decidable (_ ∧ _))

/-- A significand of at most 53 bits, scaled by a power of two, is a magnitude of
the format as long as it does not overflow. -/
theorem representable_mul_two_pow {significand scale : Nat} (h : significand ≤ 2 ^ 53)
    (hb : significand * 2 ^ scale < overflowBound) :
    Representable (significand * 2 ^ scale) := by
  refine ⟨?_, hb⟩
  by_cases h0 : significand = 0
  · simp [h0]
  have hne : significand * 2 ^ scale ≠ 0 := Nat.mul_ne_zero h0 (Nat.pos_iff_ne_zero.mp (Nat.two_pow_pos scale))
  rcases Nat.lt_or_eq_of_le h with hlt | rfl
  · have hlog : (significand * 2 ^ scale).log2 < 53 + scale := by
      rw [Nat.log2_lt hne, Nat.pow_add]
      exact Nat.mul_lt_mul_of_pos_right hlt (Nat.two_pow_pos scale)
    exact Nat.dvd_trans (Nat.pow_dvd_pow 2 (by omega)) (Nat.dvd_mul_left _ _)
  · rw [← Nat.pow_add, Nat.log2_two_pow]
    exact Nat.pow_dvd_pow 2 (by omega)

theorem two_pow_le_overflowBound : 2 ^ 53 ≤ overflowBound := by
  rw [overflowBound]
  exact Nat.le_mul_of_pos_right _ (Nat.two_pow_pos largestScale)

/-- Magnitudes below `2 ^ 53` units are all in the format. -/
theorem representable_of_lt {units : Nat} (h : units < 2 ^ 53) : Representable units := by
  have hb : units * 2 ^ 0 < overflowBound := by
    rw [Nat.pow_zero, Nat.mul_one]
    exact Nat.lt_of_lt_of_le h two_pow_le_overflowBound
  have hr := representable_mul_two_pow (Nat.le_of_lt h) hb
  rwa [Nat.pow_zero, Nat.mul_one] at hr

/-! ### The numbers -/

/-- **A number of the 64-bit binary format.** -/
inductive Binary64 where
  /-- Not a number. -/
  | nan : Binary64
  /-- One of the two infinities. -/
  | infinite (negative : Bool) : Binary64
  /-- A sign and a magnitude in units; zero has both signs. -/
  | finite (negative : Bool) (units : Nat) (representable : Representable units) : Binary64
  deriving DecidableEq

/-! ### Rounding -/

/-- **The whole number nearest to a quotient**, a half going to the even one. -/
def nearest (num den : Nat) : Nat :=
  let quotient := num / den
  let twice := 2 * (num % den)
  if twice < den then quotient
  else if den < twice then quotient + 1
  else if quotient % 2 = 0 then quotient
  else quotient + 1

theorem nearest_le (num den : Nat) : nearest num den ≤ num / den + 1 := by
  unfold nearest
  dsimp only
  repeat' split
  all_goals omega

theorem le_nearest (num den : Nat) : num / den ≤ nearest num den := by
  unfold nearest
  dsimp only
  repeat' split
  all_goals omega

/-- **A quotient of units, rounded to 53 significant bits**, a half going to the
magnitude whose significand is even. -/
def roundUnits (num den : Nat) : Nat :=
  let scale := (num / den).log2 - 52
  nearest num (den * 2 ^ scale) * 2 ^ scale

/-- At the scale of a quotient its rounding has 53 bits. -/
theorem nearest_scale_le (num den : Nat) :
    nearest num (den * 2 ^ ((num / den).log2 - 52)) ≤ 2 ^ 53 := by
  refine Nat.le_trans (nearest_le _ _) ?_
  rw [← Nat.div_div_eq_div_mul]
  have hq : num / den < 2 ^ (53 + ((num / den).log2 - 52)) :=
    Nat.lt_of_lt_of_le Nat.lt_log2_self (Nat.pow_le_pow_right (by decide) (by omega))
  rw [Nat.pow_add] at hq
  exact Nat.div_lt_of_lt_mul (by rwa [Nat.mul_comm] at hq)

/-- What rounding yields is in the format, unless it overflows. -/
theorem representable_roundUnits {num den : Nat} (h : roundUnits num den < overflowBound) :
    Representable (roundUnits num den) :=
  representable_mul_two_pow (nearest_scale_le num den) h

namespace Binary64

/-- The number nearest to a signed quotient of units; beyond the largest finite
number it is infinite. -/
def round (negative : Bool) (num den : Nat) : Binary64 :=
  if h : roundUnits num den < overflowBound then
    .finite negative (roundUnits num den) (representable_roundUnits h)
  else
    .infinite negative

/-- Zero, positive. -/
def zero : Binary64 := .finite false 0 (representable_of_lt (by decide))

/-- The number nearest to a natural number. -/
def ofNat (n : Nat) : Binary64 := round false (n * unitsPerOne) 1

/-- The number nearest to an integer. -/
def ofInt (z : Int) : Binary64 := round (z < 0) (z.natAbs * unitsPerOne) 1

end Binary64

end Balancer
