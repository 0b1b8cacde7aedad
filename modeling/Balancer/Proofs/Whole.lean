import Balancer.Proofs.Endpoint
import Balancer.Proofs.Proportion
import Balancer.Timing

/-!
# Whole numbers among the floating-point numbers

Below `2 ^ 53` every integer is a floating-point number, and adding such numbers is adding
integers. Beyond that a sum is rounded; but it never comes back below, so a clock that shows
whole numbers below `2 ^ 53` shows the exact sum.

* `Balancer.Binary64.whole?` – **the integer that a number is**, if it is one below `2 ^ 53`.
* `Balancer.Binary64.add_of_toInt?` – **a sum is rounded once.**
* `Balancer.Binary64.eq_of_whole?_ofInt` – an integer that was rounded to one below `2 ^ 53` was
  not rounded at all.
* `Balancer.Binary64.lt_of_whole?` – a clock that is past an integer is past the number nearest
  to it.
-/

namespace Balancer

namespace Binary64

/-- **The integer that a number is**, if it is one of a magnitude below `2 ^ 53`. -/
def whole? (x : Binary64) : Option Int := x.toInt?.filter fun z => z.natAbs < 2 ^ 53

theorem whole?_eq_some {x : Binary64} {z : Int} :
    x.whole? = some z ↔ x.toInt? = some z ∧ z.natAbs < 2 ^ 53 := by
  rw [whole?, Option.filter_eq_some_iff, decide_eq_true_eq]

/-! ### Units -/

theorem unitsPerOne_pos : 0 < unitsPerOne := Nat.two_pow_pos binaryPlaces

theorem signed_eq_mul (negative : Bool) (n k : Nat) :
    signed negative (n * k) = signed negative n * (k : Int) := by
  cases negative <;> simp [signed]

theorem signed_natAbs (z : Int) : signed (decide (z < 0)) z.natAbs = z := by
  by_cases h : z < 0
  · simp only [signed, h, decide_true, if_true]
    omega
  · simp only [signed, h, decide_false, Bool.false_eq_true, if_false]
    omega

/-- **An integer is a number of whole units.** -/
theorem exists_of_toInt? {x : Binary64} {z : Int} (h : x.toInt? = some z) :
    ∃ negative n hn, x = .finite negative (n * unitsPerOne) hn ∧ z = signed negative n := by
  cases x with
  | nan => exact absurd h (by simp [toInt?])
  | infinite negative => exact absurd h (by simp [toInt?])
  | finite negative units hn =>
    rw [toInt?] at h
    split at h
    · next hmod =>
      have heq : units / unitsPerOne * unitsPerOne = units :=
        Nat.div_mul_cancel (Nat.dvd_of_mod_eq_zero hmod)
      exact ⟨negative, units / unitsPerOne, by rwa [heq], by simp only [heq], (Option.some.inj h).symm⟩
    · exact absurd h (by simp)

theorem units?_of_toInt? {x : Binary64} {z : Int} (h : x.toInt? = some z) :
    x.units? = some (z * unitsPerOne) := by
  obtain ⟨negative, n, hn, rfl, rfl⟩ := exists_of_toInt? h
  rw [units?, signed_eq_mul]

theorem toInt?_finite (negative : Bool) (n : Nat) (hn : Representable (n * unitsPerOne)) :
    (finite negative (n * unitsPerOne) hn).toInt? = some (signed negative n) := by
  rw [toInt?, if_pos (Nat.mul_mod_left n unitsPerOne), Nat.mul_div_cancel n unitsPerOne_pos]

/-! ### Rounded integers -/

/-- Up to `2 ^ 53` an integer is not rounded. -/
theorem toInt?_ofInt {z : Int} (h : z.natAbs ≤ 2 ^ 53) : (ofInt z).toInt? = some z := by
  have hr : Representable (z.natAbs * unitsPerOne) := Weight.representable_whole h
  have hround : roundUnits (z.natAbs * unitsPerOne) 1 = z.natAbs * unitsPerOne := by
    simpa only [Nat.mul_one] using Weight.roundUnits_mul Nat.one_pos hr
  have heq : ofInt z = .finite (decide (z < 0)) (z.natAbs * unitsPerOne) hr := by
    simp only [ofInt, round, hround, hr.2, dite_true]
  rw [heq, toInt?_finite, signed_natAbs]

/-- **A power of two is a bound that rounding respects.** -/
theorem two_pow_le_roundUnits {units k : Nat} (h : 2 ^ k ≤ units) : 2 ^ k ≤ roundUnits units 1 := by
  have hk : k ≤ units.log2 := (Nat.le_log2 (by have := Nat.two_pow_pos k; omega)).mpr h
  have hne : units ≠ 0 := by have := Nat.two_pow_pos k; omega
  have hsplit : 2 ^ units.log2 = 2 ^ (units.log2 - (units.log2 - 52)) * 2 ^ (units.log2 - 52) := by
    rw [← Nat.pow_add]
    congr 1
    omega
  -- the scale divides the leading power, which therefore stays
  have hquotient : 2 ^ (units.log2 - (units.log2 - 52)) ≤ units / 2 ^ (units.log2 - 52) := by
    rw [Nat.le_div_iff_mul_le (Nat.two_pow_pos _), ← hsplit]
    exact Nat.log2_self_le hne
  calc 2 ^ k ≤ 2 ^ units.log2 := Nat.pow_le_pow_right (by omega) hk
    _ = 2 ^ (units.log2 - (units.log2 - 52)) * 2 ^ (units.log2 - 52) := hsplit
    _ ≤ nearest units (2 ^ (units.log2 - 52)) * 2 ^ (units.log2 - 52) :=
      Nat.mul_le_mul_right _ (Nat.le_trans hquotient (le_nearest _ _))
    _ = roundUnits units 1 := by rw [roundUnits, Nat.div_one, Nat.one_mul]

/-- **An integer that is rounded to one below `2 ^ 53` is that one**: rounding does not lead below
the bound from above. -/
theorem eq_of_whole?_ofInt {z a : Int} (h : (ofInt z).whole? = some a) : a = z := by
  obtain ⟨hint, hbound⟩ := whole?_eq_some.mp h
  rcases Nat.lt_or_ge (2 ^ 53) z.natAbs with hlt | hle
  · exfalso
    have hunits : 2 ^ (53 + binaryPlaces) ≤ roundUnits (z.natAbs * unitsPerOne) 1 := by
      refine two_pow_le_roundUnits ?_
      rw [Nat.pow_add]
      exact Nat.mul_le_mul_right _ (Nat.le_of_lt hlt)
    obtain ⟨negative, n, hn, heq, rfl⟩ := exists_of_toInt? hint
    rw [natAbs_signed] at hbound
    rw [ofInt, round] at heq
    split at heq
    · have hmagnitude : roundUnits (z.natAbs * unitsPerOne) 1 = n * unitsPerOne := by
        injection heq
      rw [hmagnitude, Nat.pow_add] at hunits
      exact absurd (Nat.le_of_mul_le_mul_right hunits unitsPerOne_pos) (by omega)
    · exact absurd heq (by simp)
  · rw [toInt?_ofInt hle] at hint
    exact (Option.some.inj hint).symm

/-! ### Sums -/

/-- **The sum of two integers, rounded once.** -/
theorem add_of_toInt? {x y : Binary64} {a b : Int} (hx : x.toInt? = some a) (hy : y.toInt? = some b)
    (hpos : 0 < b) : x + y = ofInt (a + b) := by
  obtain ⟨sx, m, hm, rfl, rfl⟩ := exists_of_toInt? hx
  obtain ⟨sy, n, hn, rfl, rfl⟩ := exists_of_toInt? hy
  have hsign : sy = false := by
    cases sy with
    | false => rfl
    | true =>
      simp only [signed, if_true] at hpos
      omega
  have hunits : (0 : Int) < unitsPerOne := by
    have := unitsPerOne_pos
    omega
  have hsum : signed sx (m * unitsPerOne) + signed sy (n * unitsPerOne) =
      (signed sx m + signed sy n) * (unitsPerOne : Int) := by
    rw [signed_eq_mul, signed_eq_mul, Int.add_mul]
  show add _ _ = _
  rw [add, hsum]
  split
  · next hzero =>
    have hnone : signed sx m + signed sy n = 0 := by
      rcases Int.mul_eq_zero.mp hzero with h | h
      · exact h
      · omega
    rw [hnone, hsign, Bool.and_false, ofInt, Int.natAbs_zero, Nat.zero_mul]
    simp only [Int.lt_irrefl, decide_false]
  · have hnegative : ((signed sx m + signed sy n) * (unitsPerOne : Int) < 0) ↔
        signed sx m + signed sy n < 0 := by
      constructor
      · intro h
        by_contra hcon
        exact absurd h (Int.not_lt.mpr (Int.mul_nonneg (Int.not_lt.mp hcon) (Int.le_of_lt hunits)))
      · exact fun h => Int.mul_neg_of_neg_of_pos h hunits
    rw [ofInt, Int.natAbs_mul, Int.natAbs_natCast]
    simp only [hnegative]

/-! ### Order -/

section

variable {x y z : Binary64}

theorem lt_irrefl (x : Binary64) : x.lt x = false := by
  rw [lt]
  split <;> simp_all

theorem lt_asymm (h : x.lt y = true) : y.lt x = false := by
  simp only [lt] at h ⊢
  cases hx : x.units? <;> cases hy : y.units? <;> simp_all
  omega

/-- Where the number in the middle is one, what is not before is transitive. -/
theorem lt_false_trans (hnumber : y.units?.isSome = true) (hxy : x.lt y = false)
    (hyz : y.lt z = false) : x.lt z = false := by
  simp only [lt] at hxy hyz ⊢
  cases hx : x.units? <;> cases hy : y.units? <;> cases hz : z.units? <;> simp_all
  omega

theorem isSome_of_le (h : x.le y = true) : x.units?.isSome = true := by
  simp only [le] at h
  cases hx : x.units? <;> simp_all

/-- What is past a number is not before what is not past it. -/
theorem lt_false_of_le (hxz : x.le z = true) (hyz : y.le z = false) : y.lt x = false := by
  simp only [le, lt] at hxz hyz ⊢
  cases hx : x.units? <;> cases hy : y.units? <;> cases hz : z.units? <;> simp_all
  omega

end

theorem lt_eq_of_toInt? {x y : Binary64} {a b : Int} (hx : x.toInt? = some a)
    (hy : y.toInt? = some b) : x.lt y = decide (a < b) := by
  have hunits : (0 : Int) < unitsPerOne := by
    have := unitsPerOne_pos
    omega
  rw [lt, units?_of_toInt? hx, units?_of_toInt? hy]
  exact decide_eq_decide.mpr (Int.mul_lt_mul_right hunits)

theorem le_eq_of_toInt? {x y : Binary64} {a b : Int} (hx : x.toInt? = some a)
    (hy : y.toInt? = some b) : x.le y = decide (a ≤ b) := by
  have hunits : (0 : Int) < unitsPerOne := by
    have := unitsPerOne_pos
    omega
  rw [le, units?_of_toInt? hx, units?_of_toInt? hy]
  exact decide_eq_decide.mpr (Int.mul_le_mul_right hunits)

/-- **What is past an integer is past the number nearest to it.** -/
theorem lt_of_whole? {z t c : Int} {x : Binary64} (hx : x.whole? = some c) (ht : t.natAbs < 2 ^ 53)
    (hlow : t ≤ z) (h : z < c) : (ofInt z).lt x = true := by
  obtain ⟨hint, hbound⟩ := whole?_eq_some.mp hx
  rw [lt_eq_of_toInt? (toInt?_ofInt (by omega)) hint, decide_eq_true h]

/-- What has come to an integer has come to the number nearest to it. -/
theorem le_of_whole? {z t c : Int} {x : Binary64} (hx : x.whole? = some c) (ht : t.natAbs < 2 ^ 53)
    (hlow : t ≤ z) (h : z ≤ c) : (ofInt z).le x = true := by
  obtain ⟨hint, hbound⟩ := whole?_eq_some.mp hx
  rw [le_eq_of_toInt? (toInt?_ofInt (by omega)) hint, decide_eq_true h]

end Binary64

/-! ### Timings -/

/-- Good timings that are integers are positive. -/
theorem Timings.pos_of_check {timings : Timings} (h : timings.check = .ok ()) {d p : Int}
    (hd : timings.delay.toInt? = some d) (hp : timings.period.toInt? = some p) : 0 < d ∧ 0 < p := by
  have hpos : ∀ {field value} {z : Int}, checkTiming field value = .ok () →
      value.toInt? = some z → 0 < z := by
    intro field value z hcheck hz
    have hzero : Binary64.zero.toInt? = some 0 := by decide +kernel
    rw [checkTiming] at hcheck
    split at hcheck
    · next hgood =>
      rw [Bool.and_eq_true, Binary64.lt_eq_of_toInt? hzero hz, decide_eq_true_eq] at hgood
      exact hgood.2
    · cases hcheck
  have hboth : (do checkTiming .delay timings.delay; checkTiming .period timings.period :
    Except Failure Unit) = .ok () := h
  rcases hdelay : checkTiming .delay timings.delay with failure | u
  · rw [hdelay] at hboth
    cases hboth
  · rw [hdelay] at hboth
    exact ⟨hpos hdelay hd, hpos hboth hp⟩

end Balancer
