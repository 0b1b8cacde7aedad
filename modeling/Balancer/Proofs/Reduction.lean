import Balancer.Proofs.Decimal
import Mathlib.Data.List.Find

/-!
# The reduction in floating-point numbers

The reduction is a search: the divisors of the least whole weight are tried, the greatest first,
until one leaves no remainder in any weight. In floating-point numbers no step of it loses
anything, since whole weights, their remainders and the divisors are numbers of the format. So the
search finds the greatest common divisor, of weights beyond `2 ^ 53` as well as of others.

* `Balancer.representable_mod` – **a remainder is never rounded.**
* `Balancer.Binary64.rem` – the remainder of a division.
* `Balancer.Weight.representable_normalize` – **whole weights are numbers of the format**, and so
  making a weight whole twice does no more than once (`Balancer.Weight.normalize_whole`).
* `Balancer.Weight.search` – the search in floating-point numbers.
* `Balancer.Weight.search_finds_gcd` – **what it finds is the greatest common divisor.**
-/

namespace Balancer

/-! ### Remainders -/

/-- **The place of the last bit** of a magnitude does not sink where the magnitude grows. -/
theorem two_pow_dvd_two_pow {units bound : Nat} (hle : units ≤ bound) :
    2 ^ (units.log2 - 52) ∣ 2 ^ (bound.log2 - 52) := by
  have hlog : units.log2 ≤ bound.log2 := by
    rcases Nat.eq_zero_or_pos units with rfl | hpos
    · rw [Nat.log2_zero]
      exact Nat.zero_le _
    · exact (Nat.le_log2 (by omega)).mpr (Nat.le_trans (Nat.log2_self_le (by omega)) hle)
  exact Nat.pow_dvd_pow 2 (by omega)

/-- **A remainder of magnitudes of the format is one**: it is never rounded. -/
theorem representable_mod {m n : Nat} (hm : Representable m) (hn : Representable n) :
    Representable (m % n) := by
  rcases Nat.lt_or_ge m n with hlt | hge
  · rwa [Nat.mod_eq_of_lt hlt]
  · rcases Nat.eq_zero_or_pos n with rfl | hpos
    · rwa [Nat.mod_zero]
    · have hle : m % n ≤ n := Nat.le_of_lt (Nat.mod_lt m hpos)
      have hdvd : 2 ^ (n.log2 - 52) ∣ m % n :=
        (Nat.dvd_mod_iff hn.1).mpr (Nat.dvd_trans (two_pow_dvd_two_pow hge) hm.1)
      exact ⟨Nat.dvd_trans (two_pow_dvd_two_pow hle) hdvd, Nat.lt_of_le_of_lt hle hn.2⟩

namespace Binary64

/-- **The remainder of a division** whose quotient is cut off behind the point; it has the sign of
the dividend. There is none where the divisor is zero or the dividend infinite. -/
def rem : Binary64 → Binary64 → Binary64
  | .finite negative m hm, .finite _ n hn =>
    if n = 0 then .nan else .finite negative (m % n) (representable_mod hm hn)
  | .finite negative m hm, .infinite _ => .finite negative m hm
  | _, _ => .nan

/-- A whole number of the format is written without rounding. -/
theorem ofNat_eq {n : Nat} (h : Representable (n * unitsPerOne)) :
    ofNat n = .finite false (n * unitsPerOne) h :=
  round_of_representable h false

theorem ofNat_le_one {n : Nat} (h : Representable (n * unitsPerOne)) :
    (ofNat n).le Weight.one = decide (n ≤ 1) := by
  have hunit : 0 < unitsPerOne := Nat.two_pow_pos binaryPlaces
  rw [Weight.one, ofNat_eq h, ofNat_eq (Weight.representable_whole (by decide : 1 ≤ 2 ^ 53))]
  simp only [le, units?, signed, Bool.false_eq_true, if_false, Int.ofNat_le]
  exact decide_eq_decide.mpr (Nat.mul_le_mul_right_iff hunit)

theorem toInt?_ofNat {n : Nat} (h : Representable (n * unitsPerOne)) :
    (ofNat n).toInt? = some (n : Int) := by
  have hunit : 0 < unitsPerOne := Nat.two_pow_pos binaryPlaces
  rw [ofNat_eq h, toInt?, if_pos (Nat.mul_mod_left _ _), Nat.mul_div_cancel n hunit]
  rfl

/-- **Whether whole numbers leave a remainder** shows in floating-point numbers. -/
theorem rem_ofNat_same_zero {v d : Nat} (hv : Representable (v * unitsPerOne))
    (hd : Representable (d * unitsPerOne)) (hpos : 1 ≤ d) :
    ((ofNat v).rem (ofNat d)).same zero = (v % d == 0) := by
  have hunit : 0 < unitsPerOne := Nat.two_pow_pos binaryPlaces
  have hne : d * unitsPerOne ≠ 0 := Nat.pos_iff_ne_zero.mp (Nat.mul_pos hpos hunit)
  rw [ofNat_eq hv, ofNat_eq hd, rem, if_neg hne]
  simp only [same, zero, units?, signed, Bool.false_eq_true, if_false, Nat.mul_mod_mul_right]
  rw [Bool.eq_iff_iff, beq_iff_eq, beq_iff_eq, Int.ofNat_inj, Nat.mul_eq_zero]
  exact or_iff_left (Nat.pos_iff_ne_zero.mp hunit)

end Binary64

namespace Weight

/-! ### Whole weights -/

/-- **A whole weight is a number of the format.** -/
theorem representable_normalize (weight : Binary64) :
    Representable (normalize weight * unitsPerOne) := by
  have hone : Representable (1 * unitsPerOne) := representable_whole (by decide)
  unfold normalize
  split
  · next units h =>
    rcases Nat.le_total (units / unitsPerOne) 1 with hle | hge
    · rw [Nat.max_eq_left hle]
      exact hone
    · rw [Nat.max_eq_right hge]
      have hcut : units / unitsPerOne * unitsPerOne ≤ units := Nat.div_mul_le_self units unitsPerOne
      refine ⟨Nat.dvd_trans (two_pow_dvd_two_pow hcut) ?_, Nat.lt_of_le_of_lt hcut h.2⟩
      rcases Nat.le_total (units.log2 - 52) binaryPlaces with hlow | hhigh
      · exact Nat.dvd_trans (Nat.pow_dvd_pow 2 hlow) (Nat.dvd_mul_left _ _)
      · -- nothing stands behind the point, and so nothing is cut off
        have hwhole : unitsPerOne ∣ units := Nat.dvd_trans (Nat.pow_dvd_pow 2 hhigh) h.1
        rw [Nat.div_mul_cancel hwhole]
        exact h.1
  · exact hone

/-- The whole weight as a floating-point number. -/
def whole (weight : Binary64) : Binary64 := .ofNat (normalize weight)

/-- **What is whole stays as it is.** -/
@[simp] theorem normalize_whole (weight : Binary64) : normalize (whole weight) = normalize weight := by
  have hunit : 0 < unitsPerOne := Nat.two_pow_pos binaryPlaces
  rw [whole, Binary64.ofNat_eq (representable_normalize weight), normalize,
    Nat.mul_div_cancel _ hunit]
  exact Nat.max_eq_right (one_le_normalize weight)

/-! ### The search -/

theorem bounds_of_mem_properDivisors {n d : Nat} (h : d ∈ properDivisors n) : 1 ≤ d ∧ d ≤ n := by
  rcases Nat.lt_or_ge n 2 with hlt | hge
  · rw [properDivisors, if_pos (by omega)] at h
    cases h
  · have hdvd : d ∣ n := (mem_properDivisors hge).mp h
    exact ⟨Nat.pos_of_dvd_of_pos hdvd (by omega), Nat.le_of_dvd (by omega) hdvd⟩

/-- The divisors of a whole number in floating-point numbers are its divisors. -/
theorem divisors_ofNat {n : Nat} (h : Representable (n * unitsPerOne)) :
    divisors (.ofNat n) = (properDivisors n).map Binary64.ofNat := by
  rw [divisors, Binary64.ofNat_le_one h, Binary64.toInt?_ofNat h]
  by_cases hone : n ≤ 1
  · rw [if_pos (decide_eq_true hone), properDivisors, if_pos hone, List.map_nil]
  · rw [if_neg (by simpa using hone)]
    rfl

/-- **The search for the reduction**, in floating-point numbers: of the divisors of the least whole
weight it is the first that leaves no remainder in any, and 1 where there is none. -/
def search (weights : List Binary64) : Binary64 :=
  let least := (weights.map normalize).min?.getD 1
  ((divisors (.ofNat least)).find? fun d =>
    weights.all fun w => ((whole w).rem d).same .zero).getD one

/-- **The search finds the reduction.** -/
theorem search_eq {weights : List Binary64}
    (hleast : ∀ least ∈ (weights.map normalize).min?, least ≤ 2 ^ 53) :
    search weights = .ofNat (reduction (weights.map normalize)) := by
  have hbound : (weights.map normalize).min?.getD 1 ≤ 2 ^ 53 := by
    cases hmin : (weights.map normalize).min? with
    | none => decide
    | some least => exact hleast least hmin
  unfold search reduction
  dsimp only
  generalize (weights.map normalize).min?.getD 1 = least at hbound
  rw [divisors_ofNat (representable_whole hbound), List.find?_map]
  have htests : (properDivisors least).find?
        ((fun d => weights.all fun w => ((whole w).rem d).same .zero) ∘ Binary64.ofNat) =
      (properDivisors least).find? fun d => (weights.map normalize).all fun w => w % d == 0 := by
    refine List.find?_congr fun d hd => ?_
    obtain ⟨hpos, hle⟩ := bounds_of_mem_properDivisors hd
    rw [List.all_map, Function.comp_apply]
    refine congrArg weights.all (funext fun w => ?_)
    exact Binary64.rem_ofNat_same_zero (representable_normalize w)
      (representable_whole (Nat.le_trans hle hbound)) hpos
  rw [htests, one, Option.getD_map]

/-! ### The greatest common divisor -/

/-- **The reduction depends on which weights there are**, not on their order, nor on how often each
is there. -/
theorem reduction_congr {weights others : List Nat} (hpos : ∀ weight ∈ weights, 1 ≤ weight)
    (h : ∀ weight, weight ∈ others ↔ weight ∈ weights) : reduction others = reduction weights := by
  by_cases hne : weights = []
  · have hnone : others = [] := List.eq_nil_iff_forall_not_mem.mpr fun weight hmem => by
      rw [h, hne] at hmem
      cases hmem
    rw [hne, hnone]
  · obtain ⟨weight, hmem⟩ := List.exists_mem_of_ne_nil _ hne
    have hne' : others ≠ [] := List.ne_nil_of_mem ((h weight).mpr hmem)
    rw [reduction_eq_gcd hne hpos, reduction_eq_gcd hne' fun weight h' => hpos weight ((h weight).mp h')]
    have hdvd : ∀ {u v : List Nat}, (∀ weight, weight ∈ v → weight ∈ u) →
        (u : Multiset Nat).gcd ∣ (v : Multiset Nat).gcd := fun hsub =>
      Multiset.dvd_gcd.mpr fun weight hv =>
        Multiset.gcd_dvd (Multiset.mem_coe.mpr (hsub weight (Multiset.mem_coe.mp hv)))
    exact Nat.dvd_antisymm (hdvd fun weight => (h weight).mpr) (hdvd fun weight => (h weight).mp)

/-- **The reduction of weights is the greatest common divisor of the whole weights**, although only
the divisors of the least one are tried; of no weights it is 1. As long as that least one is at most
`2 ^ 53`, the search in floating-point numbers finds it exactly, however large the others are. So
the order of the weights does not matter, nor how often each is there. -/
theorem search_finds_gcd (weights : List Binary64) :
    (weights = [] → reduction (weights.map normalize) = 1) ∧
    (weights ≠ [] →
      reduction (weights.map normalize) = (weights.map normalize : Multiset Nat).gcd) ∧
    ((∀ least ∈ (weights.map normalize).min?, least ≤ 2 ^ 53) →
      search weights = .ofNat (reduction (weights.map normalize)) ∧
        (search weights).toInt? = some (reduction (weights.map normalize) : Int)) ∧
    ∀ others : List Binary64,
      (∀ weight, weight ∈ others.map normalize ↔ weight ∈ weights.map normalize) →
      reduction (others.map normalize) = reduction (weights.map normalize) := by
  have hpos : ∀ weight ∈ weights.map normalize, 1 ≤ weight := fun weight hmem => by
    obtain ⟨w, -, rfl⟩ := List.mem_map.mp hmem
    exact one_le_normalize w
  refine ⟨fun hnone => by rw [hnone]; rfl, fun hne => ?_, fun hleast => ?_, fun others h =>
    reduction_congr hpos h⟩
  · exact reduction_eq_gcd (fun hnil => hne (List.map_eq_nil_iff.mp hnil)) hpos
  · refine ⟨search_eq hleast, ?_⟩
    have hle : reduction (weights.map normalize) ≤ 2 ^ 53 := by
      cases hmin : (weights.map normalize).min? with
      | none =>
        rw [List.min?_eq_none_iff.mp hmin]
        decide
      | some least =>
        have hmem : least ∈ weights.map normalize := List.min?_mem hmin
        exact Nat.le_trans (Nat.le_of_dvd (hpos least hmem) (reduction_dvd hmem)) (hleast least hmin)
    rw [search_eq hleast, Binary64.toInt?_ofNat (representable_whole hle)]

/-- Three weights, one with a fraction and one far beyond `2 ^ 53`: their reduction is 6. -/
theorem search_finds_gcd_of_three :
    let weights : List Binary64 := [.ofNat (3 * 2 ^ 60), .round false (37 * unitsPerOne) 3, .ofNat 18]
    (∀ least ∈ (weights.map normalize).min?, least ≤ 2 ^ 53) ∧ search weights = .ofNat 6 ∧
      (weights.map normalize : Multiset Nat).gcd = 6 := by
  intro weights
  obtain ⟨-, hgcd, hsearch, -⟩ := search_finds_gcd weights
  have hleast : ∀ least ∈ (weights.map normalize).min?, least ≤ 2 ^ 53 := by decide +kernel
  have hreduction : reduction (weights.map normalize) = 6 := by decide +kernel
  rw [hreduction] at hgcd hsearch
  exact ⟨hleast, (hsearch hleast).1, (hgcd (by simp [weights])).symm⟩

end Weight

end Balancer
