import Balancer.Proofs.Reduction
import Balancer.Proofs.Whole

/-!
# The divisors of a number

The divisors of a number are found by counting down, in floating-point numbers, from half of it to
1. Nothing stands between a number and its half that divides it, and up to `2 ^ 53` no step of the
count is rounded; so the search finds them all, the greatest first and each of them once.

* `Balancer.Binary64.half`, `Balancer.Binary64.pred` – the two operations on the count besides
  `Balancer.Binary64.rem`.
* `Balancer.Weight.Countdown` – **the count from some number on**, and what it keeps
  (`Balancer.Weight.Countdown.unique`).
* `Balancer.Weight.countdown_whole`, `Balancer.Weight.countdown_fraction` – in a whole number the
  count finds the divisors, in any other nothing.
* `Balancer.Weight.Enumerates` – the whole search; it ends with the list of divisors
  (`Balancer.Weight.enumerates_divisors`).
* `Balancer.Weight.divisors_enumerate` – **the list of divisors**: which numbers it holds, and in
  which order.
-/

namespace Balancer

/-! ### Operations on the count -/

namespace Binary64

/-- **Half of a number, rounded once.** -/
def half : Binary64 → Binary64
  | .finite negative units _ => round negative units 2
  | x => x

/-- **The number that is less by one, rounded once.** -/
def pred (x : Binary64) : Binary64 := x + ofInt (-1)

/-- An integer in floating-point numbers is that integer only. -/
theorem eq_ofNat_iff {x : Binary64} {n : Nat} (hpos : 0 < n) (hn : Representable (n * unitsPerOne)) :
    x = ofNat n ↔ x.toInt? = some (n : Int) := by
  constructor
  · intro heq
    rw [heq, toInt?_ofNat hn]
  · intro h
    obtain ⟨negative, k, hk, rfl, hsigned⟩ := exists_of_toInt? h
    cases negative with
    | false =>
      obtain rfl : n = k := Int.ofNat_inj.mp hsigned
      rw [ofNat_eq hn]
    | true =>
      simp only [signed, if_true] at hsigned
      omega

theorem le_eq_false_of_lt {x y : Binary64} (h : x.lt y = true) : y.le x = false := by
  rw [lt] at h
  rw [le]
  cases hx : x.units? <;> cases hy : y.units? <;> simp_all

theorem pred_ofNat {n : Nat} (h : n + 1 ≤ 2 ^ 53) : (ofNat (n + 1)).pred = ofNat n := by
  have hsucc : Representable ((n + 1) * unitsPerOne) := Weight.representable_whole h
  have hone : Representable (1 * unitsPerOne) := Weight.representable_whole (by decide)
  have hminus : ofInt (-1) = .finite true (1 * unitsPerOne) hone := by
    rw [ofInt, decide_eq_true (by decide), Int.natAbs_neg, Int.natAbs_one]
    exact round_of_representable hone true
  have hsum : signed false ((n + 1) * unitsPerOne) + signed true (1 * unitsPerOne) =
      ((n * unitsPerOne : Nat) : Int) := by
    simp only [signed, Bool.false_eq_true, if_false, if_true, Nat.succ_mul]
    omega
  rw [pred, hminus, ofNat_eq hsucc]
  show add _ _ = _
  simp only [add, hsum, Bool.and_true, Int.natAbs_natCast]
  split
  · next hzero =>
    have hnone : n * unitsPerOne = 0 := Int.ofNat_eq_zero.mp hzero
    rw [ofNat, hnone]
  · rw [decide_eq_false (by omega)]
    rfl

/-- Half of a number from 1 on is not rounded. -/
theorem half_finite {units : Nat} (hone : unitsPerOne ≤ units) (hr : Representable units) :
    ∃ h : Representable (units / 2), (finite false units hr).half = .finite false (units / 2) h := by
  have hpos : units ≠ 0 := by
    have := unitsPerOne_pos
    omega
  have hlog : binaryPlaces ≤ units.log2 := (Nat.le_log2 hpos).mpr hone
  have hlarge : 2 ≤ units := Nat.le_trans (Nat.le_self_pow (by decide) 2) hone
  -- a number from 1 on has its last bit far above the last place of the format
  have hscale : units.log2 - 52 = units.log2 - 53 + 1 := by
    simp only [binaryPlaces] at hlog
    omega
  have hdvd : 2 ^ (units.log2 - 53) * 2 ∣ units := by
    rw [← Nat.pow_add_one, ← hscale]
    exact hr.1
  have htwo : units / 2 * 2 = units := Nat.div_mul_cancel (Nat.dvd_trans (Nat.dvd_mul_left 2 _) hdvd)
  have hhalf : Representable (units / 2) := by
    refine ⟨?_, Nat.lt_of_le_of_lt (Nat.div_le_self units 2) hr.2⟩
    have hlogs : (units / 2).log2 - 52 = units.log2 - 53 := by
      rw [Nat.log2_def units, if_pos hlarge]
      omega
    rw [hlogs]
    exact Nat.dvd_div_of_mul_dvd (by rwa [Nat.mul_comm])
  refine ⟨hhalf, ?_⟩
  have hround := round_mul_mul (k := 2) (by decide) false (units / 2) 1
  rw [htwo, Nat.one_mul] at hround
  rw [half, hround, round_of_representable hhalf]

theorem floor_finite {units : Nat} (hr : Representable units) :
    (finite false units hr).floor = ofNat (units / unitsPerOne) := by
  rw [floor]
  split
  · next hwhole =>
    have heq : units / unitsPerOne * unitsPerOne = units :=
      Nat.div_mul_cancel (Nat.dvd_of_mod_eq_zero hwhole)
    rw [ofNat_eq (by rwa [heq])]
    simp only [heq]
  · rfl

end Binary64

namespace Weight

/-! ### The count -/

/-- **The count from some number on**, and what it keeps: the numbers that leave no remainder. It
goes down by one as long as it is above zero. -/
inductive Countdown (value : Binary64) : Binary64 → List Binary64 → Prop
  /-- The count has come to its end. -/
  | stop {count : Binary64} (ended : Binary64.zero.lt count = false) : Countdown value count []
  /-- The count goes on. -/
  | step {count : Binary64} {ds : List Binary64} (positive : Binary64.zero.lt count = true)
      (rest : Countdown value count.pred ds) :
      Countdown value count (if (value.rem count).same .zero then count :: ds else ds)

/-- **The search for divisors**: none up to 1; else the number, and what is kept in the count from
its half on. -/
inductive Enumerates (value : Binary64) : List Binary64 → Prop
  /-- There is nothing to search. -/
  | low (small : value.le one = true) : Enumerates value []
  /-- The count decides. -/
  | search {ds : List Binary64} (large : value.le one = false)
      (count : Countdown value value.half.floor ds) : Enumerates value (value :: ds)

variable {value : Binary64}

/-- **The count ends in one way only.** -/
theorem Countdown.unique {count : Binary64} {ds es : List Binary64} (h : Countdown value count ds)
    (h' : Countdown value count es) : ds = es := by
  induction h generalizing es with
  | stop ended =>
    cases h' with
    | stop => rfl
    | step positive => exact absurd (ended.symm.trans positive) Bool.false_ne_true
  | step positive _ ih =>
    cases h' with
    | stop ended => exact absurd (ended.symm.trans positive) Bool.false_ne_true
    | step _ rest => rw [ih rest]

theorem Enumerates.unique {ds es : List Binary64} (h : Enumerates value ds)
    (h' : Enumerates value es) : ds = es := by
  rcases h with small | ⟨large, count⟩ <;> rcases h' with small' | ⟨large', count'⟩
  · rfl
  · exact absurd (large'.symm.trans small) Bool.false_ne_true
  · exact absurd (large.symm.trans small') Bool.false_ne_true
  · rw [count.unique count']

theorem zero_lt_ofNat {n : Nat} (h : n ≤ 2 ^ 53) : Binary64.zero.lt (.ofNat n) = decide (0 < n) := by
  have hzero : Binary64.zero.toInt? = some 0 := by decide +kernel
  rw [Binary64.lt_eq_of_toInt? hzero (Binary64.toInt?_ofNat (representable_whole h))]
  exact decide_eq_decide.mpr (by omega)

/-- One number further up the count begins with that number. -/
theorem countdown_succ {n : Nat} (h : n + 1 ≤ 2 ^ 53) {ds : List Binary64}
    (rest : Countdown value (.ofNat n) ds) :
    Countdown value (.ofNat (n + 1))
      (if (value.rem (.ofNat (n + 1))).same .zero then .ofNat (n + 1) :: ds else ds) := by
  refine .step ((zero_lt_ofNat h).trans (decide_eq_true (Nat.succ_pos n))) ?_
  rwa [Binary64.pred_ofNat h]

/-- **Of a whole number the count keeps the divisors.** -/
theorem countdown_whole {v n : Nat} (hv : Representable (v * unitsPerOne)) (h : n ≤ 2 ^ 53) :
    Countdown (.ofNat v) (.ofNat n) ((divisorsUpTo v n).map Binary64.ofNat) := by
  induction n with
  | zero => exact .stop (zero_lt_ofNat h)
  | succ n ih =>
    have hcount := countdown_succ h (ih (Nat.le_of_succ_le h))
    rw [Binary64.rem_ofNat_same_zero hv (representable_whole h) (Nat.succ_pos n)] at hcount
    simp only [beq_iff_eq] at hcount
    rw [divisorsUpTo, apply_ite (List.map Binary64.ofNat), List.map_cons]
    exact hcount

/-- **Of a number that is not whole it keeps nothing.** -/
theorem countdown_fraction {units n : Nat} (hr : Representable units)
    (hfraction : ¬ unitsPerOne ∣ units) (h : n ≤ 2 ^ 53) :
    Countdown (.finite false units hr) (.ofNat n) [] := by
  induction n with
  | zero => exact .stop (zero_lt_ofNat h)
  | succ n ih =>
    have hcount := countdown_succ h (ih (Nat.le_of_succ_le h))
    have hne : (n + 1) * unitsPerOne ≠ 0 :=
      Nat.mul_ne_zero (Nat.succ_ne_zero n) (Nat.pos_iff_ne_zero.mp Binary64.unitsPerOne_pos)
    have hrem : ((Binary64.finite false units hr).rem (.ofNat (n + 1))).same .zero = false := by
      rw [Binary64.ofNat_eq (representable_whole h), Binary64.rem, if_neg hne]
      simp only [Binary64.same, Binary64.zero, Binary64.units?, Binary64.signed, Bool.false_eq_true,
        if_false]
      rw [beq_eq_false_iff_ne, Int.ofNat_inj.ne]
      exact fun hmod => hfraction
        (Nat.dvd_trans (Nat.dvd_mul_left _ _) (Nat.dvd_of_mod_eq_zero hmod))
    rwa [hrem] at hcount

/-! ### The search -/

theorem getLast?_divisorsUpTo (v n : Nat) : (divisorsUpTo v (n + 1)).getLast? = some 1 := by
  induction n with
  | zero => simp [divisorsUpTo, Nat.mod_one]
  | succ n ih =>
    rw [divisorsUpTo]
    split
    · rw [List.getLast?_cons, ih]
      rfl
    · exact ih

theorem getLast?_properDivisors {n : Nat} (h : 2 ≤ n) : (properDivisors n).getLast? = some 1 := by
  obtain ⟨k, hk⟩ : ∃ k, n / 2 = k + 1 := ⟨n / 2 - 1, by omega⟩
  rw [properDivisors, if_neg (by omega), List.getLast?_cons, hk, getLast?_divisorsUpTo]
  rfl

theorem le_ofNat {units : Int} (hunits : value.units? = some units) {n : Nat} (h : n ≤ 2 ^ 53) :
    value.le (.ofNat n) = decide (units ≤ (n * unitsPerOne : Nat)) := by
  rw [Binary64.le, hunits, Binary64.ofNat_eq (representable_whole h)]
  rfl

/-- A number above 1 and within the bound, in units. -/
theorem exists_finite (hlarge : value.le one = false) (hbound : value.le (.ofNat (2 ^ 53)) = true) :
    ∃ units hr, value = .finite false units hr ∧ unitsPerOne < units ∧
      units ≤ 2 ^ 53 * unitsPerOne := by
  rcases hunits : value.units? with _ | signed
  · rw [Binary64.le, hunits] at hbound
    exact absurd hbound Bool.false_ne_true
  rw [one, le_ofNat hunits (by decide), decide_eq_false_iff_not] at hlarge
  rw [le_ofNat hunits (Nat.le_refl _), decide_eq_true_eq] at hbound
  have htop : 2 ^ 53 * unitsPerOne < overflowBound := (representable_whole (Nat.le_refl _)).2
  cases value with
  | nan => cases hunits
  | infinite negative =>
    cases hunits
    cases negative <;> simp only [Binary64.signed, if_true, Bool.false_eq_true, if_false] at * <;> omega
  | finite negative units hr =>
    cases hunits
    cases negative with
    | true =>
      simp only [Binary64.signed, if_true] at hlarge
      omega
    | false =>
      simp only [Binary64.signed, Bool.false_eq_true, if_false] at hlarge hbound
      exact ⟨units, hr, rfl, by omega, by omega⟩

/-- What is not whole has no divisor but itself. -/
theorem divisors_of_fraction (hlarge : value.le one = false) (hfraction : value.toInt? = none) :
    divisors value = [value] := by
  rw [divisors, hlarge, hfraction, if_neg Bool.false_ne_true]

/-- **The search in a whole number ends with its divisors.** -/
theorem enumerates_whole {v : Nat} (hone : 1 < v) (hbound : v ≤ 2 ^ 53) :
    Enumerates (.ofNat v) (divisors (.ofNat v)) := by
  have hr : Representable (v * unitsPerOne) := representable_whole hbound
  have hlarge : (Binary64.ofNat v).le one = false := by
    rw [Binary64.ofNat_le_one hr]
    exact decide_eq_false (by omega)
  have hunits : unitsPerOne ≤ v * unitsPerOne := Nat.le_mul_of_pos_left _ (by omega)
  have hhalf : ∀ u, 0 < u → v * u / 2 / u = v / 2 := by
    intro u hu
    rw [Nat.div_div_eq_div_mul, Nat.mul_comm 2 u, ← Nat.div_div_eq_div_mul, Nat.mul_div_cancel v hu]
  have hstart : (Binary64.ofNat v).half.floor = .ofNat (v / 2) := by
    obtain ⟨hr', heq⟩ := Binary64.half_finite hunits hr
    rw [Binary64.ofNat_eq hr, heq, Binary64.floor_finite, hhalf _ Binary64.unitsPerOne_pos]
  rw [divisors_ofNat hr, properDivisors, if_neg (by omega), List.map_cons]
  refine .search hlarge ?_
  rw [hstart]
  exact countdown_whole hr (by omega)

/-- **The search ends with the list of divisors.** -/
theorem enumerates_divisors (hbound : value.le (.ofNat (2 ^ 53)) = true) :
    Enumerates value (divisors value) := by
  rcases hlarge : value.le one with _ | _
  · obtain ⟨units, hr, rfl, hone, hle⟩ := exists_finite hlarge hbound
    by_cases hwhole : unitsPerOne ∣ units
    · have hv : units / unitsPerOne * unitsPerOne = units := Nat.div_mul_cancel hwhole
      generalize units / unitsPerOne = v at hv
      subst hv
      rw [← Binary64.ofNat_eq hr]
      refine enumerates_whole (Nat.lt_of_not_le fun hsmall => ?_)
        (Nat.le_of_mul_le_mul_right hle Binary64.unitsPerOne_pos)
      have hshort := Nat.mul_le_mul_right unitsPerOne hsmall
      omega
    · have hfraction : (Binary64.finite false units hr).toInt? = none :=
        if_neg fun hmod => hwhole (Nat.dvd_of_mod_eq_zero hmod)
      obtain ⟨hhalf, heq⟩ := Binary64.half_finite (Nat.le_of_lt hone) hr
      have hcount : units / 2 / unitsPerOne ≤ 2 ^ 53 := by
        refine Nat.div_le_of_le_mul ?_
        rw [Nat.mul_comm]
        exact Nat.le_trans (Nat.div_le_self units 2) hle
      rw [divisors_of_fraction hlarge hfraction]
      refine .search hlarge ?_
      rw [heq, Binary64.floor_finite]
      exact countdown_fraction hr hwhole hcount
  · rw [divisors, if_pos hlarge]
    exact .low hlarge

/-- **The list of divisors.** Of a whole number above 1 and up to `2 ^ 53` it falls strictly, begins
with the number, ends with 1 and holds exactly the positive integers that divide the number. Of a
number above 1 that is not whole it holds the number alone, and up to 1 it is empty. It is what the
count in floating-point numbers ends with, and nothing else. -/
theorem divisors_enumerate (value : Binary64) :
    (∀ n : Nat, value.toInt? = some (n : Int) → 1 < n → n ≤ 2 ^ 53 →
      (divisors value).Pairwise (fun d e => e.lt d = true) ∧
      (divisors value).head? = some value ∧
      (divisors value).getLast? = some one ∧
      ∀ d, d ∈ divisors value ↔ ∃ k : Nat, d.toInt? = some (k : Int) ∧ 0 < k ∧ k ∣ n) ∧
    (value.isFinite = true → one.lt value = true → value.toInt? = none →
      divisors value = [value]) ∧
    (value.le one = true → divisors value = []) ∧
    (value.le (.ofNat (2 ^ 53)) = true → ∀ ds, Enumerates value ds ↔ ds = divisors value) := by
  refine ⟨fun n hn hone hbound => ?_, fun _ hlarge => ?_, fun hsmall => ?_, fun hbound ds => ?_⟩
  · have hr : Representable (n * unitsPerOne) := representable_whole hbound
    have hvalue : value = .ofNat n := (Binary64.eq_ofNat_iff (by omega) hr).mpr hn
    have hwhole : ∀ d ∈ properDivisors n, Representable (d * unitsPerOne) ∧
        (Binary64.ofNat d).toInt? = some (d : Int) ∧ 0 < d := by
      intro d hd
      obtain ⟨hpos, hle⟩ := bounds_of_mem_properDivisors hd
      have hrd : Representable (d * unitsPerOne) := representable_whole (Nat.le_trans hle hbound)
      exact ⟨hrd, Binary64.toInt?_ofNat hrd, hpos⟩
    rw [hvalue, divisors_ofNat hr]
    refine ⟨?_, ?_, ?_, fun d => ?_⟩
    · refine List.pairwise_map.mpr ((pairwise_properDivisors n).imp_of_mem ?_)
      intro d e hd he hgt
      rw [Binary64.lt_eq_of_toInt? (hwhole e he).2.1 (hwhole d hd).2.1]
      exact decide_eq_true (Int.ofNat_lt.mpr hgt)
    · rw [List.head?_map, properDivisors, if_neg (by omega)]
      rfl
    · rw [List.getLast?_map, getLast?_properDivisors hone]
      rfl
    · constructor
      · intro hd
        obtain ⟨k, hk, rfl⟩ := List.mem_map.mp hd
        obtain ⟨-, hint, hpos⟩ := hwhole k hk
        exact ⟨k, hint, hpos, (mem_properDivisors hone).mp hk⟩
      · rintro ⟨k, hint, hpos, hdvd⟩
        have hk : k ∈ properDivisors n := (mem_properDivisors hone).mpr hdvd
        rw [(Binary64.eq_ofNat_iff hpos (hwhole k hk).1).mpr hint]
        exact List.mem_map_of_mem hk
  · exact divisors_of_fraction (Binary64.le_eq_false_of_lt hlarge)
  · rw [divisors, if_pos hsmall]
  · constructor
    · intro h
      exact h.unique (enumerates_divisors hbound)
    · rintro rfl
      exact enumerates_divisors hbound

/-- The divisors of the greatest number within the bound, of a number that is not whole, and of
zero. -/
theorem divisors_enumerate_of_three :
    let whole : Binary64 := .ofNat (2 ^ 53)
    let fraction : Binary64 := .round false (9 * unitsPerOne) 2
    (whole.toInt? = some ((2 ^ 53 : Nat) : Int) ∧ (divisors whole).getLast? = some one ∧
      .ofNat (2 ^ 20) ∈ divisors whole ∧ .ofNat 3 ∉ divisors whole) ∧
    (one.lt fraction = true ∧ divisors fraction = [fraction] ∧ Enumerates fraction [fraction]) ∧
    Binary64.zero.le one = true ∧ divisors .zero = [] := by
  intro whole fraction
  have hwhole : whole.toInt? = some ((2 ^ 53 : Nat) : Int) := by decide +kernel
  obtain ⟨-, -, hlast, hmem⟩ := (divisors_enumerate whole).1 (2 ^ 53) hwhole (by decide) (Nat.le_refl _)
  have hlarge : one.lt fraction = true := by decide +kernel
  have hfraction : divisors fraction = [fraction] :=
    (divisors_enumerate fraction).2.1 (by decide +kernel) hlarge (by decide +kernel)
  have hsearch : Enumerates fraction [fraction] :=
    ((divisors_enumerate fraction).2.2.2 (by decide +kernel) _).mpr hfraction.symm
  have hzero : Binary64.zero.le one = true := by decide +kernel
  refine ⟨⟨hwhole, hlast, (hmem _).mpr ⟨2 ^ 20, by decide +kernel, by decide, by decide⟩, ?_⟩,
    ⟨hlarge, hfraction, hsearch⟩, hzero, (divisors_enumerate .zero).2.2.1 hzero⟩
  intro hthree
  obtain ⟨k, hk, -, hdvd⟩ := (hmem _).mp hthree
  have hthree' : (Binary64.ofNat 3).toInt? = some 3 := by decide +kernel
  obtain rfl : k = 3 := by
    have heq := Option.some.inj (hk.symm.trans hthree')
    omega
  exact absurd hdvd (by decide)

end Weight

end Balancer
