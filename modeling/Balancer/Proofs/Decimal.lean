import Balancer.Number.Text
import Balancer.Proofs.Proportion
import Mathlib.Tactic.NormNum

/-!
# Decimal numbers that read back

Rounding sees the value of a decimal number only: neither a common factor of a quotient nor the
zeros at the end of the digits matter. So the decimal number chosen for a magnitude reads back as
that magnitude, whichever way it is laid out.

* `Balancer.Binary64.round_mul_mul` – a common factor cancels.
* `Balancer.Decimal.round_mul_ten_pow` – **zeros at the end of the digits count for the
  exponent.**
* `Balancer.Decimal.round_eq_finite` – the sign stays out of the rounding.
* `Balancer.Binary64.round_expansion` – the exact expansion of a magnitude reads back.
* `Balancer.Binary64.round_shortest` – **and so does the shortest decimal number.**
-/

namespace Balancer

/-! ### Quotients -/

theorem nearest_mul_mul {k : Nat} (hk : 0 < k) (num den : Nat) :
    nearest (num * k) (den * k) = nearest num den := by
  have hlt : 2 * (num % den * k) < den * k ↔ 2 * (num % den) < den := by
    rw [← Nat.mul_assoc, Nat.mul_lt_mul_right hk]
  have hgt : den * k < 2 * (num % den * k) ↔ den < 2 * (num % den) := by
    rw [← Nat.mul_assoc, Nat.mul_lt_mul_right hk]
  simp only [nearest, Nat.mul_div_mul_right _ _ hk, Nat.mul_mod_mul_right, hlt, hgt]

theorem roundUnits_mul_mul {k : Nat} (hk : 0 < k) (num den : Nat) :
    roundUnits (num * k) (den * k) = roundUnits num den := by
  simp only [roundUnits, Nat.mul_div_mul_right _ _ hk, Nat.mul_right_comm den k, nearest_mul_mul hk]

namespace Binary64

/-- **A common factor of a quotient does not matter.** -/
theorem round_mul_mul {k : Nat} (hk : 0 < k) (negative : Bool) (num den : Nat) :
    round negative (num * k) (den * k) = round negative num den := by
  simp only [round, roundUnits_mul_mul hk]

/-- A magnitude of the format is not rounded. -/
theorem round_of_representable {units : Nat} (h : Representable units) (negative : Bool) :
    round negative units 1 = .finite negative units h := by
  have hunits : roundUnits units 1 = units := by
    simpa only [Nat.mul_one] using Weight.roundUnits_mul Nat.one_pos h
  simp only [round, hunits, h.2, dite_true]

/-- Rounding to a finite number is a matter of the magnitude; the sign is carried along. -/
theorem round_eq_finite_iff {negative sign : Bool} {num den units : Nat} {h : Representable units} :
    round negative num den = .finite sign units h ↔
      negative = sign ∧ roundUnits num den = units := by
  rw [round]
  split
  · rw [finite.injEq]
  · next hover =>
    constructor
    · intro heq
      cases heq
    · rintro ⟨-, rfl⟩
      exact absurd h.2 hover

end Binary64

/-! ### Decimal numbers -/

namespace Decimal

/-- The magnitude that a decimal number rounds to shows under both signs. -/
theorem round_eq_finite {d : Decimal} {sign : Bool} {units : Nat} {h : Representable units}
    (hd : d.round sign = .finite sign units h) (negative : Bool) :
    d.round negative = .finite negative units h := by
  rw [round] at hd ⊢
  split at hd
  · next hsmall =>
    rw [if_pos hsmall]
    exact Binary64.round_eq_finite_iff.mpr ⟨rfl, (Binary64.round_eq_finite_iff.mp hd).2⟩
  next hsmall =>
  rw [if_neg hsmall]
  split at hd
  · cases hd
  next hlarge =>
  rw [if_neg hlarge]
  split at hd
  all_goals exact Binary64.round_eq_finite_iff.mpr ⟨rfl, (Binary64.round_eq_finite_iff.mp hd).2⟩

/-- A zero at the end of the digits is one place more. -/
theorem places_mul_ten {digits : Nat} (hdigits : digits ≠ 0) (exponent : Int) :
    places ⟨digits * 10, exponent⟩ = places ⟨digits, exponent + 1⟩ := by
  have happend := Nat.toDigits_append_toDigits (b := 10) (n := digits) (d := 0) (by decide)
    (Nat.pos_of_ne_zero hdigits) (by decide)
  have hlength : (Nat.toDigits 10 (digits * 10)).length = (Nat.toDigits 10 digits).length + 1 := by
    rw [Nat.mul_comm, ← Nat.add_zero (10 * digits), ← happend, List.length_append]
    rfl
  simp only [places, hlength]
  omega

/-- **A zero at the end of the digits counts for the exponent.** -/
theorem round_mul_ten {digits : Nat} (hdigits : digits ≠ 0) (exponent : Int) (negative : Bool) :
    round ⟨digits * 10, exponent⟩ negative = round ⟨digits, exponent + 1⟩ negative := by
  have hne : digits * 10 ≠ 0 := by omega
  simp only [round, places_mul_ten hdigits, hdigits, hne, false_or]
  -- what remains is the value, by the sign of the exponent
  split
  · rfl
  split
  · rfl
  match exponent with
  | .ofNat e =>
    have hsucc : Int.ofNat e + 1 = Int.ofNat (e + 1) := rfl
    simp only [hsucc, Nat.pow_succ', Nat.mul_assoc]
  | .negSucc 0 =>
    have hsucc : Int.negSucc 0 + 1 = Int.ofNat 0 := rfl
    have hfactor := Binary64.round_mul_mul (k := 10) (by decide) negative (digits * unitsPerOne) 1
    simp only [hsucc, Nat.pow_zero, Nat.mul_one, Nat.zero_add, Nat.pow_one]
    rw [← hfactor, Nat.mul_right_comm, Nat.one_mul]
  | .negSucc (e + 1) =>
    have hsucc : Int.negSucc (e + 1) + 1 = Int.negSucc e := rfl
    have hfactor := Binary64.round_mul_mul (k := 10) (by decide) negative (digits * unitsPerOne)
      (10 ^ (e + 1))
    simp only [hsucc]
    rw [← hfactor, Nat.mul_right_comm, Nat.pow_succ 10 (e + 1)]

/-- **Zeros at the end of the digits count for the exponent.** -/
theorem round_mul_ten_pow {digits : Nat} (hdigits : digits ≠ 0) (zeros : Nat) (exponent : Int)
    (negative : Bool) :
    round ⟨digits * 10 ^ zeros, exponent⟩ negative = round ⟨digits, exponent + zeros⟩ negative := by
  induction zeros generalizing exponent with
  | zero => simp
  | succ zeros ih =>
    have hne : digits * 10 ^ zeros ≠ 0 :=
      Nat.mul_ne_zero hdigits (Nat.pos_iff_ne_zero.mp (Nat.pow_pos (by decide)))
    rw [Nat.pow_succ, ← Nat.mul_assoc, round_mul_ten hne, ih]
    congr 2
    omega

end Decimal

/-! ### The choice of digits -/

/-- **A number between two powers of ten** has a number of digits between the exponents. -/
theorem length_toDigits_between {n low high : Nat} (hpos : 0 < low) (hle : low ≤ high)
    (hlow : 10 ^ low ≤ n) (hhigh : n < 10 ^ high) :
    low < (Nat.toDigits 10 n).length ∧ (Nat.toDigits 10 n).length ≤ high := by
  refine ⟨Nat.lt_of_not_le fun hshort => ?_, ?_⟩
  · exact Nat.not_lt_of_le hlow ((Nat.length_toDigits_le_iff (by decide) hpos).mp hshort)
  · exact (Nat.length_toDigits_le_iff (by decide) (Nat.lt_of_lt_of_le hpos hle)).mpr hhigh

namespace Binary64

variable {units : Nat}

/-- The exact expansion of a magnitude has its point within the bounds of the rounding. -/
theorem places_expansion (hunits : units ≠ 0) (h : Representable units) :
    -Decimal.placeBound ≤ (expansion units).places ∧
      (expansion units).places ≤ Decimal.placeBound := by
  have hlow : 10 ^ 673 ≤ units * 5 ^ binaryPlaces := by
    refine Nat.le_trans (m := 5 ^ binaryPlaces) (by decide +kernel) ?_
    exact Nat.le_mul_of_pos_left _ (Nat.pos_of_ne_zero hunits)
  have hhigh : units * 5 ^ binaryPlaces < 10 ^ 1383 := by
    refine Nat.lt_of_lt_of_le (m := overflowBound * 5 ^ binaryPlaces) ?_ (by decide +kernel)
    exact Nat.mul_lt_mul_of_pos_right h.2 (Nat.pow_pos (by decide))
  obtain ⟨hmore, hless⟩ := length_toDigits_between (by decide) (by decide) hlow hhigh
  simp only [Decimal.places, expansion, Decimal.placeBound, binaryPlaces] at hmore hless ⊢
  omega

/-- **The exact expansion of a magnitude reads back.** -/
theorem round_expansion (hunits : units ≠ 0) (h : Representable units) (negative : Bool) :
    (expansion units).round negative = .finite negative units h := by
  obtain ⟨hlow, hhigh⟩ := places_expansion hunits h
  have hdigits : units * 5 ^ binaryPlaces ≠ 0 :=
    Nat.mul_ne_zero hunits (Nat.pos_iff_ne_zero.mp (Nat.pow_pos (by decide)))
  have hten : 10 ^ (1073 + 1) = 1 * (5 ^ binaryPlaces * unitsPerOne) := by decide +kernel
  have hfactor : 0 < 5 ^ binaryPlaces * unitsPerOne := by
    exact Nat.mul_pos (Nat.pow_pos (by decide)) (Nat.pow_pos (by decide))
  have hsmall : ¬((expansion units).digits = 0 ∨ (expansion units).places < -Decimal.placeBound) := by
    rintro (hzero | hlt)
    · exact hdigits hzero
    · omega
  have hexponent : (expansion units).exponent = Int.negSucc 1073 := rfl
  rw [Decimal.round, if_neg hsmall, if_neg (by omega), hexponent]
  simp only [expansion, hten, Nat.mul_assoc]
  rw [round_mul_mul hfactor, round_of_representable h]

/-- What is taken off a grid reads back. -/
theorem round_of_onGrid? {h : Representable units} {exponent : Int} {d : Decimal}
    (hd : onGrid? units h exponent = some d) : d.round false = .finite false units h := by
  simp only [onGrid?] at hd
  split at hd
  · next hnear => exact Option.some.inj hd ▸ beq_iff_eq.mp hnear
  split at hd
  · next hbelow => exact Option.some.inj hd ▸ beq_iff_eq.mp hbelow
  split at hd
  · next habove => exact Option.some.inj hd ▸ beq_iff_eq.mp habove
  · cases hd

/-- **The shortest decimal number of a magnitude reads back.** -/
theorem round_shortest (hunits : units ≠ 0) (h : Representable units) (negative : Bool) :
    (shortest units h).round negative = .finite negative units h := by
  refine Decimal.round_eq_finite (?_ : Decimal.round _ false = _) negative
  rw [shortest]
  cases hfound : (List.range 17).findSome? fun (n : Nat) =>
      onGrid? units h (placesOf units - (n + 1)) with
  | none => exact round_expansion hunits h false
  | some d =>
    obtain ⟨n, -, hn⟩ := List.exists_of_findSome?_eq_some hfound
    exact round_of_onGrid? hn

/-- It has digits. -/
theorem digits_shortest_ne_zero (hunits : units ≠ 0) (h : Representable units) :
    (shortest units h).digits ≠ 0 := by
  intro hzero
  have hround := round_shortest hunits h false
  rw [Decimal.round, if_pos (.inl hzero)] at hround
  have hrounded := (round_eq_finite_iff.mp hround).2
  exact hunits (hrounded.symm.trans (by decide))

end Binary64

end Balancer
