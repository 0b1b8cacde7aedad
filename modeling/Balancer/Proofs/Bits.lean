import Balancer.Number.Bits
import Balancer.Proofs.Nearest

/-!
# Words that are read back

A word is a sign, an exponent and a fraction, and the fields are found again by division. The
exponent of a number that is not below the normal range is its scale and one more, and the fraction
is its significand without the leading bit; so nothing is rounded when a word is read.

* `Balancer.Binary64.word` – the word of three fields.
* `Balancer.Binary64.ofBits_word` – **the finite number of a word**, whose magnitude
  (`Balancer.Binary64.magnitude`) is in the format.
* `Balancer.Binary64.ofBits_toBits` – **a number is read back from its word**, which has 64 bits
  (`Balancer.Binary64.toBits_lt`).
* `Balancer.Binary64.toBits_ofBits` – **a word is that of its number**, if it stands for one.
-/

namespace Balancer.Binary64

variable {negative : Bool} {exponent fraction units significand scale : Nat}

/-! ### Fields -/

/-- **A word by its fields.** -/
def word (negative : Bool) (exponent fraction : Nat) : Nat :=
  toBits.signBit negative + exponent * fractionSize + fraction

/-- The sign stands above the exponent, and the exponent above the fraction. -/
theorem word_eq (negative : Bool) (exponent fraction : Nat) :
    word negative exponent fraction =
      fractionSize * (negative.toNat * 2048 + exponent) + fraction := by
  cases negative <;> simp +arith [word, toBits.signBit, fractionSize]

theorem word_lt (hexponent : exponent < 2048) (h : fraction < fractionSize) :
    word negative exponent fraction < 2 ^ 64 := by
  have hsign := Bool.toNat_le negative
  rw [fractionSize] at h
  rw [word_eq, fractionSize]
  omega

theorem word_mod (h : fraction < fractionSize) :
    word negative exponent fraction % fractionSize = fraction := by
  rw [word_eq, Nat.mul_add_mod, Nat.mod_eq_of_lt h]

theorem word_div (h : fraction < fractionSize) :
    word negative exponent fraction / fractionSize = negative.toNat * 2048 + exponent := by
  rw [word_eq, Nat.mul_add_div (by decide), Nat.div_eq_of_lt h, Nat.add_zero]

theorem word_exponent (hexponent : exponent < 2048) (h : fraction < fractionSize) :
    word negative exponent fraction / fractionSize % 2048 = exponent := by
  rw [word_div h, Nat.mul_comm, Nat.mul_add_mod, Nat.mod_eq_of_lt hexponent]

theorem word_sign (hexponent : exponent < 2048) (h : fraction < fractionSize) :
    (word negative exponent fraction / 2 ^ 63 % 2 == 1) = negative := by
  have hsplit : word negative exponent fraction / 2 ^ 63 =
      word negative exponent fraction / fractionSize / 2048 := by
    rw [Nat.div_div_eq_div_mul]
    rfl
  rw [hsplit, word_div h, Nat.mul_comm, Nat.mul_add_div (by decide), Nat.div_eq_of_lt hexponent]
  cases negative <;> rfl

/-- **Every word has fields.** -/
theorem exists_word {bits : Nat} (hbits : bits < 2 ^ 64) : ∃ negative exponent fraction,
    exponent < 2048 ∧ fraction < fractionSize ∧ bits = word negative exponent fraction := by
  refine ⟨decide (2 ^ 63 ≤ bits), bits / fractionSize % 2048, bits % fractionSize,
    Nat.mod_lt _ (by decide), Nat.mod_lt _ (by decide), ?_⟩
  rw [word_eq]
  by_cases hsign : 2 ^ 63 ≤ bits <;> simp only [hsign, decide_true, decide_false, Bool.toNat,
    fractionSize, cond_true, cond_false] <;> omega

/-! ### Magnitudes -/

/-- **The magnitude that an exponent and a fraction stand for**: the fraction with the leading bit,
scaled; in the lowest exponent there is neither. -/
def magnitude (exponent fraction : Nat) : Nat :=
  if exponent = 0 then fraction else (fractionSize + fraction) * 2 ^ (exponent - 1)

theorem magnitude_succ (scale fraction : Nat) :
    magnitude (scale + 1) fraction = (fractionSize + fraction) * 2 ^ scale := rfl

/-- With its leading bit a fraction is a significand. -/
theorem scaled_magnitude (scale : Nat) (h : fraction < fractionSize) :
    Scaled (magnitude (scale + 1) fraction) (fractionSize + fraction) scale where
  eq_mul := rfl
  lt := by
    rw [fractionSize] at h ⊢
    omega
  normal := .inr (Nat.le_add_right _ _)

/-- **The magnitude of a word is in the format**, below the exponent of the infinities. -/
theorem representable_magnitude (hexponent : exponent < topExponent) (h : fraction < fractionSize) :
    Representable (magnitude exponent fraction) := by
  cases exponent with
  | zero => exact representable_of_lt (Nat.lt_trans h (by decide))
  | succ scale =>
    refine ⟨(scaled_magnitude scale h).dvd, ?_⟩
    refine Nat.mul_lt_mul_of_lt_of_le (scaled_magnitude scale h).lt ?_ (Nat.two_pow_pos _)
    refine Nat.pow_le_pow_right (by decide) ?_
    rw [topExponent] at hexponent
    rw [largestScale]
    omega

/-- **Every magnitude of the format is that of an exponent and a fraction.** -/
theorem exists_magnitude (hr : Representable units) : ∃ exponent fraction,
    exponent < topExponent ∧ fraction < fractionSize ∧ units = magnitude exponent fraction := by
  by_cases hunits : units < fractionSize
  · exact ⟨0, units, by decide, hunits, rfl⟩
  have hscaled := scaled_of_dvd hr.1
  generalize Balancer.significand units = significand at hscaled
  generalize units.log2 - 52 = scale at hscaled
  obtain ⟨rfl, hlt, hnormal⟩ := hscaled
  have hleading : fractionSize ≤ significand := by
    rcases hnormal with rfl | hnormal
    · rwa [Nat.pow_zero, Nat.mul_one, Nat.not_lt] at hunits
    · exact hnormal
  have hscale : scale ≤ largestScale := by
    -- the format overflows before the scales do
    by_contra hscale
    refine absurd hr.2 (Nat.not_lt.mpr ?_)
    calc overflowBound
        = fractionSize * 2 ^ (largestScale + 1) := by
          rw [overflowBound, fractionSize, Nat.pow_succ, Nat.mul_assoc, ← Nat.pow_succ']
      _ ≤ significand * 2 ^ scale :=
          Nat.mul_le_mul hleading (Nat.pow_le_pow_right (by decide) (by omega))
  refine ⟨scale + 1, significand - fractionSize, ?_, ?_, ?_⟩
  · rw [largestScale] at hscale
    rw [topExponent]
    omega
  · rw [fractionSize]
    omega
  · rw [magnitude_succ, Nat.add_sub_cancel' hleading]

/-! ### Round trips -/

/-- **The finite number of a word.** -/
theorem ofBits_word (hexponent : exponent < topExponent) (h : fraction < fractionSize) :
    ofBits (word negative exponent fraction) =
      .finite negative (magnitude exponent fraction) (representable_magnitude hexponent h) := by
  have hfield : exponent < 2048 := Nat.lt_trans hexponent (by decide)
  rw [← round_of_representable]
  simp only [ofBits, word_sign hfield h, word_exponent hfield h, word_mod h,
    if_neg (Nat.ne_of_lt hexponent), magnitude]
  split <;> rfl

/-- The leading bit of a number is carried into the exponent of its word. -/
theorem toBits_finite (hr : Representable units) :
    toBits (.finite negative units hr) =
      if units < fractionSize then word negative 0 units
      else word negative (units.log2 - 52) (units / 2 ^ (units.log2 - 52)) := by
  rw [word, Nat.zero_mul, Nat.add_zero]
  rfl

/-- **The word of a finite number.** -/
theorem toBits_magnitude (h : fraction < fractionSize)
    (hr : Representable (magnitude exponent fraction)) :
    toBits (.finite negative (magnitude exponent fraction) hr) =
      word negative exponent fraction := by
  rw [toBits_finite]
  cases exponent with
  | zero => exact if_pos h
  | succ scale =>
    have hscaled := scaled_magnitude scale h
    have hpos := Nat.two_pow_pos scale
    have hunits : ¬ magnitude (scale + 1) fraction < fractionSize := by
      rw [hscaled.eq_mul, Nat.not_lt]
      exact Nat.le_trans (Nat.le_add_right _ _) (Nat.le_mul_of_pos_right _ hpos)
    rw [if_neg hunits, hscaled.log2_eq, hscaled.eq_mul, Nat.mul_div_cancel _ hpos, word, word,
      Nat.add_mul]
    omega

/-- **A number is read back from its word.** -/
theorem ofBits_toBits (x : Binary64) : ofBits x.toBits = x := by
  cases x with
  | nan => rfl
  | infinite negative => cases negative <;> rfl
  | finite negative units hr =>
    obtain ⟨exponent, fraction, hexponent, hfraction, rfl⟩ := exists_magnitude hr
    rw [toBits_magnitude hfraction, ofBits_word hexponent hfraction]

theorem toBits_lt (x : Binary64) : x.toBits < 2 ^ 64 := by
  cases x with
  | nan => decide
  | infinite negative => cases negative <;> decide
  | finite negative units hr =>
    obtain ⟨exponent, fraction, hexponent, hfraction, rfl⟩ := exists_magnitude hr
    rw [toBits_magnitude hfraction]
    exact word_lt (Nat.lt_trans hexponent (by decide)) hfraction

/-- **A word is that of its number**, if it stands for one. -/
theorem toBits_ofBits {bits : Nat} (hbits : bits < 2 ^ 64) (hnumber : ofBits bits ≠ .nan) :
    (ofBits bits).toBits = bits := by
  obtain ⟨negative, exponent, fraction, hexponent, hfraction, rfl⟩ := exists_word hbits
  by_cases htop : exponent = topExponent
  · have hword : ofBits (word negative exponent fraction) =
        if fraction = 0 then .infinite negative else .nan := by
      simp only [ofBits, word_sign hexponent hfraction, word_exponent hexponent hfraction,
        word_mod hfraction, if_pos htop]
    rw [hword] at hnumber ⊢
    split at hnumber
    · next hzero =>
      rw [if_pos hzero, htop, hzero]
      rfl
    · exact absurd rfl hnumber
  · have hfinite : exponent < topExponent := by
      rw [topExponent] at htop ⊢
      omega
    rw [ofBits_word hfinite hfraction, toBits_magnitude hfraction]

end Balancer.Binary64
