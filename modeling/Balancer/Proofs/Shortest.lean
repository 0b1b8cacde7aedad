import Balancer.Proofs.Literal
import Balancer.Proofs.Nearest
import Balancer.Proofs.Whole
import Mathlib.Data.Nat.Factorization.Basic

/-!
# The shortest text of a number

The digits that a number is written with are specified without saying how they are found: they stand
for the number when they are read, and no fewer digits do. The search for them looks at the two
neighbours of the number on one decimal grid after the other. That is enough, because the values that
are rounded to a number are an interval; and the grid of seventeen digits is always fine enough.

* `Balancer.NearestTo.iff_midpoints` – the nearest magnitude by midpoints;
  `Balancer.NearestTo.of_between` – **the values nearest to a magnitude are an interval.**
* `Balancer.nearestTo_of_close` – how close is close enough.
* `Balancer.Binary64.gridStep`, `Balancer.Binary64.cut_spec` – decimal grids, and where a magnitude
  lies on one.
* `Balancer.Binary64.shortest_spec` – **the search comes to the first grid on which a magnitude reads
  back.**
* `Balancer.Binary64.Shortest`, `Balancer.Binary64.layOut`, `Balancer.Binary64.Prints` – **the digits
  that a number is written with**, how they are laid out, and the text that this makes.
* `Balancer.Binary64.prints_text` – **the text of a positive number is one that it is written with.**
-/

namespace Balancer

/-! ### Midpoints -/

/-- Which of two points is nearer, by the middle between them. -/
theorem abs_sub_le_abs_sub_iff (x a b : ℚ) :
    |x - a| ≤ |x - b| ↔ 0 ≤ (b - a) * (a + b - 2 * x) := by
  have hsquares : (x - b) ^ 2 - (x - a) ^ 2 = (b - a) * (a + b - 2 * x) := by ring
  rw [← sq_le_sq, ← hsquares, sub_nonneg]

theorem abs_sub_eq_abs_sub_iff {x a b : ℚ} (hne : a ≠ b) :
    |x - b| = |x - a| ↔ a + b = 2 * x := by
  have hsquares : (x - b) ^ 2 - (x - a) ^ 2 = (b - a) * (a + b - 2 * x) := by ring
  rw [← sq_eq_sq_iff_abs_eq_abs, ← sub_eq_zero, hsquares, mul_eq_zero, sub_eq_zero, sub_eq_zero,
    or_iff_right hne.symm]

namespace NearestTo

variable {value low high : ℚ} {u : Nat}

/-- **The nearest magnitude by midpoints**: the value lies below the middle between it and any
greater one, and above the middle between it and any smaller one; in the middle its significand is
even. -/
theorem iff_midpoints : NearestTo value u ↔ Candidate u ∧ ∀ other, Candidate other →
    (u < other → 2 * value ≤ u + other) ∧ (other < u → (u + other : ℚ) ≤ 2 * value) ∧
      (other ≠ u → (u + other : ℚ) = 2 * value → significand u % 2 = 0) := by
  have hsides : ∀ other : Nat, |value - u| ≤ |value - other| ↔
      (u < other → 2 * value ≤ u + other) ∧ (other < u → (u + other : ℚ) ≤ 2 * value) := by
    intro other
    rw [abs_sub_le_abs_sub_iff]
    rcases Nat.lt_trichotomy u other with hlt | rfl | hgt
    · have hcast : (0 : ℚ) < other - u := sub_pos.mpr (Nat.cast_lt.mpr hlt)
      rw [mul_nonneg_iff_of_pos_left hcast, sub_nonneg]
      exact ⟨fun h => ⟨fun _ => h, fun hgt => absurd hgt hlt.not_gt⟩, fun h => h.1 hlt⟩
    · simp
    · have hcast : (0 : ℚ) < u - other := sub_pos.mpr (Nat.cast_lt.mpr hgt)
      rw [← neg_mul_neg, neg_sub, neg_sub, mul_nonneg_iff_of_pos_left hcast, sub_nonneg]
      exact ⟨fun h => ⟨fun hlt => absurd hlt hgt.not_gt, fun _ => h⟩, fun h => h.2 hgt⟩
  have hmiddle : ∀ other : Nat, other ≠ u →
      (|value - other| = |value - u| ↔ (u + other : ℚ) = 2 * value) := fun other hne =>
    abs_sub_eq_abs_sub_iff (Nat.cast_injective.ne hne.symm)
  constructor
  · rintro ⟨candidate, nearest, even⟩
    refine ⟨candidate, fun other hother => ?_⟩
    obtain ⟨habove, hbelow⟩ := (hsides other).mp (nearest other hother)
    exact ⟨habove, hbelow, fun hne heq => even other hother hne ((hmiddle other hne).mpr heq)⟩
  · rintro ⟨candidate, hall⟩
    refine ⟨candidate, fun other hother => ?_, fun other hother hne heq => ?_⟩
    · exact (hsides other).mpr ⟨(hall other hother).1, (hall other hother).2.1⟩
    · exact (hall other hother).2.2 hne ((hmiddle other hne).mp heq)

/-- **The values nearest to a magnitude are an interval.** -/
theorem of_between (hlow : NearestTo low u) (hhigh : NearestTo high u) (hle : low ≤ value)
    (hge : value ≤ high) : NearestTo value u := by
  rw [iff_midpoints] at hlow hhigh ⊢
  refine ⟨hlow.1, fun other hother => ?_⟩
  obtain ⟨-, hbelow, heven⟩ := hlow.2 other hother
  obtain ⟨habove, -, heven'⟩ := hhigh.2 other hother
  refine ⟨fun hlt => ?_, fun hgt => ?_, fun hne hmiddle => ?_⟩
  · linarith [habove hlt]
  · linarith [hbelow hgt]
  · -- a value in the middle is one of the ends
    rcases Nat.lt_or_gt_of_ne hne with hgt | hlt
    · exact heven hne (by linarith [hbelow hgt])
    · exact heven' hne (by linarith [habove hlt])

/-- A magnitude is nearest to itself. -/
theorem self (h : Representable u) : NearestTo u u := by
  refine iff_midpoints.mpr ⟨.inl h, fun other _ => ⟨fun hlt => ?_, fun hgt => ?_, fun hne heq => ?_⟩⟩
  · have hcast : (u : ℚ) < other := Nat.cast_lt.mpr hlt
    linarith
  · have hcast : (other : ℚ) < u := Nat.cast_lt.mpr hgt
    linarith
  · exact absurd (Nat.cast_injective (show (other : ℚ) = u by linarith)) hne

end NearestTo

/-! ### Neighbours -/

/-- The next smaller magnitude is a place of the last bit away, or half as far below a power of
two. -/
theorem Candidate.below {u other : Nat} (h : Representable u) (hother : Candidate other)
    (hlt : other < u) : other + 2 ^ (u.log2 - 52) ≤ u ∨
      u = 2 ^ 52 * 2 ^ (u.log2 - 52) ∧ 2 * other + 2 ^ (u.log2 - 52) ≤ 2 * u := by
  obtain ⟨hunits, -, hnormal⟩ := scaled_of_dvd h.1
  obtain ⟨-, hnext⟩ := hother.add_two_pow (.inl h) hlt
  rcases Nat.lt_or_ge (other.log2 - 52) (u.log2 - 52) with hfiner | hcoarser
  · obtain ⟨scale, hscale⟩ : ∃ scale, u.log2 - 52 = scale + 1 := ⟨u.log2 - 52 - 1, by omega⟩
    rw [hscale] at hunits hnormal hfiner ⊢
    have hpos := Nat.two_pow_pos scale
    have hplace : 2 ^ (scale + 1) = 2 * 2 ^ scale := Nat.pow_succ'
    rcases Nat.eq_or_lt_of_le (hnormal.resolve_left (by omega)) with hpower | hmore
    · rw [← hpower] at hunits
      refine .inr ⟨hunits, ?_⟩
      rcases Nat.lt_or_ge other.log2 (52 + scale) with hless | hmost
      · have hsmall : other < 2 ^ (52 + scale) :=
          Nat.lt_of_lt_of_le Nat.lt_log2_self (Nat.pow_le_pow_right (by decide) hless)
        rw [Nat.pow_add] at hsmall
        omega
      · rw [show other.log2 - 52 = scale by omega] at hnext
        omega
    · have hsmall : other < 2 ^ (52 + (scale + 1)) :=
        Nat.lt_of_lt_of_le Nat.lt_log2_self (Nat.pow_le_pow_right (by decide) (by omega))
      have hmul := Nat.mul_le_mul_right (2 ^ (scale + 1)) hmore
      rw [Nat.succ_mul] at hmul
      rw [Nat.pow_add] at hsmall
      omega
  · exact .inl (Nat.le_trans (Nat.add_le_add_left (Nat.pow_le_pow_right (by decide) hcoarser) _) hnext)

/-- **A value that is close to a magnitude is nearest to it**; within half a step of seventeen decimal
digits it is close enough. -/
theorem nearestTo_of_close {value : ℚ} {u : Nat} (h : Representable u)
    (hclose : |value - u| * (2 * 10 ^ 16) ≤ u) : NearestTo value u := by
  obtain ⟨hunits, hlt, -⟩ := scaled_of_dvd h.1
  have hcast : (u : ℚ) = significand u * (2 ^ (u.log2 - 52) : Nat) := by exact_mod_cast hunits
  have hplace : (0 : ℚ) < (2 ^ (u.log2 - 52) : Nat) := Nat.cast_pos.mpr (Nat.two_pow_pos _)
  have hsignificand : (significand u : ℚ) < 10 ^ 16 := by
    exact_mod_cast Nat.lt_trans hlt (by decide : 2 ^ 53 < 10 ^ 16)
  have hhalf : 2 * |value - u| < (2 ^ (u.log2 - 52) : Nat) := by nlinarith
  obtain ⟨hlow, hhigh⟩ := abs_lt.mp ((lt_div_iff₀' (by norm_num)).mpr hhalf)
  have hstrict : ∀ other, Candidate other → (u < other → 2 * value < u + other) ∧
      (other < u → (u + other : ℚ) < 2 * value) := by
    intro other hother
    constructor
    · intro hgt
      have hnext : (u + (2 ^ (u.log2 - 52) : Nat) : ℚ) ≤ other := by
        exact_mod_cast (Candidate.add_two_pow (.inl h) hother hgt).2
      linarith
    · intro hlt
      rcases Candidate.below h hother hlt with hnext | ⟨hpower, hnext⟩
      · have hnext' : (other + (2 ^ (u.log2 - 52) : Nat) : ℚ) ≤ u := by exact_mod_cast hnext
        linarith
      · -- below a power of two the next magnitude is half as far away, but the digits are closer, too
        have hpower' : (u : ℚ) = 2 ^ 52 * (2 ^ (u.log2 - 52) : Nat) := by exact_mod_cast hpower
        have hnext' : (2 * other + (2 ^ (u.log2 - 52) : Nat) : ℚ) ≤ 2 * u := by exact_mod_cast hnext
        have hquarter : 4 * |value - u| < (2 ^ (u.log2 - 52) : Nat) := by nlinarith
        obtain ⟨hlow', -⟩ := abs_lt.mp ((lt_div_iff₀' (by norm_num)).mpr hquarter)
        linarith
  refine NearestTo.iff_midpoints.mpr ⟨.inl h, fun other hother => ?_⟩
  obtain ⟨habove, hbelow⟩ := hstrict other hother
  refine ⟨fun hgt => (habove hgt).le, fun hlt => (hbelow hlt).le, fun hne heq => ?_⟩
  rcases Nat.lt_or_gt_of_ne hne with hlt | hgt
  · exact absurd heq (hbelow hlt).ne
  · exact absurd heq.symm (habove hgt).ne

/-! ### Numbers of digits -/

/-- A number has no digit that it does not need. -/
theorem ten_pow_le_of_length {c : Nat} (hc : c ≠ 0) : 10 ^ ((Nat.toDigits 10 c).length - 1) ≤ c := by
  rcases Nat.eq_zero_or_pos ((Nat.toDigits 10 c).length - 1) with hzero | hpos
  · rw [hzero]
    exact Nat.pos_of_ne_zero hc
  · refine Nat.not_lt.mp fun hlt => ?_
    have hle := (Nat.length_toDigits_le_iff (b := 10) (by decide) hpos).mpr hlt
    omega

theorem ne_zero_of_digits {s k : Nat} (hlow : 10 ^ (k - 1) ≤ s) (hhigh : s < 10 ^ k) : k ≠ 0 := by
  rintro rfl
  exact absurd (Nat.lt_of_le_of_lt hlow hhigh) (Nat.lt_irrefl 1)

/-! ### Decimal grids -/

namespace Binary64

/-- A power of ten, in units. -/
def gridStep (e : Int) : ℚ := 10 ^ e * unitsPerOne

theorem gridStep_pos (e : Int) : 0 < gridStep e :=
  mul_pos (zpow_pos (by norm_num) e) (Nat.cast_pos.mpr unitsPerOne_pos)

theorem gridStep_add (e : Int) (n : Nat) : gridStep (e + n) = 10 ^ n * gridStep e := by
  rw [gridStep, gridStep, zpow_add₀ (by norm_num), zpow_natCast]
  ring

variable {units : Nat}

/-- The multiples of a power of ten, in units. -/
theorem value_mul_unitsPerOne (d : Decimal) : d.value * unitsPerOne = d.digits * gridStep d.exponent := by
  rw [Decimal.value, gridStep, mul_assoc]

/-- **A decimal number reads back as a magnitude** exactly if the magnitude is the nearest one. -/
theorem round_eq_finite_iff_nearestTo {d : Decimal} {h : Representable units} :
    d.round false = .finite false units h ↔ NearestTo (d.digits * gridStep d.exponent) units := by
  rw [← value_mul_unitsPerOne]
  have hrounds := d.rounds_round false
  constructor
  · intro heq
    rw [heq] at hrounds
    cases hrounds with
    | finite _ nearest => exact nearest
  · intro hnearest
    exact hrounds.unique (.finite h hnearest)

theorem scaled_spec (units : Nat) (e : Int) :
    0 < (scaled units e).2 ∧ ((scaled units e).1 / (scaled units e).2 : ℚ) * gridStep e = units := by
  have hunit : (unitsPerOne : ℚ) ≠ 0 := Nat.cast_ne_zero.mpr unitsPerOne_pos.ne'
  cases e with
  | ofNat e =>
    refine ⟨Nat.mul_pos unitsPerOne_pos (Nat.pow_pos (by decide)), ?_⟩
    simp only [scaled, gridStep, Int.ofNat_eq_natCast, zpow_natCast]
    push_cast
    field_simp
  | negSucc e =>
    refine ⟨unitsPerOne_pos, ?_⟩
    simp only [scaled, gridStep, zpow_negSucc]
    push_cast
    field_simp

/-- The digits of a magnitude on a grid, cut off. -/
def cut (units : Nat) (e : Int) : Nat := (scaled units e).1 / (scaled units e).2

theorem cut_neg (units : Nat) {places : Nat} (h : places ≠ 0) :
    cut units (-(places : Int)) = units * 10 ^ places / unitsPerOne := by
  obtain ⟨places, rfl⟩ := Nat.exists_eq_succ_of_ne_zero h
  rfl

/-- **A magnitude lies between two neighbours of a grid.** -/
theorem cut_spec (units : Nat) (e : Int) :
    cut units e * gridStep e ≤ units ∧ (units : ℚ) < (cut units e + 1) * gridStep e := by
  obtain ⟨hpos, hvalue⟩ := scaled_spec units e
  have hden : (0 : ℚ) < (scaled units e).2 := Nat.cast_pos.mpr hpos
  have hlow : (cut units e * (scaled units e).2 : ℚ) ≤ (scaled units e).1 := by
    exact_mod_cast Nat.div_mul_le_self _ _
  have hhigh : ((scaled units e).1 : ℚ) < (cut units e + 1) * (scaled units e).2 := by
    exact_mod_cast Nat.lt_mul_of_div_lt (Nat.lt_succ_self _) hpos
  rw [← hvalue]
  refine ⟨mul_le_mul_of_nonneg_right ((le_div_iff₀ hden).mpr hlow) (gridStep_pos e).le,
    mul_lt_mul_of_pos_right ((div_lt_iff₀ hden).mpr hhigh) (gridStep_pos e)⟩

variable {h : Representable units} {e : Int}

theorem digits_of_onGrid? {d : Decimal} (hd : onGrid? units h e = some d) :
    d.exponent = e ∧ d.digits ≤ cut units e + 1 := by
  simp only [onGrid?] at hd
  split at hd
  · cases hd
    exact ⟨rfl, nearest_le _ _⟩
  split at hd
  · cases hd
    exact ⟨rfl, Nat.le_succ _⟩
  split at hd
  · cases hd
    exact ⟨rfl, Nat.le_refl _⟩
  · cases hd

/-- **Where a multiple of a power of ten reads back, one of the two neighbours does.** -/
theorem exists_onGrid? {j : Nat} (hj : NearestTo (j * gridStep e) units) :
    ∃ d, onGrid? units h e = some d := by
  obtain ⟨hlow, hhigh⟩ := cut_spec units e
  have hstep := gridStep_pos e
  have hreads : Decimal.round ⟨cut units e, e⟩ false = .finite false units h ∨
      Decimal.round ⟨cut units e + 1, e⟩ false = .finite false units h := by
    rw [round_eq_finite_iff_nearestTo, round_eq_finite_iff_nearestTo]
    rcases Nat.lt_or_ge (cut units e) j with hlt | hge
    · have hcast : (cut units e + 1 : ℚ) ≤ j := by exact_mod_cast hlt
      refine .inr (NearestTo.of_between (.self h) hj ?_ ?_) 
      · push_cast
        exact hhigh.le
      · push_cast
        exact mul_le_mul_of_nonneg_right hcast hstep.le
    · have hcast : (j : ℚ) ≤ cut units e := by exact_mod_cast hge
      exact .inl (NearestTo.of_between hj (.self h) (mul_le_mul_of_nonneg_right hcast hstep.le) hlow)
  simp only [onGrid?]
  split
  · exact ⟨_, rfl⟩
  split
  · exact ⟨_, rfl⟩
  split
  · exact ⟨_, rfl⟩
  · next hbelow habove =>
    rcases hreads with hreads | hreads
    · exact absurd (beq_iff_eq.mpr hreads) hbelow
    · exact absurd (beq_iff_eq.mpr hreads) habove

/-! ### The search -/

theorem gridStep_mono {e e' : Int} (hle : e ≤ e') : gridStep e ≤ gridStep e' :=
  mul_le_mul_of_nonneg_right (zpow_le_zpow_right₀ (by norm_num) hle) (Nat.cast_nonneg _)

/-- **The places before the point of a magnitude** place it between two powers of ten. -/
theorem placesOf_spec (hunits : units ≠ 0) :
    gridStep (placesOf units - 1) ≤ units ∧ (units : ℚ) < gridStep (placesOf units) := by
  have hplaces : placesOf units = (Nat.toDigits 10 (cut units (-(324 : Nat)))).length - 324 := by
    rw [placesOf, ← cut_neg units (by decide)]
  obtain ⟨hlow, hhigh⟩ := cut_spec units (-(324 : Nat))
  generalize cut units (-(324 : Nat)) = c at hplaces hlow hhigh
  have hstep : gridStep (-(324 : Nat)) ≤ 1 := by
    have hunit : unitsPerOne ≤ 10 ^ 324 := by decide +kernel
    have hbound : (unitsPerOne : ℚ) ≤ (10 ^ 324 : Nat) := Nat.cast_le.mpr hunit
    rw [Nat.cast_pow, Nat.cast_ofNat] at hbound
    rw [gridStep, zpow_neg, inv_mul_le_iff₀ (zpow_pos (by norm_num) _), mul_one]
    exact hbound
  have hpos := gridStep_pos (-(324 : Nat))
  have hc : c ≠ 0 := by
    rintro rfl
    have hone : (1 : ℚ) ≤ units := Nat.one_le_cast.mpr (Nat.pos_of_ne_zero hunits)
    rw [Nat.cast_zero, zero_add, one_mul] at hhigh
    linarith
  obtain ⟨length, hlength⟩ := Nat.exists_eq_add_of_le' (Nat.length_toDigits_pos (b := 10) (n := c))
  have hmost : c < 10 ^ (length + 1) :=
    (Nat.length_toDigits_le_iff (b := 10) (by decide) (Nat.succ_pos _)).mp (Nat.le_of_eq hlength)
  have hleast := ten_pow_le_of_length hc
  rw [hlength, Nat.add_sub_cancel] at hleast
  have hmost' : (c + 1 : ℚ) ≤ 10 ^ (length + 1) := by exact_mod_cast hmost
  have hleast' : (10 ^ length : ℚ) ≤ c := by exact_mod_cast hleast
  rw [hlength] at hplaces
  have hfirst : placesOf units - 1 = -(324 : Nat) + length := by omega
  have hlast : placesOf units = -(324 : Nat) + (length + 1 : Nat) := by omega
  rw [hfirst, hlast, gridStep_add, gridStep_add]
  exact ⟨(mul_le_mul_of_nonneg_right hleast' hpos.le).trans hlow,
    hhigh.trans_le (mul_le_mul_of_nonneg_right hmost' hpos.le)⟩

/-- On the grid of so many digits a magnitude has no more. -/
theorem cut_lt (hunits : units ≠ 0) (k : Nat) : cut units (placesOf units - k) < 10 ^ k := by
  have hstep := gridStep_add (placesOf units - k) k
  rw [Int.sub_add_cancel] at hstep
  have hlt := ((cut_spec units (placesOf units - k)).1.trans_lt (placesOf_spec hunits).2)
  rw [hstep] at hlt
  exact_mod_cast lt_of_mul_lt_mul_right hlt (gridStep_pos _).le

/-- **Seventeen digits suffice.** -/
theorem exists_onGrid?_seventeen (hunits : units ≠ 0) :
    ∃ d, onGrid? units h (placesOf units - 17) = some d := by
  have hstep : gridStep (placesOf units - 1) = 10 ^ 16 * gridStep (placesOf units - 17) := by
    rw [← gridStep_add]
    congr 1
    omega
  have hfine := (placesOf_spec hunits).1
  obtain ⟨hlow, hhigh⟩ := cut_spec units (placesOf units - 17)
  rw [hstep] at hfine
  generalize hc : cut units (placesOf units - 17) = c at hlow hhigh
  generalize hgrid : gridStep (placesOf units - 17) = step at *
  rcases le_total (2 * units : ℚ) ((2 * c + 1) * step) with hbelow | habove
  · refine exists_onGrid? (j := c) (nearestTo_of_close h ?_)
    rw [hgrid, abs_of_nonpos (by linarith)]
    linarith
  · refine exists_onGrid? (j := c + 1) (nearestTo_of_close h ?_)
    rw [hgrid, Nat.cast_add_one, abs_of_nonneg (by linarith)]
    linarith

/-- **The search comes to the first grid on which a magnitude reads back.** -/
theorem shortest_spec (hunits : units ≠ 0) : ∃ m < 17,
    onGrid? units h (placesOf units - (m + 1 : Nat)) = some (shortest units h) ∧
      ∀ i < m, onGrid? units h (placesOf units - (i + 1 : Nat)) = none := by
  rw [shortest]
  rcases hfound : (List.range 17).findSome? fun (n : Nat) =>
      onGrid? units h (placesOf units - (n + 1)) with _ | d
  · obtain ⟨d, hd⟩ := exists_onGrid?_seventeen (h := h) hunits
    have hnone := List.findSome?_eq_none_iff.mp hfound 16 (List.mem_range.mpr (by decide))
    cases hnone.symm.trans hd
  · obtain ⟨before, m, after, hrange, hm, hbefore⟩ := List.findSome?_eq_some_iff.mp hfound
    have hsorted := List.pairwise_lt_range (n := 17)
    have hmem : ∀ i, i < 17 ↔ i ∈ before ++ m :: after := fun i => by rw [← hrange, List.mem_range]
    rw [hrange, List.pairwise_append] at hsorted
    refine ⟨m, (hmem m).mpr (by simp), hm, fun i hi => hbefore i ?_⟩
    have hlast : m < 17 := (hmem m).mpr (by simp)
    rcases List.mem_append.mp ((hmem i).mp (Nat.lt_trans hi hlast)) with hi' | hi'
    · exact hi'
    · rcases List.mem_cons.mp hi' with rfl | hi'
      · exact absurd hi (Nat.lt_irrefl i)
      · exact absurd ((List.pairwise_cons.mp hsorted.2.1).1 i hi') (Nat.lt_asymm hi)

/-- **Where so many digits read back, the grid of so many digits does.** -/
theorem exists_onGrid?_of_digits (hunits : units ≠ 0) {s k : Nat} (hs : s < 10 ^ k) (hpos : 0 < k)
    {e : Int} (hreads : NearestTo (s * gridStep e) units) :
    ∃ d, onGrid? units h (placesOf units - k) = some d := by
  have hstep := gridStep_add (placesOf units - k)
  rcases le_or_gt (placesOf units - k) e with hle | hlt
  · obtain ⟨n, hn⟩ : ∃ n : Nat, e = placesOf units - k + n :=
      ⟨(e - (placesOf units - k)).toNat, by omega⟩
    refine exists_onGrid? (j := s * 10 ^ n) ?_
    rwa [hn, hstep, ← mul_assoc, ← Nat.cast_ofNat, ← Nat.cast_pow, ← Nat.cast_mul] at hreads
  · -- the digits lie below the power of ten below the magnitude
    obtain ⟨j, rfl⟩ : ∃ j, k = j + 1 := ⟨k - 1, by omega⟩
    have hpower : gridStep (placesOf units - 1) =
        (10 ^ j : Nat) * gridStep (placesOf units - (j + 1 : Nat)) := by
      rw [Nat.cast_pow, Nat.cast_ofNat, ← hstep]
      congr 1
      omega
    refine exists_onGrid? (j := 10 ^ j) (.of_between hreads (.self h) ?_ ?_)
    · rw [← hpower]
      calc (s * gridStep e : ℚ) ≤ 10 ^ (j + 1) * gridStep e :=
            mul_le_mul_of_nonneg_right (by exact_mod_cast hs.le) (gridStep_pos e).le
        _ = gridStep (e + (j + 1 : Nat)) := (gridStep_add e (j + 1)).symm
        _ ≤ gridStep (placesOf units - 1) := gridStep_mono (by omega)
    · rw [← hpower]
      exact (placesOf_spec hunits).1

/-! ### The digits of a number -/

/-- **The digits that a number is written with**: `s` has `k` digits, which stand for the number if
the point is put behind `n` places, and no fewer digits stand for it. -/
structure Shortest (x : Binary64) (s k : Nat) (n : Int) : Prop where
  /-- There is no zero before the digits. -/
  low : 10 ^ (k - 1) ≤ s
  /-- There are so many of them. -/
  high : s < 10 ^ k
  /-- They stand for the number. -/
  reads : x.Rounds false (s * 10 ^ (n - k))
  /-- No fewer do. -/
  fewest : ∀ (s' k' : Nat) (n' : Int), 10 ^ (k' - 1) ≤ s' → s' < 10 ^ k' →
    x.Rounds false (s' * 10 ^ (n' - k')) → k ≤ k'

/-- **The text of digits and a place of the point**: up to 21 places they are written out, with zeros
or a point, and so are up to 5 zeros behind the point; outside an exponent follows. -/
def layOut (s k : Nat) (n : Int) : List Char :=
  let ds := Nat.toDigits 10 s
  if k ≤ n ∧ n ≤ 21 then ds ++ List.replicate (n - k).toNat '0'
  else if 0 < n ∧ n ≤ 21 then ds.take n.toNat ++ '.' :: ds.drop n.toNat
  else if -6 < n ∧ n ≤ 0 then '0' :: '.' :: List.replicate (-n).toNat '0' ++ ds
  else
    let exponent := 'e' :: (if n - 1 < 0 then '-' else '+') :: Nat.toDigits 10 (n - 1).natAbs
    if k = 1 then ds ++ exponent else ds.take 1 ++ '.' :: ds.drop 1 ++ exponent

/-- **A text that a number is written with.** -/
def Prints (x : Binary64) (text : String) : Prop :=
  ∃ s k n, x.Shortest s k n ∧ text.toList = layOut s k n

namespace Shortest

variable {x : Binary64} {s k : Nat} {n : Int} (hx : x.Shortest s k n)
include hx

theorem s_ne_zero : s ≠ 0 :=
  Nat.pos_iff_ne_zero.mp (Nat.lt_of_lt_of_le (Nat.pow_pos (by decide)) hx.low)

theorem length_toDigits : (Nat.toDigits 10 s).length = k := by
  have hk := (ne_zero_of_digits hx.low hx.high)
  refine Nat.le_antisymm ((Nat.length_toDigits_le_iff (by decide) (by omega)).mpr hx.high) ?_
  by_contra hless
  have hle := (Nat.length_toDigits_le_iff (b := 10) (n := s) (k := k - 1) (by decide) (by
    have := Nat.length_toDigits_pos (b := 10) (n := s)
    omega)).mp (by omega)
  exact absurd hx.low (Nat.not_le.mpr hle)

/-- The last digit is no zero, or there would be fewer. -/
theorem not_dvd : ¬ 10 ∣ s := by
  rintro ⟨s', rfl⟩
  have hpos := hx.s_ne_zero
  obtain ⟨j, rfl⟩ : ∃ j, k = j + 1 := Nat.exists_eq_succ_of_ne_zero (ne_zero_of_digits hx.low hx.high)
  have hlow : 10 ^ (j - 1) ≤ s' := by
    have hlow := hx.low
    cases j with
    | zero =>
      rw [Nat.zero_sub, Nat.pow_zero]
      omega
    | succ i =>
      rw [Nat.add_sub_cancel, Nat.pow_succ'] at hlow
      exact Nat.le_of_mul_le_mul_left hlow (by decide)
  have hhigh : s' < 10 ^ j := by
    have hhigh := hx.high
    rw [Nat.pow_succ'] at hhigh
    exact Nat.lt_of_mul_lt_mul_left hhigh
  have hvalue : (s' * 10 ^ (n - j) : ℚ) = (10 * s' : Nat) * 10 ^ (n - (j + 1 : Nat)) := by
    have hsplit : n - j = n - (j + 1 : Nat) + 1 := by omega
    rw [hsplit, zpow_add_one₀ (by norm_num)]
    push_cast
    ring
  have hless := hx.fewest s' j n hlow hhigh (hvalue ▸ hx.reads)
  omega

end Shortest

end Binary64

/-! ### Layout -/

namespace Decimal

variable (layout : Layout)

/-- A zero at the end of the digits is not written. -/
theorem render_mul_ten {digits : Nat} (hdigits : digits ≠ 0) (exponent : Int) :
    render layout ⟨digits * 10, exponent⟩ = render layout ⟨digits, exponent + 1⟩ := by
  have happend := Nat.toDigits_append_toDigits (b := 10) (n := digits) (d := 0) (by decide)
    (Nat.pos_of_ne_zero hdigits) (by decide)
  have hzeros : dropZeros (Nat.toDigits 10 (digits * 10)) = dropZeros (Nat.toDigits 10 digits) := by
    rw [Nat.mul_comm, ← Nat.add_zero (10 * digits), ← happend, dropZeros, List.reverse_append]
    rfl
  simp only [render, places_mul_ten hdigits, hzeros]

theorem render_mul_ten_pow {digits : Nat} (hdigits : digits ≠ 0) (zeros : Nat) (exponent : Int) :
    render layout ⟨digits * 10 ^ zeros, exponent⟩ = render layout ⟨digits, exponent + zeros⟩ := by
  induction zeros generalizing exponent with
  | zero => simp
  | succ zeros ih =>
    have hne : digits * 10 ^ zeros ≠ 0 :=
      Nat.mul_ne_zero hdigits (Nat.pos_iff_ne_zero.mp (Nat.pow_pos (by decide)))
    rw [Nat.pow_succ, ← Nat.mul_assoc, render_mul_ten layout hne, ih]
    congr 2
    omega

theorem dropZeros_toDigits {s : Nat} (h : ¬ 10 ∣ s) :
    dropZeros (Nat.toDigits 10 s) = Nat.toDigits 10 s := by
  have hs : s ≠ 0 := by
    rintro rfl
    exact h (Nat.dvd_zero 10)
  obtain ⟨zeros, hsignificant⟩ := exists_significant (d := ⟨s, 0⟩) hs
  have hzeros : zeros = 0 := by
    by_contra hne
    refine h ?_
    rw [show s = _ from hsignificant.digits_eq]
    exact Nat.dvd_mul_left_of_dvd (Nat.dvd_of_pow_dvd (Nat.pos_of_ne_zero hne) (Nat.dvd_refl _)) _
  obtain ⟨count, hcount⟩ := exists_dropZeros (Nat.toDigits 10 s)
  have hlength := congrArg List.length hcount
  have hlength' : (Nat.toDigits 10 s).length = (dropZeros (Nat.toDigits 10 s)).length + zeros :=
    hsignificant.length_eq
  rw [List.length_append, List.length_replicate] at hlength
  have hnone : count = 0 := by
    rw [hzeros] at hlength'
    omega
  rw [hnone, List.replicate_zero, List.append_nil] at hcount
  exact hcount.symm

end Decimal

namespace Binary64

/-- **Digits are laid out as the standard layout has it.** -/
theorem layOut_eq {s k : Nat} (hs : ¬ 10 ∣ s) (hlength : (Nat.toDigits 10 s).length = k) (n : Int) :
    layOut s k n = Decimal.render Layout.standard ⟨s, n - k⟩ := by
  have hplaces : Decimal.places ⟨s, n - k⟩ = n := by
    show ((Nat.toDigits 10 s).length : Int) + (n - k) = n
    omega
  have hne : Nat.toDigits 10 s ≠ [] := Nat.toDigits_ne_nil
  rw [layOut, Decimal.render, hplaces, Decimal.dropZeros_toDigits hs]
  generalize Nat.toDigits 10 s = ds at hlength hne
  subst hlength
  simp only [Layout.standard]
  by_cases hpositional : 0 < n ∧ n ≤ 21
  · have hwhole : (n - 1).toNat + 1 = n.toNat := by omega
    have hbefore : ¬ n - 1 < 0 := by omega
    rw [if_neg (show ¬ (n - 1 < -6 ∨ 20 < n - 1) by omega), hwhole]
    by_cases hlong : ds.length ≤ n
    · rw [if_pos ⟨hlong, hpositional.2⟩, if_neg hbefore, List.take_of_length_le (by omega),
        List.drop_of_length_le (by omega), show (n - ds.length).toNat = n.toNat - ds.length by omega]
      exact (List.append_nil _).symm
    · have hdrop : ds.drop n.toNat ≠ [] := by
        rw [ne_eq, List.drop_eq_nil_iff]
        omega
      rw [if_neg (by omega), if_pos hpositional, if_neg hbefore, Decimal.pointed_eq hdrop,
        show n.toNat - ds.length = 0 by omega, List.replicate_zero, List.append_nil]
  · rw [if_neg (show ¬ ((ds.length : Int) ≤ n ∧ n ≤ 21) by
      have := List.length_pos_iff.mpr hne
      omega), if_neg hpositional]
    by_cases hsmall : -6 < n ∧ n ≤ 0
    · rw [if_pos hsmall, if_neg (show ¬ (n - 1 < -6 ∨ 20 < n - 1) by omega),
        if_pos (show n - 1 < 0 by omega), show -(n - 1) - 1 = -n by omega]
    · rw [if_neg hsmall, if_pos (show n - 1 < -6 ∨ 20 < n - 1 by omega)]
      obtain ⟨first, rest, rfl⟩ := List.exists_cons_of_ne_nil hne
      cases rest with
      | nil => rfl
      | cons second rest => rfl

/-- **A text that a number is written with reads back**, whichever it is. -/
theorem Shortest.read?_layOut {x : Binary64} {s k : Nat} {n : Int} (hx : x.Shortest s k n) :
    Literal.decimal? (layOut s k n) = some x ∧ ∀ c ∈ layOut s k n, Literal.isPart c = true := by
  have hs := hx.s_ne_zero
  have hvalue : Decimal.value ⟨s, n - k⟩ = s * 10 ^ (n - k) := rfl
  have hread : Literal.decimal? (Decimal.render Layout.standard ⟨s, n - k⟩) =
      some (Decimal.round ⟨s, n - k⟩ false) := Decimal.decimal?_signed (d := ⟨s, n - k⟩) hs false
  have hround : Decimal.round ⟨s, n - k⟩ false = x :=
    (Decimal.rounds_round ⟨s, n - k⟩ false).unique (hvalue ▸ hx.reads)
  rw [layOut_eq hx.not_dvd hx.length_toDigits n]
  refine ⟨?_, fun c hc => Decimal.isPart_of_mem_render (d := ⟨s, n - k⟩) hs hc⟩
  rw [hread, hround]

/-- The digits of a magnitude on a grid of so many digits have no more, or are a power of ten. -/
theorem digits_shortest_le {units : Nat} {h : Representable units} (hunits : units ≠ 0) {k : Nat}
    (hd : onGrid? units h (placesOf units - k) = some (shortest units h)) :
    (shortest units h).digits ≤ 10 ^ k :=
  Nat.le_trans (digits_of_onGrid? hd).2 (cut_lt hunits k)

/-- **The text of a positive number is one that it is written with**: no shorter digits read back. -/
theorem prints_text {units : Nat} (h : Representable units) (hunits : units ≠ 0) :
    (finite false units h).Prints (finite false units h).text := by
  obtain ⟨m, -, hm, hnone⟩ := shortest_spec (h := h) hunits
  have hdigits := digits_shortest_le hunits hm
  have hround := round_shortest hunits h false
  have htext : (finite false units h).text.toList = (shortest units h).render Layout.standard := by
    rw [text, if_neg hunits, String.toList_ofList, if_neg Bool.false_ne_true]
  obtain ⟨zeros, s, hs, hsplit⟩ := Nat.exists_eq_pow_mul_and_not_dvd
    (digits_shortest_ne_zero hunits h) 10 (by decide)
  generalize hd : shortest units h = d at *
  obtain ⟨digits, exponent⟩ := d
  rw [Nat.mul_comm] at hsplit
  obtain rfl : digits = s * 10 ^ zeros := hsplit
  have hne : s ≠ 0 := by
    rintro rfl
    exact hs (Nat.dvd_zero 10)
  rw [Decimal.render_mul_ten_pow _ hne] at htext
  rw [Decimal.round_mul_ten_pow hne] at hround
  have hpos := Nat.length_toDigits_pos (b := 10) (n := s)
  have hpower : ((Nat.toDigits 10 s).length + (exponent + zeros) : Int) - (Nat.toDigits 10 s).length =
      exponent + zeros := by omega
  refine ⟨s, (Nat.toDigits 10 s).length, (Nat.toDigits 10 s).length + (exponent + zeros), ⟨?_, ?_, ?_, ?_⟩, ?_⟩
  · exact ten_pow_le_of_length hne
  · exact (Nat.length_toDigits_le_iff (by decide) hpos).mp (Nat.le_refl _)
  · have hrounds := Decimal.rounds_round ⟨s, exponent + zeros⟩ false
    rw [hround] at hrounds
    rwa [hpower]
  · intro s' k' n' hlow hhigh hreads
    obtain ⟨i, rfl⟩ := Nat.exists_eq_succ_of_ne_zero (ne_zero_of_digits hlow hhigh)
    have hfew : s < 10 ^ (m + 1) := by
      have hle : s ≤ s * 10 ^ zeros := Nat.le_mul_of_pos_right s (Nat.pow_pos (by decide))
      refine Nat.lt_of_le_of_ne (Nat.le_trans hle hdigits) ?_
      rintro rfl
      exact hs (Nat.pow_succ' ▸ Nat.dvd_mul_right _ _)
    refine Nat.le_trans ((Nat.length_toDigits_le_iff (by decide) (Nat.succ_pos m)).mpr hfew) ?_
    by_contra hless
    cases hreads with
    | finite _ nearest =>
      rw [mul_assoc, ← gridStep] at nearest
      obtain ⟨d, hd⟩ := exists_onGrid?_of_digits (h := h) hunits hhigh (Nat.succ_pos i) nearest
      cases (hnone i (by omega)).symm.trans hd
  · rw [htext, layOut_eq hs rfl, hpower]

/-- Beyond `2 ^ 53` the digits are those that are needed, and zeros. -/
example : (ofNat (2 ^ 60)).text = "1152921504606847000" := by decide +kernel

end Binary64

end Balancer
