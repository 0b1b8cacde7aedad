import Balancer.Proofs.Election
import Mathlib.Algebra.BigOperators.Group.Finset.Basic
import Mathlib.Algebra.BigOperators.Group.List.Basic
import Mathlib.Algebra.BigOperators.Ring.List
import Mathlib.Algebra.GCDMonoid.Multiset
import Mathlib.Algebra.GCDMonoid.Nat
import Mathlib.Algebra.Order.BigOperators.Group.Finset
import Mathlib.Algebra.Order.BigOperators.Group.List
import Mathlib.Algebra.Ring.Nat

/-!
# Proportions of an election sequence

The reduction is found by a search through the divisors of the least weight only. It is the
greatest common divisor of all weights nevertheless, and so an election sequence is the shortest
one in which the targets stand in proportion to their weights.

* `Balancer.Weight.mem_properDivisors`, `Balancer.Weight.pairwise_properDivisors` – **the
  divisors of a number**, all of them, the greatest first.
* `Balancer.Weight.reduction_eq_gcd` – **the reduction is the greatest common divisor.**
* `Balancer.Weight.round_quotient` – where it divides, a quotient of floating-point numbers is
  exact.
* `Balancer.Weight.Proportional` – **targets in proportion to their weights**;
  `Balancer.Weight.le_length_of_proportional` says how long such a sequence is at least.
* `Balancer.Weight.expand_proportional` – **the blocks of an election sequence**, and that no
  shorter sequence has the same proportions.
-/

namespace Balancer.Weight

/-! ### Divisors -/

theorem mem_divisorsUpTo {n bound d : Nat} :
    d ∈ divisorsUpTo n bound ↔ 1 ≤ d ∧ d ≤ bound ∧ d ∣ n := by
  induction bound with
  | zero =>
    simp only [divisorsUpTo, List.not_mem_nil, false_iff]
    omega
  | succ bound ih =>
    have hlast : d ≤ bound + 1 ↔ d = bound + 1 ∨ d ≤ bound := by omega
    rw [divisorsUpTo]
    split
    · next hdvd =>
      rw [List.mem_cons, ih, hlast]
      constructor
      · rintro (rfl | ⟨hone, hle, hd⟩)
        · exact ⟨Nat.succ_pos bound, .inl rfl, Nat.dvd_of_mod_eq_zero hdvd⟩
        · exact ⟨hone, .inr hle, hd⟩
      · rintro ⟨hone, heq | hle, hd⟩
        · exact .inl heq
        · exact .inr ⟨hone, hle, hd⟩
    · next hdvd =>
      rw [ih, hlast]
      refine and_congr_right fun _ => ⟨fun h => ⟨.inr h.1, h.2⟩, ?_⟩
      rintro ⟨rfl | hle, hd⟩
      · exact absurd (Nat.mod_eq_zero_of_dvd hd) hdvd
      · exact ⟨hle, hd⟩

theorem pairwise_divisorsUpTo (n bound : Nat) : (divisorsUpTo n bound).Pairwise (· > ·) := by
  induction bound with
  | zero => exact .nil
  | succ bound ih =>
    rw [divisorsUpTo]
    split
    · refine .cons (fun d hd => ?_) ih
      obtain ⟨-, hle, -⟩ := mem_divisorsUpTo.mp hd
      exact Nat.lt_succ_of_le hle
    · exact ih

/-- **All divisors of a number above 1 are found**: there is none between its half and itself. -/
theorem mem_properDivisors {n d : Nat} (h : 2 ≤ n) : d ∈ properDivisors n ↔ d ∣ n := by
  rw [properDivisors, if_neg (by omega), List.mem_cons, mem_divisorsUpTo]
  constructor
  · rintro (rfl | ⟨-, -, hd⟩)
    · exact Nat.dvd_refl d
    · exact hd
  · rintro ⟨q, rfl⟩
    have hd : 1 ≤ d := Nat.pos_of_ne_zero (by rintro rfl; omega)
    rcases Nat.lt_or_ge q 2 with hq | hq
    · have hone : q = 1 := by
        rcases Nat.eq_zero_or_pos q with rfl | hpos <;> omega
      exact .inl (by rw [hone, Nat.mul_one])
    · refine .inr ⟨hd, ?_, Nat.dvd_mul_right d q⟩
      rw [Nat.le_div_iff_mul_le (by omega)]
      exact Nat.mul_le_mul_left d hq

/-- **The greatest divisor comes first.** -/
theorem pairwise_properDivisors (n : Nat) : (properDivisors n).Pairwise (· > ·) := by
  rw [properDivisors]
  split
  · exact .nil
  · refine .cons (fun d hd => ?_) (pairwise_divisorsUpTo n (n / 2))
    obtain ⟨-, hle, -⟩ := mem_divisorsUpTo.mp hd
    omega

/-! ### The greatest common divisor -/

/-- The first of a falling list with some property is the greatest one with it. -/
theorem le_of_find?_eq_some {l : List Nat} {p : Nat → Bool} {d d' : Nat}
    (hl : l.Pairwise (· > ·)) (hfind : l.find? p = some d) (hmem : d' ∈ l) (hp : p d' = true) :
    d' ≤ d := by
  obtain ⟨-, before, after, rfl, hbefore⟩ := List.find?_eq_some_iff_append.mp hfind
  rcases List.mem_append.mp hmem with hfirst | hrest
  · exact absurd hp (by simpa using hbefore d' hfirst)
  · rcases List.mem_cons.mp hrest with rfl | hafter
    · exact Nat.le_refl d'
    · have hfalls := (List.pairwise_append.mp hl).2.1
      exact Nat.le_of_lt (List.rel_of_pairwise_cons hfalls hafter)

/-- **The reduction is the greatest common divisor of the weights**, although only the divisors
of the least one are searched. -/
theorem reduction_eq_gcd {weights : List Nat} (hne : weights ≠ [])
    (hpos : ∀ weight ∈ weights, 1 ≤ weight) :
    reduction weights = (weights : Multiset Nat).gcd := by
  have hdvd : reduction weights ∣ (weights : Multiset Nat).gcd :=
    Multiset.dvd_gcd.mpr fun weight h => reduction_dvd (Multiset.mem_coe.mp h)
  obtain ⟨least, hleast⟩ : ∃ least, weights.min? = some least :=
    Option.isSome_iff_exists.mp (List.isSome_min?_of_ne_nil hne)
  have hmem : least ∈ weights := List.min?_mem hleast
  have hgcd : ∀ weight ∈ weights, (weights : Multiset Nat).gcd ∣ weight :=
    fun weight h => Multiset.gcd_dvd (Multiset.mem_coe.mpr h)
  have hgcdpos : 0 < (weights : Multiset Nat).gcd :=
    Nat.pos_of_dvd_of_pos (hgcd least hmem) (hpos least hmem)
  refine Nat.le_antisymm (Nat.le_of_dvd hgcdpos hdvd) ?_
  rcases Nat.lt_or_ge least 2 with hone | htwo
  · -- nothing but 1 divides the least weight
    have hle : (weights : Multiset Nat).gcd ≤ least :=
      Nat.le_of_dvd (hpos least hmem) (hgcd least hmem)
    have hred : 0 < reduction weights := Nat.pos_of_dvd_of_pos hdvd hgcdpos
    omega
  · -- the greatest common divisor is one of those searched, and has what is searched for
    have hsearched : (weights : Multiset Nat).gcd ∈ properDivisors least :=
      (mem_properDivisors htwo).mpr (hgcd least hmem)
    have hall : (weights.all fun w => w % (weights : Multiset Nat).gcd == 0) = true := by
      refine List.all_eq_true.mpr fun weight h => ?_
      exact beq_iff_eq.mpr (Nat.mod_eq_zero_of_dvd (hgcd weight h))
    unfold reduction
    dsimp only
    rw [hleast, Option.getD_some]
    rcases hfind : (properDivisors least).find? fun d => weights.all fun w => w % d == 0 with _ | d
    · exact absurd hall (List.find?_eq_none.mp hfind _ hsearched)
    · exact le_of_find?_eq_some (p := fun d => weights.all fun w => w % d == 0)
        (pairwise_properDivisors least) hfind hsearched hall

/-! ### Exact quotients -/

/-- A quotient that is a magnitude of the format is its own rounding. -/
theorem roundUnits_mul {units den : Nat} (hden : 0 < den) (h : Representable units) :
    roundUnits (units * den) den = units := by
  obtain ⟨significand, hunits⟩ := h.1
  have hquotient : units * den / den = units := Nat.mul_div_cancel units hden
  have hscaled : 0 < den * 2 ^ (units.log2 - 52) := Nat.mul_pos hden (Nat.two_pow_pos _)
  have hnum : units * den = significand * (den * 2 ^ (units.log2 - 52)) := by
    calc units * den
        = significand * 2 ^ (units.log2 - 52) * den := by rw [Nat.mul_comm significand, ← hunits]
      _ = significand * (den * 2 ^ (units.log2 - 52)) := by
        rw [Nat.mul_assoc, Nat.mul_comm (2 ^ (units.log2 - 52)) den]
  have hnearest : nearest (units * den) (den * 2 ^ (units.log2 - 52)) = significand := by
    rw [nearest, hnum, Nat.mul_mod_left, Nat.mul_div_cancel significand hscaled]
    exact if_pos hscaled
  rw [roundUnits, hquotient, hnearest, Nat.mul_comm, ← hunits]

/-- Whole numbers up to `2 ^ 53` are in the format. -/
theorem representable_whole {n : Nat} (h : n ≤ 2 ^ 53) : Representable (n * unitsPerOne) := by
  refine representable_mul_two_pow h ?_
  rw [overflowBound]
  exact Nat.mul_lt_mul_of_le_of_lt h (Nat.pow_lt_pow_right (by omega) (by decide)) (by omega)

/-- **Where it divides, a quotient of whole floating-point numbers is exact.** -/
theorem round_quotient {count factor : Nat} (hfactor : 1 ≤ factor) (h : count * factor ≤ 2 ^ 53) :
    Binary64.round false (count * factor * unitsPerOne) factor = .ofNat count ∧
      (Binary64.ofNat count).toInt? = some (count : Int) := by
  have hr : Representable (count * unitsPerOne) :=
    representable_whole (Nat.le_trans (Nat.le_mul_of_pos_right count hfactor) h)
  have hround : ∀ den, 0 < den → Binary64.round false (count * unitsPerOne * den) den =
      .finite false (count * unitsPerOne) hr := by
    intro den hden
    simp only [Binary64.round, roundUnits_mul hden hr, hr.2, dite_true]
  have hone : Binary64.ofNat count = .finite false (count * unitsPerOne) hr := by
    rw [Binary64.ofNat, ← hround 1 Nat.one_pos, Nat.mul_one]
  constructor
  · rw [hone, ← hround factor hfactor, Nat.mul_right_comm]
  · have hunit : 0 < unitsPerOne := Nat.two_pow_pos binaryPlaces
    rw [hone, Binary64.toInt?, if_pos (Nat.mul_mod_left _ _), Nat.mul_div_cancel count hunit]
    rfl

/-! ### Proportions -/

/-- **The targets of a sequence stand in proportion to their weights.** -/
def Proportional (table : Table Binary64) (sequence : List String) : Prop :=
  ∀ e ∈ table.entries, ∀ f ∈ table.entries,
    sequence.count e.1 * normalize f.2 = sequence.count f.1 * normalize e.2

/-- A target stands as often in a row of blocks as its own block is long. -/
theorem count_blocks {α : Type} (count : α → Nat) {entries : List (String × α)}
    (hnodup : (entries.map Prod.fst).Nodup) {e : String × α} (he : e ∈ entries) :
    (entries.flatMap fun e => List.replicate (count e.2) e.1).count e.1 = count e.2 := by
  induction entries with
  | nil => exact absurd he (by simp)
  | cons f rest ih =>
    rw [List.map_cons, List.nodup_cons] at hnodup
    rw [List.flatMap_cons, List.count_append, List.count_replicate]
    rcases List.mem_cons.mp he with rfl | he
    · -- no later block is of the same target
      have hrest : (rest.flatMap fun f => List.replicate (count f.2) f.1).count e.1 = 0 := by
        refine List.count_eq_zero.mpr fun hmem => ?_
        obtain ⟨f, hf, hef⟩ := List.mem_flatMap.mp hmem
        exact hnodup.1 (List.eq_of_mem_replicate hef ▸ List.mem_map_of_mem hf)
      rw [hrest, beq_self_eq_true, if_pos rfl, Nat.add_zero]
    · have hne : f.1 ≠ e.1 := fun heq => hnodup.1 (heq ▸ List.mem_map_of_mem he)
      rw [beq_false_of_ne hne, if_neg Bool.false_ne_true, Nat.zero_add, ih hnodup.2 he]

/-- Distinct targets stand in a list no more often than the list is long. -/
theorem sum_count_le_length {targets : List String} (hnodup : targets.Nodup) (l : List String) :
    (targets.map fun target => l.count target).sum ≤ l.length := by
  calc (targets.map fun target => l.count target).sum
      = ∑ target ∈ targets.toFinset, l.count target := (List.sum_toFinset _ hnodup).symm
    _ ≤ ∑ target ∈ targets.toFinset ∪ l.toFinset, l.count target :=
        Finset.sum_le_sum_of_subset Finset.subset_union_left
    _ = ∑ target ∈ targets.toFinset ∪ l.toFinset, (l : Multiset String).count target := by
        simp only [Multiset.coe_count]
    _ = l.length := Multiset.sum_count_eq_card fun target h =>
        Finset.mem_union_right _ (List.mem_toFinset.mpr (Multiset.mem_coe.mp h))

section Shortest

variable {table : Table Binary64} {count : Binary64 → Nat} {factor : Nat} {other : List String}

/-- The proportions are those of the reduced weights. -/
theorem Proportional.reduced (h : Proportional table other) (hfactor : 1 ≤ factor)
    (hcount : ∀ e ∈ table.entries, 1 ≤ count e.2 ∧ count e.2 * factor = normalize e.2) :
    ∀ e ∈ table.entries, ∀ f ∈ table.entries,
      other.count e.1 * count f.2 = other.count f.1 * count e.2 := by
  intro e he f hf
  have heq := h e he f hf
  rw [← (hcount e he).2, ← (hcount f hf).2, ← Nat.mul_assoc, ← Nat.mul_assoc] at heq
  exact Nat.eq_of_mul_eq_mul_right hfactor heq

/-- **A sequence in proportion goes through whole passes**: where the places have no common divisor,
each target stands in it a multiple of its places. -/
theorem dvd_count_of_reduced (h : ∀ e ∈ table.entries, ∀ f ∈ table.entries,
      other.count e.1 * count f.2 = other.count f.1 * count e.2)
    (hgcd : ((table.entries.map fun e => count e.2 : List Nat) : Multiset Nat).gcd = 1)
    {e : String × Binary64} (he : e ∈ table.entries) : count e.2 ∣ other.count e.1 := by
  have hall : count e.2 ∣ (((table.entries.map fun e => count e.2 : List Nat) : Multiset Nat).map
      (other.count e.1 * ·)).gcd := by
    refine Multiset.dvd_gcd.mpr fun n hn => ?_
    obtain ⟨m, hm, rfl⟩ := Multiset.mem_map.mp hn
    obtain ⟨f, hf, rfl⟩ := List.mem_map.mp (Multiset.mem_coe.mp hm)
    rw [h e he f hf]
    exact Nat.dvd_mul_left _ _
  rwa [Multiset.gcd_map_mul, hgcd, mul_one, normalize_eq] at hall

/-- **How long a sequence in proportion is at least**: the places of the targets, reduced by
their greatest common divisor. -/
theorem le_length_of_proportional (hfactor : 1 ≤ factor)
    (hcount : ∀ e ∈ table.entries, 1 ≤ count e.2 ∧ count e.2 * factor = normalize e.2)
    (hgcd : ((table.entries.map fun e => count e.2 : List Nat) : Multiset Nat).gcd = 1)
    (hother : Proportional table other) (hmem : ∃ e ∈ table.entries, e.1 ∈ other) :
    (table.entries.map fun e => count e.2).sum ≤ other.length := by
  have hreduced := hother.reduced hfactor hcount
  have hle : ∀ e ∈ table.entries, count e.2 ≤ other.count e.1 := by
    intro e he
    obtain ⟨f, hf, hin⟩ := hmem
    have hpos : 0 < other.count f.1 * count e.2 :=
      Nat.mul_pos (List.count_pos_iff.mpr hin) (hcount e he).1
    rw [← hreduced e he f hf] at hpos
    exact Nat.le_of_dvd (Nat.pos_of_mul_pos_right hpos) (dvd_count_of_reduced hreduced hgcd he)
  calc (table.entries.map fun e => count e.2).sum
      ≤ (table.entries.map fun e => other.count e.1).sum := List.sum_le_sum hle
    _ = (table.keys.map fun target => other.count target).sum := by
        rw [Table.keys, List.map_map]
        rfl
    _ ≤ other.length := sum_count_le_length table.nodup other

end Shortest

/-! ### Whole weights of a table -/

/-- **The whole weights of a table.** -/
def wholes (table : Table Binary64) : List Nat := table.entries.map fun e => normalize e.2

/-- **The places of a target** of some weight among several. -/
def share (table : Table Binary64) (weight : Binary64) : Nat :=
  normalize weight / reduction (wholes table)

variable {table : Table Binary64}

theorem mem_wholes {e : String × Binary64} (he : e ∈ table.entries) :
    normalize e.2 ∈ wholes table :=
  List.mem_map_of_mem (f := fun e : String × Binary64 => normalize e.2) he

theorem one_le_of_mem_wholes {weight : Nat} (h : weight ∈ wholes table) : 1 ≤ weight := by
  obtain ⟨e, -, rfl⟩ := List.mem_map.mp h
  exact one_le_normalize e.2

theorem wholes_ne_nil (hne : table.entries ≠ []) : wholes table ≠ [] :=
  fun h => hne (List.map_eq_nil_iff.mp h)

theorem one_le_reduction (hne : table.entries ≠ []) : 1 ≤ reduction (wholes table) := by
  obtain ⟨weight, hmem⟩ := List.exists_mem_of_ne_nil _ (wholes_ne_nil hne)
  exact Nat.pos_of_dvd_of_pos (reduction_dvd hmem) (one_le_of_mem_wholes hmem)

/-- **No target loses its places, and none of its weight is lost.** -/
theorem share_mul_reduction {e : String × Binary64} (he : e ∈ table.entries) :
    1 ≤ share table e.2 ∧ share table e.2 * reduction (wholes table) = normalize e.2 :=
  ⟨one_le_div_reduction (mem_wholes he) (one_le_normalize e.2),
    Nat.div_mul_cancel (reduction_dvd (mem_wholes he))⟩

/-- The sum of the weights is that of the places, times the reduction. -/
theorem sum_share_mul (table : Table Binary64) :
    (table.entries.map fun e => share table e.2).sum * reduction (wholes table) =
      (wholes table).sum := by
  rw [← List.sum_map_mul_right]
  exact congrArg List.sum (List.map_congr_left fun e he => (share_mul_reduction he).2)

/-- **The places of the targets have no common divisor.** -/
theorem gcd_share (hne : table.entries ≠ []) :
    ((table.entries.map fun e => share table e.2 : List Nat) : Multiset Nat).gcd = 1 := by
  have hpos : 0 < reduction (wholes table) := one_le_reduction hne
  have hscaled : (table.entries.map fun e => share table e.2).map (reduction (wholes table) * ·) =
      wholes table := by
    rw [List.map_map]
    refine List.map_congr_left fun e he => ?_
    exact (Nat.mul_comm _ _).trans (share_mul_reduction he).2
  have hgcd := reduction_eq_gcd (wholes_ne_nil hne) fun _ => one_le_of_mem_wholes
  -- what the places have in common, the weights have besides the reduction
  nth_rewrite 2 [← hscaled] at hgcd
  rw [← Multiset.map_coe, Multiset.gcd_map_mul, normalize_eq] at hgcd
  exact Nat.eq_of_mul_eq_mul_left hpos (by rw [← hgcd, Nat.mul_one])

/-! ### Election sequences -/

/-- The election sequence of several targets has a block for each. -/
theorem expand_eq_shares (hlen : 2 ≤ table.entries.length) :
    expand (table.mapValues normalize) =
      some (table.entries.flatMap fun e => List.replicate (share table e.2) e.1).toArray := by
  have hne : (table.mapValues normalize).entries ≠ [] := by
    intro hnil
    rw [List.map_eq_nil_iff.mp hnil] at hlen
    exact absurd hlen (by simp)
  have hplaces : ∀ weight, places (table.mapValues normalize) weight =
      weight / reduction (wholes table) := by
    intro weight
    have hmany : (table.mapValues normalize).entries.length ≠ 1 := by
      rw [Table.mapValues, List.length_map]
      omega
    rw [places, if_neg hmany, Table.mapValues, List.map_map]
    rfl
  rw [expand_eq_blocks hne]
  simp only [hplaces]
  rw [Table.mapValues, List.flatMap_map]
  rfl

/-- **The blocks of an election sequence.** Without a target there is no sequence, and a single
target stands once. Of several targets each has one block, in the order of the table; the blocks
are as long as the whole weights divided by one number, exactly so in floating-point numbers too,
and their lengths have no common divisor. So the length of the sequence is the sum of the whole
weights divided by their greatest common divisor, and no shorter sequence has the same
proportions. -/
theorem expand_proportional (table : Table Binary64) :
    (∀ given : Option (Table Binary64),
      (given.bind fun t => expand (t.mapValues normalize)) = none ↔ ∀ t ∈ given, t.entries = []) ∧
    (∀ target weight, table.entries = [(target, weight)] →
      expand (table.mapValues normalize) = some #[target]) ∧
    (2 ≤ table.entries.length →
      ∃ (sequence : Array String) (count : Binary64 → Nat) (factor : Nat),
        expand (table.mapValues normalize) = some sequence ∧
        sequence.toList = table.entries.flatMap (fun e => List.replicate (count e.2) e.1) ∧
        1 ≤ factor ∧
        (∀ e ∈ table.entries, 1 ≤ count e.2 ∧ count e.2 * factor = normalize e.2) ∧
        ((table.entries.map fun e => count e.2 : List Nat) : Multiset Nat).gcd = 1 ∧
        sequence.size = (wholes table).sum / (wholes table : Multiset Nat).gcd ∧
        Proportional table sequence.toList ∧
        (∀ other, Proportional table other → (∃ e ∈ table.entries, e.1 ∈ other) →
          sequence.size ≤ other.length) ∧
        ∀ e ∈ table.entries, normalize e.2 ≤ 2 ^ 53 →
          Binary64.round false (normalize e.2 * unitsPerOne) factor = .ofNat (count e.2) ∧
            (Binary64.ofNat (count e.2)).toInt? = some (count e.2 : Int)) := by
  refine ⟨fun given => ?_, fun target weight h => ?_, fun hlen => ?_⟩
  · cases given with
    | none => simp
    | some t => simp [Table.mapValues]
  · simp only [expand, Table.mapValues, h, List.map_cons, List.map_nil]
  · have hne : table.entries ≠ [] := List.ne_nil_of_length_pos (by omega)
    have hsize : (table.entries.flatMap fun e => List.replicate (share table e.2) e.1).length =
        (table.entries.map fun e => share table e.2).sum := by
      simp only [List.length_flatMap, List.length_replicate]
    have hblocks : ∀ e ∈ table.entries,
        (table.entries.flatMap fun e => List.replicate (share table e.2) e.1).count e.1 =
          share table e.2 :=
      fun e he => count_blocks (share table) table.nodup he
    refine ⟨_, share table, reduction (wholes table), expand_eq_shares hlen, rfl,
      one_le_reduction hne, fun e => share_mul_reduction, gcd_share hne, ?_, ?_, ?_, ?_⟩
    · rw [List.size_toArray, hsize, ← sum_share_mul,
        ← reduction_eq_gcd (wholes_ne_nil hne) fun _ => one_le_of_mem_wholes,
        Nat.mul_div_cancel _ (one_le_reduction hne)]
    · intro e he f hf
      rw [hblocks e he, hblocks f hf, ← (share_mul_reduction he).2, ← (share_mul_reduction hf).2,
        ← Nat.mul_assoc, ← Nat.mul_assoc, Nat.mul_comm (share table e.2)]
    · intro other hother hin
      rw [List.size_toArray, hsize]
      exact le_length_of_proportional (one_le_reduction hne) (fun e => share_mul_reduction)
        (gcd_share hne) hother hin
    · intro e he hbound
      rw [← (share_mul_reduction he).2] at hbound ⊢
      exact round_quotient (one_le_reduction hne) hbound

/-- Three targets of the weights 6, 4½ and 8: no sequence of less than nine places has their
proportions. -/
theorem expand_proportional_three :
    ∃ table : Table Binary64, 2 ≤ table.entries.length ∧
      expand (table.mapValues normalize) = some #["a", "a", "a", "b", "b", "c", "c", "c", "c"] ∧
      ∀ other, Proportional table other → (∃ e ∈ table.entries, e.1 ∈ other) →
        9 ≤ other.length := by
  let table : Table Binary64 :=
    .ofList [("a", .ofNat 6), ("b", .round false (9 * unitsPerOne) 2), ("c", .ofNat 8)]
  have hlen : 2 ≤ table.entries.length := by decide +kernel
  obtain ⟨sequence, count, factor, hsequence, -, -, -, -, -, -, hleast, -⟩ :=
    (expand_proportional table).2.2 hlen
  have hexpand : expand (table.mapValues normalize) =
      some #["a", "a", "a", "b", "b", "c", "c", "c", "c"] := by decide +kernel
  rw [hsequence] at hexpand
  cases hexpand
  exact ⟨table, hlen, hsequence, hleast⟩

end Balancer.Weight
