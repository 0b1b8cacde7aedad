import Balancer.Proofs.Reduction
import Mathlib.Tactic.Ring

/-!
# Only the ratio of weights matters

Two tables of weights for the same targets have the same election sequence exactly where their whole
weights are in proportion. A sequence shows how many places each target has; the places are the
weights in lowest terms, and these are unique.

* `Balancer.Weight.Proportionate` – two lists of numbers in proportion, place by place.
* `Balancer.Weight.eq_of_proportionate` – **lowest terms are unique.**
* `Balancer.Weight.expand_eq_expand_iff` – tables have the same sequence exactly where every target
  has as many places in both.
* `Balancer.Weight.expand_depends_on_ratio` – **the sequence depends on the ratio of the weights**,
  and shows every change of it.
-/

namespace Balancer.Weight

/-! ### Lowest terms -/

/-- **Two lists of numbers are in proportion**, place by place. -/
def Proportionate (u v : List Nat) : Prop :=
  ∀ p ∈ u.zip v, ∀ q ∈ u.zip v, p.1 * q.2 = q.1 * p.2

/-- What all numbers are multiplied by, their greatest common divisor is multiplied by. -/
theorem gcd_map_mul {α : Type} (k : Nat) (f : α → Nat) (l : List α) :
    ((l.map fun a => k * f a : List Nat) : Multiset Nat).gcd =
      k * ((l.map f : List Nat) : Multiset Nat).gcd := by
  have hscaled := Multiset.gcd_map_mul k ((l.map f : List Nat) : Multiset Nat)
  rwa [Multiset.map_coe, List.map_map, normalize_eq] at hscaled

/-- **Lowest terms are unique**: lists in proportion, neither of which has a common divisor, are the
same. -/
theorem eq_of_proportionate {u v : List Nat} (hlen : u.length = v.length)
    (h : Proportionate u v) (hu : (u : Multiset Nat).gcd = 1) (hv : (v : Multiset Nat).gcd = 1) :
    u = v := by
  have hfst : (u.zip v).map Prod.fst = u := List.map_fst_zip (Nat.le_of_eq hlen)
  have hsnd : (u.zip v).map Prod.snd = v := List.map_snd_zip (Nat.le_of_eq hlen.symm)
  have hpairs : ∀ p ∈ u.zip v, p.1 = p.2 := by
    intro p hp
    have hscaled : (u.zip v).map (fun q => p.1 * q.2) = (u.zip v).map fun q => p.2 * q.1 :=
      List.map_congr_left fun q hq => (h p hp q hq).trans (Nat.mul_comm q.1 p.2)
    calc p.1
        = p.1 * (((u.zip v).map Prod.snd : List Nat) : Multiset Nat).gcd := by
          rw [hsnd, hv, Nat.mul_one]
      _ = (((u.zip v).map fun q => p.1 * q.2 : List Nat) : Multiset Nat).gcd :=
          (gcd_map_mul p.1 Prod.snd _).symm
      _ = (((u.zip v).map fun q => p.2 * q.1 : List Nat) : Multiset Nat).gcd := by rw [hscaled]
      _ = p.2 * (((u.zip v).map Prod.fst : List Nat) : Multiset Nat).gcd :=
          gcd_map_mul p.2 Prod.fst _
      _ = p.2 := by rw [hfst, hu, Nat.mul_one]
  calc u = (u.zip v).map Prod.fst := hfst.symm
    _ = (u.zip v).map Prod.snd := List.map_congr_left hpairs
    _ = v := hsnd

/-- Multiples of one list are in proportion. -/
theorem proportionate_map_mul (k l : Nat) (shares : List Nat) :
    Proportionate (shares.map (· * k)) (shares.map (· * l)) := by
  intro p hp q hq
  rw [List.zip_map'] at hp hq
  obtain ⟨a, -, rfl⟩ := List.mem_map.mp hp
  obtain ⟨b, -, rfl⟩ := List.mem_map.mp hq
  dsimp only
  ring

/-- Factors that all numbers of a list share do not matter. -/
theorem proportionate_map_mul_iff {k l : Nat} (hk : 1 ≤ k) (hl : 1 ≤ l) {u v : List Nat} :
    Proportionate (u.map (· * k)) (v.map (· * l)) ↔ Proportionate u v := by
  have hzip : (u.map (· * k)).zip (v.map (· * l)) =
      (u.zip v).map fun p => (p.1 * k, p.2 * l) := by
    rw [List.zip_map]
    rfl
  rw [Proportionate, Proportionate, hzip]
  simp only [List.forall_mem_map]
  refine forall₂_congr fun p _ => forall₂_congr fun q _ => ?_
  have hfactor : 0 < k * l := Nat.mul_pos hk hl
  rw [show p.1 * k * (q.2 * l) = p.1 * q.2 * (k * l) by ring,
    show q.1 * k * (p.2 * l) = q.1 * p.2 * (k * l) by ring]
  exact Nat.mul_left_inj (Nat.pos_iff_ne_zero.mp hfactor)

/-! ### Places -/

/-- **The places of the targets of a table**, in its order. -/
def shares (table : Table Binary64) : List Nat := table.entries.map fun e => share table e.2

/-- The whole weights are the places times the reduction. -/
theorem wholes_eq (table : Table Binary64) :
    wholes table = (shares table).map (· * reduction (wholes table)) := by
  rw [shares, List.map_map]
  exact List.map_congr_left fun e he => (share_mul_reduction he).2.symm

/-- The blocks of an election sequence, written by the keys and the places of a table. -/
theorem expand_eq_zip {table : Table Binary64} (hlen : 2 ≤ table.entries.length) :
    expand (table.mapValues normalize) =
      some ((table.keys.zip (shares table)).flatMap fun p => List.replicate p.2 p.1).toArray := by
  rw [expand_eq_shares hlen, Table.keys, shares, List.zip_map', List.flatMap_map]

/-- **The places show in the election sequence.** -/
theorem shares_eq_counts {table : Table Binary64} {sequence : Array String}
    (hlen : 2 ≤ table.entries.length) (h : expand (table.mapValues normalize) = some sequence) :
    shares table = table.keys.map fun target => sequence.toList.count target := by
  rw [expand_eq_shares hlen, Option.some.injEq] at h
  rw [← h, shares, Table.keys, List.map_map]
  exact List.map_congr_left fun e he => (count_blocks (share table) table.nodup he).symm

section Ratio

variable {s t : Table Binary64} (hkeys : s.keys = t.keys) (hlen : 2 ≤ s.entries.length)
include hkeys hlen

theorem two_le_length_of_keys : 2 ≤ t.entries.length := by
  have hlength := congrArg List.length hkeys
  rw [Table.keys, Table.keys, List.length_map, List.length_map] at hlength
  omega

/-- **Two tables of the same targets have the same election sequence** exactly where every target
has as many places in both. -/
theorem expand_eq_expand_iff :
    expand (s.mapValues normalize) = expand (t.mapValues normalize) ↔ shares s = shares t := by
  have hlen' := two_le_length_of_keys hkeys hlen
  constructor
  · intro heq
    have hs := expand_eq_zip hlen
    rw [shares_eq_counts hlen hs, shares_eq_counts hlen' (heq ▸ hs), hkeys]
  · intro heq
    rw [expand_eq_zip hlen, expand_eq_zip hlen', hkeys, heq]

/-- **They have as many places exactly where their whole weights are in proportion.** -/
theorem shares_eq_shares_iff : shares s = shares t ↔ Proportionate (wholes s) (wholes t) := by
  have hlen' := two_le_length_of_keys hkeys hlen
  have hs : s.entries ≠ [] := List.ne_nil_of_length_pos (by omega)
  have ht : t.entries ≠ [] := List.ne_nil_of_length_pos (by omega)
  constructor
  · intro heq
    rw [wholes_eq s, wholes_eq t, heq]
    exact proportionate_map_mul _ _ _
  · intro h
    rw [wholes_eq s, wholes_eq t,
      proportionate_map_mul_iff (one_le_reduction hs) (one_le_reduction ht)] at h
    have hlength := congrArg List.length hkeys
    refine eq_of_proportionate ?_ h (gcd_share hs) (gcd_share ht)
    simpa only [shares, Table.keys, List.length_map] using hlength

end Ratio

/-! ### The theorem -/

/-- **The election sequence depends on the ratio of the weights alone, and shows every change of
it.** Two tables of weights for the same targets, at least two, in the same order have the same
sequence exactly where their whole weights are in proportion. So the sequence stays the same where
all whole weights are multiplied by one number, and where the weights are made whole before they are
put in, as a rotation does. -/
theorem expand_depends_on_ratio {s t : Table Binary64} (hkeys : s.keys = t.keys)
    (hlen : 2 ≤ s.entries.length) :
    (expand (s.mapValues normalize) = expand (t.mapValues normalize) ↔
      ∀ p ∈ (wholes s).zip (wholes t), ∀ q ∈ (wholes s).zip (wholes t), p.1 * q.2 = q.1 * p.2) ∧
    (∀ k, 1 ≤ k → wholes t = (wholes s).map (k * ·) →
      expand (t.mapValues normalize) = expand (s.mapValues normalize)) ∧
    expand ((s.mapValues whole).mapValues normalize) = expand (s.mapValues normalize) ∧
    Rotation.ofWeights (s.mapValues whole) = Rotation.ofWeights s := by
  have hiff := (expand_eq_expand_iff hkeys hlen).trans (shares_eq_shares_iff hkeys hlen)
  have hwhole : (s.mapValues whole).mapValues normalize = s.mapValues normalize := by
    refine Table.ext ?_
    simp only [Table.mapValues, List.map_map]
    exact List.map_congr_left fun e _ => by simp only [Function.comp_apply, normalize_whole]
  refine ⟨hiff, fun k hk hscaled => (hiff.mpr ?_).symm, by rw [hwhole], ?_⟩
  · have hproportion := proportionate_map_mul 1 k (wholes s)
    simp only [Nat.mul_one, List.map_id', Nat.mul_comm _ k] at hproportion
    rw [hscaled]
    exact hproportion
  · rw [Rotation.ofWeights, Rotation.ofWeights, hwhole]

/-- Weights of 2½ and 4 have the sequence of weights of 3 and 6, as their whole weights are in
proportion; weights of 2 and 3 have another. -/
theorem expand_depends_on_ratio_of_two :
    let s : Table Binary64 := .ofList [("a", .round false (5 * unitsPerOne) 2), ("b", .ofNat 4)]
    let t : Table Binary64 := .ofList [("a", .ofNat 3), ("b", .ofNat 6)]
    let u : Table Binary64 := .ofList [("a", .ofNat 2), ("b", .ofNat 3)]
    s.keys = t.keys ∧ s.keys = u.keys ∧ 2 ≤ s.entries.length ∧
      expand (s.mapValues normalize) = expand (t.mapValues normalize) ∧
      expand (s.mapValues normalize) ≠ expand (u.mapValues normalize) := by
  intro s t u
  have ht : s.keys = t.keys := by decide +kernel
  have hu : s.keys = u.keys := by decide +kernel
  have hlen : 2 ≤ s.entries.length := by decide +kernel
  have hratio : ∀ p ∈ (wholes s).zip (wholes t), ∀ q ∈ (wholes s).zip (wholes t),
      p.1 * q.2 = q.1 * p.2 := by decide +kernel
  have hother : ¬ ∀ p ∈ (wholes s).zip (wholes u), ∀ q ∈ (wholes s).zip (wholes u),
      p.1 * q.2 = q.1 * p.2 := by decide +kernel
  exact ⟨ht, hu, hlen, (expand_depends_on_ratio ht hlen).1.mpr hratio,
    fun heq => hother ((expand_depends_on_ratio hu hlen).1.mp heq)⟩

end Balancer.Weight
