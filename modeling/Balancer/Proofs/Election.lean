import Balancer.Rotation

/-!
# The targets of an election sequence

An election sequence is one block per target. What makes it usable is that no block is
empty: the reduction divides every weight, so that a weight of at least 1 leaves a block
of at least one place.

* `Balancer.Weight.reduction_dvd` – **the reduction divides every weight.**
* `Balancer.Weight.expand_eq_blocks` – a sequence is a block of
  `Balancer.Weight.places` for each target, also where the target is alone.
* `Balancer.Weight.eraseDups_expand` – **the distinct targets of a sequence, in the order of
  their first election, are the keys of the table**, in the order of the table.
-/

namespace Balancer.Weight

/-! ### The reduction -/

/-- **The reduction divides every weight.** -/
theorem reduction_dvd {weights : List Nat} {weight : Nat} (h : weight ∈ weights) :
    reduction weights ∣ weight := by
  unfold reduction
  dsimp only
  rcases hfind : (properDivisors (weights.min?.getD 1)).find? fun d =>
    weights.all fun w => w % d == 0 with _ | d
  · exact Nat.one_dvd weight
  · have hall : (weights.all fun w => w % d == 0) = true :=
      List.find?_some (p := fun d => weights.all fun w => w % d == 0) hfind
    exact Nat.dvd_of_mod_eq_zero (by simpa using List.all_eq_true.mp hall weight h)

/-- A weight of at least 1 is at least 1 after the reduction. -/
theorem one_le_div_reduction {weights : List Nat} {weight : Nat} (h : weight ∈ weights)
    (hpos : 1 ≤ weight) : 1 ≤ weight / reduction weights := by
  have hdvd : reduction weights ∣ weight := reduction_dvd h
  exact Nat.div_pos (Nat.le_of_dvd hpos hdvd) (Nat.pos_of_dvd_of_pos hdvd hpos)

/-! ### Blocks -/

/-- **The places that a target of some weight has in the election sequence** of a table. -/
def places (table : Table Nat) (weight : Nat) : Nat :=
  if table.entries.length = 1 then 1 else weight / reduction (table.entries.map Prod.snd)

/-- Every target has a place, if all weights are at least 1. -/
theorem one_le_places {table : Table Nat} (hpos : ∀ e ∈ table.entries, 1 ≤ e.2)
    {e : String × Nat} (he : e ∈ table.entries) : 1 ≤ places table e.2 := by
  rw [places]
  split
  · exact Nat.le_refl 1
  · exact one_le_div_reduction (List.mem_map_of_mem he) (hpos e he)

/-- Without a target there is no sequence, and there is one as soon as there is a target. -/
@[simp] theorem expand_eq_none_iff {table : Table Nat} : expand table = none ↔ table.entries = [] := by
  rw [expand]
  split <;> simp_all

/-- **A sequence is one block per target**, in the order of the table. -/
theorem expand_eq_blocks {table : Table Nat} (h : table.entries ≠ []) :
    expand table = some (table.entries.flatMap fun e =>
      List.replicate (places table e.2) e.1).toArray := by
  unfold expand places
  split
  · next hnil => exact absurd hnil h
  · next hone => simp [hone]
  · next hmany =>
    have hlen : table.entries.length ≠ 1 := fun hlen => by
      obtain ⟨e, he⟩ := List.length_eq_one_iff.mp hlen
      exact hmany e.1 e.2 he
    simp only [if_neg hlen]

/-! ### Distinct targets -/

/-- The first element of a block is the only one that is new. -/
theorem eraseDups_replicate (target : String) {n : Nat} (h : 1 ≤ n) :
    (List.replicate n target).eraseDups = [target] := by
  cases n with
  | zero => omega
  | succ n => simp [List.replicate_succ, List.eraseDups_cons]

/-- **Blocks of distinct targets, none of them empty, have the targets as their distinct
elements**, in the order of the blocks. -/
theorem eraseDups_blocks (count : Nat → Nat) {entries : List (String × Nat)}
    (hnodup : (entries.map Prod.fst).Nodup) (hcount : ∀ e ∈ entries, 1 ≤ count e.2) :
    (entries.flatMap fun e => List.replicate (count e.2) e.1).eraseDups =
      entries.map Prod.fst := by
  induction entries with
  | nil => rfl
  | cons e rest ih =>
    rw [List.map_cons, List.nodup_cons] at hnodup
    have hrest := ih hnodup.2 fun f hf => hcount f (List.mem_cons_of_mem e hf)
    -- no later block repeats the target of this one
    have hkeep : (rest.flatMap fun f => List.replicate (count f.2) f.1).removeAll
        (List.replicate (count e.2) e.1) = rest.flatMap fun f => List.replicate (count f.2) f.1 := by
      refine List.filter_eq_self.mpr fun target htarget => ?_
      obtain ⟨f, hf, hft⟩ := List.mem_flatMap.mp htarget
      have htf : target = f.1 := List.eq_of_mem_replicate hft
      have hne : target ≠ e.1 := by
        rintro rfl
        exact hnodup.1 (htf ▸ List.mem_map_of_mem hf)
      simp [hne]
    rw [List.flatMap_cons, List.eraseDups_append, hkeep, hrest,
      eraseDups_replicate e.1 (hcount e List.mem_cons_self)]
    rfl

/-- **The distinct targets of a sequence are the keys of the table.** -/
theorem eraseDups_expand {table : Table Nat} {sequence : Array String}
    (hpos : ∀ e ∈ table.entries, 1 ≤ e.2) (h : expand table = some sequence) :
    sequence.toList.eraseDups = table.keys := by
  have hne : table.entries ≠ [] := fun hnil => by
    rw [expand_eq_none_iff.mpr hnil] at h
    exact absurd h (by simp)
  rw [expand_eq_blocks hne, Option.some.injEq] at h
  rw [← h]
  exact eraseDups_blocks (places table) table.nodup fun e he => one_le_places hpos he

/-- A sequence has a first place. -/
theorem size_pos_of_expand {table : Table Nat} {sequence : Array String}
    (hpos : ∀ e ∈ table.entries, 1 ≤ e.2) (h : expand table = some sequence) :
    0 < sequence.size := by
  have hkeys : sequence.toList.eraseDups = table.keys := eraseDups_expand hpos h
  rcases Nat.eq_zero_or_pos sequence.size with hzero | hpos'
  · obtain rfl : sequence = #[] := Array.eq_empty_of_size_eq_zero hzero
    have hnil : table.entries = [] := List.map_eq_nil_iff.mp (Eq.symm hkeys)
    rw [expand_eq_none_iff.mpr hnil] at h
    exact absurd h (by simp)
  · exact hpos'

/-- **What stands in a sequence is a key of the table.** -/
theorem mem_keys_of_mem_expand {table : Table Nat} {sequence : Array String} {target : String}
    (hpos : ∀ e ∈ table.entries, 1 ≤ e.2) (h : expand table = some sequence)
    (ht : target ∈ sequence) : target ∈ table.keys := by
  rw [← eraseDups_expand hpos h]
  exact List.mem_eraseDups.mpr (Array.mem_def.mp ht)

end Balancer.Weight
