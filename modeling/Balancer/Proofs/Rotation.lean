import Balancer.Proofs.Election
import Balancer.Proofs.Table

/-!
# Sound rotations

A rotation holds five things that have to agree: two tables, the sequence built from one of
them, and the place in the sequence. This file says how they agree and that every operation
keeps them so.

* `Balancer.Rotation.Sound` – **the invariant of a rotation.**
* `Balancer.Rotation.Sound.elect_eq_ok`, `Balancer.Rotation.Sound.elect_eq_error_iff` – **an
  election yields a target in service**, and fails only where there is none.
* `Balancer.Rotation.Sound.targets_eq` – the targets read off the sequence are the keys of the
  active table, in the order of the table.
* `Balancer.Rotation.known` – the targets that a rotation knows, in service or not, which
  only a reset changes (`Balancer.Rotation.mem_known_remove?`,
  `Balancer.Rotation.mem_known_recover?`).
-/

namespace Balancer.Rotation

variable {r r' : Rotation} {target : String}

/-! ### The invariant -/

/-- The places of one pass. -/
def passLength (r : Rotation) : Nat := r.sequence.elim 0 Array.size

/-- **The invariant of a rotation**: the five things it holds agree. -/
structure Sound (r : Rotation) : Prop where
  /-- No target is both in service and taken out. -/
  disjoint : ∀ target ∈ r.active.keys, target ∉ r.failed.keys
  /-- The weight of a target in service is at least 1. -/
  one_le_active : ∀ e ∈ r.active.entries, 1 ≤ e.2
  /-- The weight of a target taken out is at least 1. -/
  one_le_failed : ∀ e ∈ r.failed.entries, 1 ≤ e.2
  /-- The sequence is the one of the targets in service. -/
  sequence_eq : r.sequence = Weight.expand r.active
  /-- The place of the next election lies in the sequence or right behind it. -/
  cursor_le : r.cursor ≤ r.passLength

/-! ### Building -/

/-- A new pass is sound, whatever the tables, as long as they are disjoint and their weights
are at least 1. -/
theorem sound_restart {active failed : Table Nat}
    (disjoint : ∀ target ∈ active.keys, target ∉ failed.keys)
    (hactive : ∀ e ∈ active.entries, 1 ≤ e.2) (hfailed : ∀ e ∈ failed.entries, 1 ≤ e.2) :
    (restart active failed).Sound where
  disjoint := disjoint
  one_le_active := hactive
  one_le_failed := hfailed
  sequence_eq := rfl
  cursor_le := Nat.zero_le _

/-- **Any table of weights gives a sound rotation**: normal weights are at least 1. -/
theorem sound_ofWeights (weights : Table Binary64) : (ofWeights weights).Sound := by
  refine sound_restart (fun target _ => by simp) (fun e he => ?_) fun e he => absurd he (by simp)
  obtain ⟨f, -, rfl⟩ := List.mem_map.mp he
  exact Weight.one_le_normalize f.2

/-- Any list of endpoints gives a sound rotation. -/
theorem sound_ofEndpoints (endpoints : List Endpoint) : (ofEndpoints endpoints).Sound :=
  sound_ofWeights _

/-! ### Changing the membership -/

/-- **A target taken out leaves a sound rotation.** -/
theorem Sound.remove? (hr : r.Sound) (h : r.remove? target = some r') : r'.Sound := by
  obtain ⟨weight, hget, rfl⟩ := Option.map_eq_some_iff.mp h
  have hmem : (target, weight) ∈ r.active.entries := Table.mem_entries_of_get? hget
  refine sound_restart (fun t ht => ?_) (fun e he => ?_) fun e he => ?_
  · obtain ⟨hold, hne⟩ := Table.mem_keys_erase.mp ht
    rw [Table.mem_keys_insert]
    rintro (hfailed | rfl)
    · exact hr.disjoint t hold hfailed
    · exact hne rfl
  · exact hr.one_le_active e (Table.mem_entries_erase he)
  · rcases Table.mem_entries_insert he with rfl | he
    · exact hr.one_le_active _ hmem
    · exact hr.one_le_failed e he

/-- **A target put back leaves a sound rotation.** -/
theorem Sound.recover? (hr : r.Sound) (h : r.recover? target = some r') : r'.Sound := by
  obtain ⟨weight, hget, rfl⟩ := Option.map_eq_some_iff.mp h
  have hmem : (target, weight) ∈ r.failed.entries := Table.mem_entries_of_get? hget
  refine sound_restart (fun t ht hf => ?_) (fun e he => ?_) fun e he => ?_
  · obtain ⟨hold, hne⟩ := Table.mem_keys_erase.mp hf
    rcases Table.mem_keys_insert.mp ht with hactive | rfl
    · exact hr.disjoint t hactive hold
    · exact hne rfl
  · rcases Table.mem_entries_insert he with rfl | he
    · exact hr.one_le_failed _ hmem
    · exact hr.one_le_active e he
  · exact hr.one_le_failed e (Table.mem_entries_erase he)

/-! ### Electing -/

/-- There is no sequence exactly where no target is in service. -/
theorem Sound.sequence_eq_none_iff (hr : r.Sound) : r.sequence = none ↔ r.active.entries = [] := by
  rw [hr.sequence_eq, Weight.expand_eq_none_iff]

/-- The place that an election takes lies in the sequence. -/
theorem Sound.place_lt (hr : r.Sound) {sequence : Array String} (h : r.sequence = some sequence) :
    (if r.cursor < sequence.size then r.cursor else 0) < sequence.size := by
  split
  · assumption
  · exact Weight.size_pos_of_expand hr.one_le_active (hr.sequence_eq ▸ h)

/-- **What is elected is in service, and was not taken out**, and the rotation behind it is
sound. -/
theorem Sound.elect_eq_ok (hr : r.Sound) (h : r.elect = .ok (target, r')) :
    target ∈ r.active.keys ∧ target ∉ r.failed.keys ∧ r'.Sound := by
  rw [elect] at h
  rcases hseq : r.sequence with _ | sequence
  · simp [hseq] at h
  have hlt := hr.place_lt hseq
  simp only [hseq, Array.getElem?_eq_getElem hlt, Except.ok.injEq, Prod.mk.injEq] at h
  obtain ⟨rfl, rfl⟩ := h
  have hactive : sequence[if r.cursor < sequence.size then r.cursor else 0] ∈ r.active.keys :=
    Weight.mem_keys_of_mem_expand hr.one_le_active (hr.sequence_eq ▸ hseq) (Array.getElem_mem hlt)
  refine ⟨hactive, hr.disjoint _ hactive, ?_⟩
  exact { hr with sequence_eq := hseq.symm.trans hr.sequence_eq, cursor_le := hlt }

/-- **An election fails exactly where no target is in service**, and then always in the same
way. -/
theorem Sound.elect_eq_error_iff (hr : r.Sound) {failure : Failure} :
    r.elect = .error failure ↔ r.active.keys = [] ∧ failure = .notInitialized := by
  have hkeys : r.active.keys = [] ↔ r.sequence = none := by
    rw [hr.sequence_eq_none_iff]
    exact List.map_eq_nil_iff
  rw [hkeys]
  rw [elect]
  rcases hseq : r.sequence with _ | sequence
  · simp [eq_comm]
  · simp [Array.getElem?_eq_getElem (hr.place_lt hseq)]

/-! ### Reading -/

/-- **The targets read off the sequence are the keys of the active table**, in its order. -/
theorem Sound.targets_eq (hr : r.Sound) : r.targets = r.active.keys := by
  rw [targets]
  rcases hseq : r.sequence with _ | sequence
  · exact (List.map_eq_nil_iff.mpr (hr.sequence_eq_none_iff.mp hseq)).symm
  · exact Weight.eraseDups_expand hr.one_le_active (hr.sequence_eq ▸ hseq)

/-- **The targets that a rotation knows**, first those in service. -/
def known (r : Rotation) : List String := r.active.keys ++ r.failed.keys

theorem mem_known : target ∈ r.known ↔ target ∈ r.active.keys ∨ target ∈ r.failed.keys :=
  List.mem_append

/-- The status lists the known targets. -/
theorem map_target_status (r : Rotation) : r.status.map TargetStatus.target = r.known := by
  simp only [status, known, Table.keys, List.map_append, List.map_map]
  rfl

/-- **The status lists every known target once.** -/
theorem Sound.nodup_known (hr : r.Sound) : r.known.Nodup := by
  refine List.nodup_append.mpr ⟨r.active.nodup, r.failed.nodup, fun a ha b hb => ?_⟩
  rintro rfl
  exact hr.disjoint a ha hb

/-! ### Known targets -/

/-- **Taking a target out does not change what is known.** -/
theorem mem_known_remove? {other : String} (h : r.remove? target = some r') :
    other ∈ r'.known ↔ other ∈ r.known := by
  obtain ⟨weight, hget, rfl⟩ := Option.map_eq_some_iff.mp h
  rw [mem_known, mem_known]
  exact Table.mem_keys_move (Table.mem_keys_of_get? hget)

/-- **Putting a target back does not change what is known.** -/
theorem mem_known_recover? {other : String} (h : r.recover? target = some r') :
    other ∈ r'.known ↔ other ∈ r.known := by
  obtain ⟨weight, hget, rfl⟩ := Option.map_eq_some_iff.mp h
  -- the same move as above, the other way
  rw [mem_known, mem_known, or_comm, or_comm (a := other ∈ r.active.keys)]
  exact Table.mem_keys_move (Table.mem_keys_of_get? hget)

/-- **An election leaves both tables alone.** -/
theorem tables_elect (h : r.elect = .ok (target, r')) :
    r'.active = r.active ∧ r'.failed = r.failed := by
  rw [elect] at h
  rcases hseq : r.sequence with _ | sequence
  · simp [hseq] at h
  · simp only [hseq] at h
    split at h
    · simp only [Except.ok.injEq, Prod.mk.injEq] at h
      rw [← h.2]
      exact ⟨rfl, rfl⟩
    · simp at h

/-- So it does not change what is known either. -/
theorem known_elect (h : r.elect = .ok (target, r')) : r'.known = r.known := by
  obtain ⟨hactive, hfailed⟩ := tables_elect h
  rw [known, known, hactive, hfailed]

/-- **A rotation knows the targets of a list of endpoints**, and no others. -/
def Knows (r : Rotation) (endpoints : List Endpoint) : Prop :=
  ∀ target, target ∈ r.known ↔ target ∈ endpoints.map Endpoint.key

instance (r : Rotation) (endpoints : List Endpoint) : Decidable (r.Knows endpoints) :=
  decidable_of_iff
    ((∀ target ∈ r.known, target ∈ endpoints.map Endpoint.key) ∧
      ∀ target ∈ endpoints.map Endpoint.key, target ∈ r.known)
    ⟨fun h target => ⟨h.1 target, h.2 target⟩,
      fun h => ⟨fun target => (h target).mp, fun target => (h target).mpr⟩⟩

/-- **After a reset the known targets are those of the endpoints.** -/
theorem knows_ofEndpoints (endpoints : List Endpoint) : (ofEndpoints endpoints).Knows endpoints := by
  intro target
  rw [mem_known]
  simp only [ofEndpoints, ofWeights, restart, Table.keys_mapValues, Table.mem_keys_ofList,
    List.map_map, Table.keys_empty, List.not_mem_nil, or_false]
  rfl

end Balancer.Rotation
