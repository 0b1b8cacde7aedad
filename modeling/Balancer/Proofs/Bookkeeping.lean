import Balancer.Proofs.Rotation
import Mathlib.Data.List.Dedup

/-!
# What the two tables remember

A target goes from one table to the other and back, at its weight, and comes last in the table that
it goes to. So the two tables can be read off the calls that were made since they were filled: which
target is out, and in which order the targets of each table stand.

* `Balancer.Move` – a call that names a target, to take it out or to put it back.
* `Balancer.Move.isOut` – whether the last call that names a target takes it out.
* `Balancer.Move.effective` – the calls that change something, and `Balancer.Move.named` their
  targets.
* `Balancer.Rotation.Booked` – **the tables are those that the calls leave.**
* `Balancer.Rotation.Booked.move` – **every call keeps them so.**
-/

namespace Balancer

/-! ### Calls that name a target -/

/-- **A call that names a target.** -/
inductive Move
  /-- The target is to be taken out. -/
  | remove (target : String)
  /-- The target is to be put back. -/
  | recover (target : String)
  deriving DecidableEq

namespace Move

/-- The target that a call names. -/
def target : Move → String
  | remove target | recover target => target

/-- Whether a call is to take its target out. -/
def takesOut : Move → Bool
  | remove _ => true
  | recover _ => false

/-- **Whether the last call that names a target takes it out.** -/
def isOut (moves : List Move) (target : String) : Bool :=
  (moves.filter fun move => move.target == target).getLast?.any takesOut

variable {moves : List Move} {move : Move} {known : List String} {name : String} {out : Bool}

@[simp] theorem isOut_nil : isOut [] name = false := rfl

/-- The last call decides, if it names the target. -/
theorem isOut_concat : isOut (moves ++ [move]) name =
    if move.target = name then move.takesOut else isOut moves name := by
  rw [isOut, List.filter_append]
  split
  · next h => simp [h]
  · next h => simp [h, isOut]

theorem isOut_concat_self : isOut (moves ++ [move]) move.target = move.takesOut := by
  rw [isOut_concat, if_pos rfl]

theorem isOut_concat_of_ne (h : name ≠ move.target) :
    isOut (moves ++ [move]) name = isOut moves name := by
  rw [isOut_concat, if_neg h.symm]

/-- **Whether a call changes something**, the calls before it being given: its target is known, and
on the other side. -/
def Effective (known : List String) (before : List Move) (move : Move) : Prop :=
  move.target ∈ known ∧ isOut before move.target = !move.takesOut

instance (known : List String) (before : List Move) (move : Move) :
    Decidable (Effective known before move) :=
  inferInstanceAs (Decidable (_ ∧ _))

/-- The calls that change something, after some others. -/
def effectiveFrom (known : List String) (before : List Move) : List Move → List Move
  | [] => []
  | move :: rest =>
    if Effective known before move then move :: effectiveFrom known (before ++ [move]) rest
    else effectiveFrom known (before ++ [move]) rest

/-- **The calls that change something.** -/
def effective (known : List String) (moves : List Move) : List Move := effectiveFrom known [] moves

theorem effectiveFrom_concat (before : List Move) : effectiveFrom known before (moves ++ [move]) =
    effectiveFrom known before moves ++
      if Effective known (before ++ moves) move then [move] else [] := by
  induction moves generalizing before with
  | nil =>
    rw [List.append_nil, List.nil_append, effectiveFrom, effectiveFrom, effectiveFrom]
    split <;> rfl
  | cons first rest ih =>
    rw [List.cons_append, effectiveFrom, effectiveFrom, ih, List.append_assoc]
    split <;> rfl

/-- **The targets of the calls that change something** and take them out, or put them back. -/
def named (out : Bool) (known : List String) (moves : List Move) : List String :=
  ((effective known moves).filter fun move => move.takesOut == out).map target

@[simp] theorem named_nil : named out known [] = [] := rfl

/-- A call that changes nothing is not among them. -/
theorem named_concat_of_not_effective (h : ¬ Effective known moves move) :
    named out known (moves ++ [move]) = named out known moves := by
  rw [named, effective, effectiveFrom_concat, List.nil_append, if_neg h, List.append_nil]
  rfl

/-- A call that changes something comes last on its own side. -/
theorem named_concat_same (h : Effective known moves move) (hout : move.takesOut = out) :
    named out known (moves ++ [move]) = named out known moves ++ [move.target] := by
  rw [named, effective, effectiveFrom_concat, List.nil_append, if_pos h, List.filter_append,
    List.filter_cons_of_pos (by simp [hout]), List.map_append]
  rfl

/-- On the other side nothing changes. -/
theorem named_concat_other (hout : move.takesOut ≠ out) :
    named out known (moves ++ [move]) = named out known moves := by
  rw [named, effective, effectiveFrom_concat, List.filter_append]
  split
  · rw [List.filter_cons_of_neg (by simp [hout]), List.filter_nil, List.append_nil]
    rfl
  · rw [List.filter_nil, List.append_nil]
    rfl

/-- What changes something is known. -/
theorem mem_known_of_mem_named (h : name ∈ named out known moves) : name ∈ known := by
  suffices hall : ∀ before, ∀ move ∈ effectiveFrom known before moves, move.target ∈ known by
    obtain ⟨move, hmove, rfl⟩ := List.mem_map.mp h
    exact hall [] move (List.mem_of_mem_filter hmove)
  clear h
  induction moves with
  | nil => exact fun before move hmove => absurd hmove List.not_mem_nil
  | cons first rest ih =>
    intro before move hmove
    rw [effectiveFrom] at hmove
    split at hmove
    · next heffective =>
      rcases List.mem_cons.mp hmove with rfl | hrest
      · exact heffective.1
      · exact ih _ move hrest
    · exact ih _ move hmove

end Move

/-! ### Lists in which something moves -/

section Lists

variable {l : List String} {target : String} {p p' : String → Bool}

/-- The last occurrence is the one that counts. -/
theorem dedup_concat (l : List String) (target : String) :
    (l ++ [target]).dedup = l.dedup.filter (· != target) ++ [target] := by
  induction l with
  | nil => rfl
  | cons first rest ih =>
    rw [List.cons_append]
    by_cases hfirst : first = target
    · subst hfirst
      rw [List.dedup_cons_of_mem (List.mem_append_right _ List.mem_cons_self), ih]
      by_cases hmem : first ∈ rest
      · rw [List.dedup_cons_of_mem hmem]
      · rw [List.dedup_cons_of_notMem hmem, List.filter_cons_of_neg (by simp)]
    · by_cases hmem : first ∈ rest
      · rw [List.dedup_cons_of_mem (List.mem_append_left _ hmem), ih, List.dedup_cons_of_mem hmem]
      · have hnew : first ∉ rest ++ [target] := by
          rw [List.mem_append, List.mem_singleton, not_or]
          exact ⟨hmem, hfirst⟩
        rw [List.dedup_cons_of_notMem hnew, ih, List.dedup_cons_of_notMem hmem,
          List.filter_cons_of_pos (by simp [hfirst])]
        rfl

/-- What leaves a list is filtered out of it. -/
theorem filter_leave (hout : p' target = false) (hsame : ∀ t, t ≠ target → p' t = p t) :
    l.filter p' = (l.filter p).filter (· != target) := by
  rw [List.filter_filter]
  refine List.filter_congr fun t _ => ?_
  by_cases ht : t = target
  · subst ht
    simp [hout]
  · simp [ht, hsame t ht]

/-- What comes to a list comes last. -/
theorem filter_come (hin : p' target = true) (hout : p target = false)
    (hsame : ∀ t, t ≠ target → p' t = p t) :
    (l ++ [target]).dedup.filter p' = l.dedup.filter p ++ [target] := by
  rw [dedup_concat, List.filter_append, List.filter_filter, List.filter_cons_of_pos hin,
    List.filter_nil]
  congr 1
  refine List.filter_congr fun t _ => ?_
  by_cases ht : t = target
  · subst ht
    simp [hout]
  · simp [ht, hsame t ht]

end Lists

namespace Rotation

open Move

variable {T : Table Nat} {moves : List Move} {r r' : Rotation} {target : String}

/-! ### Tables and calls -/

/-- **The rotation after a call**, whether or not it changes anything. -/
def move (r : Rotation) : Move → Rotation
  | .remove target => (r.remove? target).getD r
  | .recover target => (r.recover? target).getD r

/-- **The tables are those that the calls leave**, if they were filled with some targets. -/
structure Booked (T : Table Nat) (moves : List Move) (r : Rotation) : Prop where
  /-- No target is lost, added, doubled, or given another weight. -/
  entries : (r.active.entries ++ r.failed.entries).Perm T.entries
  /-- A target is out if the last call that names it takes it out. -/
  out : ∀ target ∈ T.keys, target ∈ r.failed.keys ↔ isOut moves target = true
  /-- In service are first the targets never taken out, then those put back last. -/
  active : r.active.keys = (T.keys.filter fun target => target ∉ named true T.keys moves) ++
    (named false T.keys moves).dedup.filter fun target => !isOut moves target
  /-- Those that are out stand in the order in which they were taken out last. -/
  failed : r.failed.keys = (named true T.keys moves).dedup.filter (isOut moves)

/-- Where no call was made the tables are those that were filled. -/
theorem booked_nil (h : r.failed = Table.empty) : Booked r.active [] r where
  entries := by
    rw [h, Table.entries_empty, List.append_nil]
  out := by
    rw [h]
    simp
  active := by simp
  failed := by
    rw [h]
    rfl

/-- What leaves the tables alone leaves them as they are to be. -/
theorem Booked.congr (h : Booked T moves r) (hactive : r'.active = r.active)
    (hfailed : r'.failed = r.failed) : Booked T moves r' := by
  refine ⟨?_, ?_, ?_, ?_⟩
  · rw [hactive, hfailed]
    exact h.entries
  · rw [hfailed]
    exact h.out
  · rw [hactive]
    exact h.active
  · rw [hfailed]
    exact h.failed

theorem Booked.perm_keys (h : Booked T moves r) : (r.active.keys ++ r.failed.keys).Perm T.keys := by
  have hperm := h.entries.map Prod.fst
  rw [List.map_append] at hperm
  exact hperm

/-- **The other targets are in service.** -/
theorem Booked.mem_active_iff (h : Booked T moves r) (ht : target ∈ T.keys) :
    target ∈ r.active.keys ↔ isOut moves target = false := by
  have hmem := (h.perm_keys.mem_iff (a := target)).mpr ht
  have hnodup : (r.active.keys ++ r.failed.keys).Nodup := h.perm_keys.nodup_iff.mpr T.nodup
  rw [← Bool.not_eq_true, ← h.out target ht]
  constructor
  · exact fun hactive hfailed => List.disjoint_of_nodup_append hnodup hactive hfailed
  · exact fun hfailed => (List.mem_append.mp hmem).resolve_right hfailed

/-- A target that is not known is in neither table. -/
theorem Booked.notMem (h : Booked T moves r) (ht : target ∉ T.keys) :
    target ∉ r.active.keys ∧ target ∉ r.failed.keys := by
  rw [← h.perm_keys.mem_iff, List.mem_append, not_or] at ht
  exact ht

/-- **A call that names no known target changes nothing.** -/
theorem Booked.remove?_eq_none (h : Booked T moves r) (ht : target ∉ T.keys) :
    r.remove? target = none ∧ r.recover? target = none := by
  obtain ⟨hactive, hfailed⟩ := h.notMem ht
  rw [remove?, recover?, Table.get?_eq_none_iff.mpr hactive, Table.get?_eq_none_iff.mpr hfailed]
  exact ⟨rfl, rfl⟩

/-! ### Every call -/

/-- **A call that changes nothing keeps the books.** -/
theorem Booked.stay (h : Booked T moves r) {move : Move} (hstay : ¬ Effective T.keys moves move) :
    Booked T (moves ++ [move]) r := by
  have hsame : ∀ t ∈ T.keys, isOut (moves ++ [move]) t = isOut moves t := by
    intro t ht
    rw [isOut_concat]
    split
    · next heq =>
      -- the target is on the side where the call wants it
      subst heq
      have hside : ¬ isOut moves move.target = !move.takesOut := fun hside => hstay ⟨ht, hside⟩
      rwa [Bool.eq_not, not_not, eq_comm] at hside
    · rfl
  refine ⟨h.entries, ?_, ?_, ?_⟩
  · intro t ht
    rw [hsame t ht]
    exact h.out t ht
  · rw [h.active, named_concat_of_not_effective hstay, named_concat_of_not_effective hstay]
    congr 1
    refine List.filter_congr fun t ht => ?_
    rw [hsame t (mem_known_of_mem_named (List.mem_dedup.mp ht))]
  · rw [h.failed, named_concat_of_not_effective hstay]
    refine List.filter_congr fun t ht => ?_
    rw [hsame t (mem_known_of_mem_named (List.mem_dedup.mp ht))]

/-- **Taking out a target in service keeps the books.** -/
theorem Booked.remove (h : Booked T moves r) {weight : Nat}
    (hget : r.active.get? target = some weight) : Booked T (moves ++ [.remove target])
      (restart (r.active.erase target) (r.failed.insert target weight)) := by
  have hactive : target ∈ r.active.keys := Table.mem_keys_of_get? hget
  have hknown : target ∈ T.keys := h.perm_keys.subset (List.mem_append_left _ hactive)
  have hin : isOut moves target = false := (h.mem_active_iff hknown).mp hactive
  have hnew : target ∉ r.failed.keys := by
    rw [h.out target hknown, hin]
    exact Bool.false_ne_true
  have heffective : Effective T.keys moves (.remove target) := ⟨hknown, hin⟩
  have hcomes : named true T.keys (moves ++ [.remove target]) =
      named true T.keys moves ++ [target] := named_concat_same heffective rfl
  have hstays : named false T.keys (moves ++ [.remove target]) = named false T.keys moves :=
    named_concat_other Bool.noConfusion
  have hout : isOut (moves ++ [.remove target]) target = true := isOut_concat_self
  have hsame : ∀ t, t ≠ target → isOut (moves ++ [.remove target]) t = isOut moves t :=
    fun t ht => isOut_concat_of_ne ht
  refine ⟨?_, ?_, ?_, ?_⟩
  · exact (Table.perm_move hget hnew).trans h.entries
  · intro t ht
    show t ∈ (r.failed.insert target weight).keys ↔ _
    rw [Table.mem_keys_insert]
    by_cases heq : t = target
    · subst heq
      simp [hout]
    · simp [heq, hsame t heq, h.out t ht]
  · show (r.active.erase target).keys = _
    rw [Table.keys_erase, h.active, List.filter_append, hcomes, hstays]
    congr 1
    · rw [List.filter_filter]
      refine List.filter_congr fun t _ => ?_
      by_cases ht : t = target
      · simp [ht]
      · simp [ht, bne_iff_ne.mpr ht]
    · exact (filter_leave (p := fun t => !isOut moves t) (by simp [hout])
        fun t ht => by rw [hsame t ht]).symm
  · show (r.failed.insert target weight).keys = _
    rw [Table.keys_insert, if_neg hnew, h.failed, hcomes]
    exact (filter_come hout hin hsame).symm

/-- **Putting back a target that is out keeps the books.** -/
theorem Booked.recover (h : Booked T moves r) {weight : Nat}
    (hget : r.failed.get? target = some weight) : Booked T (moves ++ [.recover target])
      (restart (r.active.insert target weight) (r.failed.erase target)) := by
  have hfailed : target ∈ r.failed.keys := Table.mem_keys_of_get? hget
  have hknown : target ∈ T.keys := h.perm_keys.subset (List.mem_append_right _ hfailed)
  have hout : isOut moves target = true := (h.out target hknown).mp hfailed
  have hnew : target ∉ r.active.keys := by
    rw [h.mem_active_iff hknown, hout]
    exact Bool.noConfusion
  have heffective : Effective T.keys moves (.recover target) := ⟨hknown, hout⟩
  have hcomes : named false T.keys (moves ++ [.recover target]) =
      named false T.keys moves ++ [target] := named_concat_same heffective rfl
  have hstays : named true T.keys (moves ++ [.recover target]) = named true T.keys moves :=
    named_concat_other Bool.noConfusion
  have hin : isOut (moves ++ [.recover target]) target = false := isOut_concat_self
  have hsame : ∀ t, t ≠ target → isOut (moves ++ [.recover target]) t = isOut moves t :=
    fun t ht => isOut_concat_of_ne ht
  refine ⟨?_, ?_, ?_, ?_⟩
  · have hmoved := Table.perm_move hget hnew
    exact (List.perm_append_comm.trans hmoved).trans (List.perm_append_comm.trans h.entries)
  · intro t ht
    show t ∈ (r.failed.erase target).keys ↔ _
    rw [Table.mem_keys_erase]
    by_cases heq : t = target
    · subst heq
      simp [hin]
    · simp [heq, hsame t heq, h.out t ht]
  · show (r.active.insert target weight).keys = _
    rw [Table.keys_insert, if_neg hnew, h.active, hcomes, hstays, List.append_assoc]
    congr 1
    exact (filter_come (p := fun t => !isOut moves t) (by simp [hin]) (by simp [hout])
      fun t ht => by rw [hsame t ht]).symm
  · show (r.failed.erase target).keys = _
    rw [Table.keys_erase, h.failed, hstays]
    exact (filter_leave hin hsame).symm

/-- **Every call keeps the books.** -/
theorem Booked.move (h : Booked T moves r) (move : Move) :
    Booked T (moves ++ [move]) (r.move move) := by
  cases move with
  | remove target =>
    rw [Rotation.move, remove?]
    rcases hget : r.active.get? target with _ | weight
    · refine h.stay ?_
      rintro ⟨hknown, hin⟩
      exact Table.get?_eq_none_iff.mp hget ((h.mem_active_iff hknown).mpr hin)
    · exact h.remove hget
  | recover target =>
    rw [Rotation.move, recover?]
    rcases hget : r.failed.get? target with _ | weight
    · refine h.stay ?_
      rintro ⟨hknown, hout⟩
      exact Table.get?_eq_none_iff.mp hget ((h.out _ hknown).mpr hout)
    · exact h.recover hget

end Rotation

end Balancer
