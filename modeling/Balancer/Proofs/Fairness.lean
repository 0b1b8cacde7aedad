import Balancer.Proofs.Rotation
import Mathlib.Data.List.Rotate

/-!
# Going round the sequence

An election moves the cursor one place on, and behind the last place comes the first. So what is
elected without a change of the membership goes round the sequence, from wherever the cursor stood,
and no target can be favoured: a window of elections holds whole passes, in which every target
stands as often as in the sequence, and a part of one more.

* `Balancer.GoesRound` – **a list goes round another one.**
* `Balancer.GoesRound.count_bounds` – **how often a target stands in it**: as often as in the whole
  passes that it holds, and at most once more for every place of the rest.
* `Balancer.Rotation.Stands` – a rotation stands at a place of its sequence, counted over passes.
* `Balancer.Rotation.Stands.elect` – **an election yields the target of the place**, and the
  rotation stands at the next one.
-/

namespace Balancer

/-! ### Lists that go round -/

/-- **A list goes round another one** from some place on: behind the last element comes the
first. -/
def GoesRound (circle : List String) (start : Nat) (visits : List String) : Prop :=
  ∀ k < visits.length, visits[k]? = circle[(start + k) % circle.length]?

namespace GoesRound

variable {circle visits xs ys : List String} {start q r : Nat}

theorem nil : GoesRound circle start [] := fun _ hk => absurd hk (Nat.not_lt_zero _)

/-- One visit. -/
theorem singleton {target : String} (ht : circle[start % circle.length]? = some target) :
    GoesRound circle start [target] := by
  intro k hk
  obtain rfl := Nat.lt_one_iff.mp hk
  exact ht.symm

theorem append (h : GoesRound circle start xs) (h' : GoesRound circle (start + xs.length) ys) :
    GoesRound circle start (xs ++ ys) := by
  intro k hk
  rcases Nat.lt_or_ge k xs.length with hlt | hge
  · rw [List.getElem?_append_left hlt, h k hlt]
  · have hrest : k - xs.length < ys.length := by
      rw [List.length_append] at hk
      omega
    rw [List.getElem?_append_right hge, h' _ hrest, Nat.add_assoc, Nat.add_sub_cancel' hge]

/-- A part of a list that goes round does so from where the part begins. -/
theorem of_append (h : GoesRound circle start (xs ++ ys)) :
    GoesRound circle start xs ∧ GoesRound circle (start + xs.length) ys := by
  constructor
  · intro k hk
    have hle : k < (xs ++ ys).length := by
      rw [List.length_append]
      omega
    rw [← h k hle, List.getElem?_append_left hk]
  · intro k hk
    have hle : xs.length + k < (xs ++ ys).length := by
      rw [List.length_append]
      omega
    rw [Nat.add_assoc, ← h _ hle, List.getElem?_append_right (Nat.le_add_right _ _),
      Nat.add_sub_cancel_left]

/-- **What is no longer than a pass is the beginning of one**: the circle, turned to its start. -/
theorem eq_take (h : GoesRound circle start visits) (hle : visits.length ≤ circle.length) :
    visits = (circle.rotate start).take visits.length := by
  refine List.ext_getElem? fun k => ?_
  rcases Nat.lt_or_ge k visits.length with hlt | hge
  · rw [h k hlt, List.getElem?_take_of_lt hlt, List.getElem?_rotate (Nat.lt_of_lt_of_le hlt hle),
      Nat.add_comm]
  · rw [List.getElem?_eq_none hge, List.getElem?_eq_none ((List.length_take_le _ _).trans hge)]

/-- **A whole pass visits every target as often as it stands in the circle.** -/
theorem count_pass (h : GoesRound circle start visits) (hlen : visits.length = circle.length)
    (target : String) : visits.count target = circle.count target := by
  have hall : (circle.rotate start).take visits.length = circle.rotate start :=
    List.take_of_length_le (by rw [List.length_rotate, hlen])
  rw [h.eq_take hlen.le, hall]
  exact (circle.rotate_perm start).count_eq target

/-- A part of a pass visits a target at most that often, and at most once for every place. -/
theorem count_part (h : GoesRound circle start visits) (hle : visits.length ≤ circle.length)
    (target : String) : visits.count target ≤ min visits.length (circle.count target) := by
  refine Nat.le_min.mpr ⟨List.count_le_length, ?_⟩
  calc visits.count target
      = ((circle.rotate start).take visits.length).count target := by rw [← h.eq_take hle]
    _ ≤ (circle.rotate start).count target := (List.take_sublist _ _).count_le target
    _ = circle.count target := (circle.rotate_perm start).count_eq target

/-- **How often a target is visited** in some whole passes and a part of one more. -/
theorem count_bounds (h : GoesRound circle start visits)
    (hlen : visits.length = q * circle.length + r) (hr : r < circle.length) (target : String) :
    q * circle.count target ≤ visits.count target ∧
      visits.count target ≤ q * circle.count target + min r (circle.count target) := by
  induction q generalizing start visits with
  | zero =>
    rw [Nat.zero_mul, Nat.zero_add] at hlen
    have hpart := h.count_part (hlen ▸ hr.le) target
    rw [hlen] at hpart
    rw [Nat.zero_mul, Nat.zero_add]
    exact ⟨Nat.zero_le _, hpart⟩
  | succ q ih =>
    -- one pass comes first
    rw [Nat.succ_mul] at hlen
    have hfirst : (visits.take circle.length).length = circle.length := by
      rw [List.length_take]
      omega
    have hrest : (visits.drop circle.length).length = q * circle.length + r := by
      rw [List.length_drop]
      omega
    rw [← List.take_append_drop circle.length visits] at h
    obtain ⟨hpass, hgoes⟩ := h.of_append
    have hcount : visits.count target =
        circle.count target + (visits.drop circle.length).count target := by
      rw [← hpass.count_pass hfirst target, ← List.count_append, List.take_append_drop]
    obtain ⟨hlow, hhigh⟩ := ih hgoes hrest
    rw [hcount, Nat.succ_mul]
    omega

end GoesRound

/-! ### Elections -/

namespace Rotation

variable {r r' : Rotation} {sequence : Array String} {place : Nat}

/-- **A rotation stands at a place of a sequence**, counted over passes. -/
structure Stands (r : Rotation) (sequence : Array String) (place : Nat) : Prop where
  /-- The sequence is that of the rotation. -/
  sequence_eq : r.sequence = some sequence
  /-- It has a place. -/
  size_pos : 0 < sequence.size
  /-- The cursor lies in it or right behind it. -/
  cursor_le : r.cursor ≤ sequence.size
  /-- The cursor is at the place, up to passes. -/
  cursor_mod : r.cursor % sequence.size = place % sequence.size

/-- A sound rotation stands where its cursor is. -/
theorem Sound.stands (hr : r.Sound) (h : r.sequence = some sequence) :
    r.Stands sequence r.cursor where
  sequence_eq := h
  size_pos := Weight.size_pos_of_expand hr.one_le_active (hr.sequence_eq ▸ h)
  cursor_le := by
    have hle := hr.cursor_le
    rw [passLength, h] at hle
    exact hle
  cursor_mod := rfl

/-- The place that an election takes is the one where the rotation stands. -/
theorem Stands.place_eq (h : r.Stands sequence place) :
    (if r.cursor < sequence.size then r.cursor else 0) = place % sequence.size := by
  rw [← h.cursor_mod]
  split
  · next hlt => exact (Nat.mod_eq_of_lt hlt).symm
  · next hge =>
    rw [Nat.le_antisymm h.cursor_le (Nat.not_lt.mp hge), Nat.mod_self]

/-- **An election yields the target of the place**, and the rotation stands at the next one. -/
theorem Stands.elect (h : r.Stands sequence place) :
    ∃ target r', r.elect = .ok (target, r') ∧
      sequence[place % sequence.size]? = some target ∧ r'.Stands sequence (place + 1) := by
  have hlt : place % sequence.size < sequence.size := Nat.mod_lt _ h.size_pos
  refine ⟨sequence[place % sequence.size], { r with cursor := place % sequence.size + 1 }, ?_,
    Array.getElem?_eq_getElem hlt, h.sequence_eq, h.size_pos, hlt, ?_⟩
  · simp only [Rotation.elect, h.sequence_eq, h.place_eq, Array.getElem?_eq_getElem hlt]
  · exact Nat.mod_add_mod place sequence.size 1

end Rotation

end Balancer
