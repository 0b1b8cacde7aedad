import Balancer.Endpoint
import Mathlib.Data.List.Basic

/-!
# Endpoint lists that agree

* `Balancer.Binary64.text_eq_of_same` – numbers that agree are written alike.
* `Balancer.Endpoint.map_key_eq_of_sameList` – **lists that agree stand for the same targets.** The
  converse fails: no list agrees with one that holds a port that is not a number.
-/

namespace Balancer

/-! ### Numbers -/

namespace Binary64

theorem natAbs_signed (negative : Bool) (magnitude : Nat) :
    (signed negative magnitude).natAbs = magnitude := by
  cases negative <;> simp [signed]

/-- A magnitude that is not zero shows its sign. -/
theorem signed_injective {negative negative' : Bool} {a b : Nat} (ha : 0 < a)
    (h : signed negative a = signed negative' b) : negative = negative' ∧ a = b := by
  have hab : a = b := by rw [← natAbs_signed negative a, h, natAbs_signed]
  subst hab
  refine ⟨?_, rfl⟩
  by_contra hne
  cases negative <;> cases negative'
  · exact hne rfl
  · simp only [signed, if_true, Bool.false_eq_true, if_false] at h
    omega
  · simp only [signed, if_true, Bool.false_eq_true, if_false] at h
    omega
  · exact hne rfl

/-- **Numbers that agree are written alike**, the two zeros included. -/
theorem text_eq_of_same {x y : Binary64} (h : x.same y = true) : x.text = y.text := by
  have hbound : 0 < overflowBound := Nat.lt_of_lt_of_le (Nat.two_pow_pos 53) two_pow_le_overflowBound
  cases x with
  | nan => exact absurd h (by simp)
  | infinite negative =>
    cases y with
    | nan => exact absurd h (by simp [same, units?])
    | infinite negative' =>
      have heq : signed negative overflowBound = signed negative' overflowBound := beq_iff_eq.mp h
      rw [(signed_injective hbound heq).1]
    | finite negative' units representable =>
      have heq : signed negative overflowBound = signed negative' units := beq_iff_eq.mp h
      exact absurd (signed_injective hbound heq).2 (Nat.ne_of_gt representable.2)
  | finite negative units representable =>
    cases y with
    | nan => exact absurd h (by simp [same, units?])
    | infinite negative' =>
      have heq : signed negative' overflowBound = signed negative units := (beq_iff_eq.mp h).symm
      exact absurd (signed_injective hbound heq).2 (Nat.ne_of_gt representable.2)
    | finite negative' units' representable' =>
      have heq : signed negative units = signed negative' units' := beq_iff_eq.mp h
      rcases Nat.eq_zero_or_pos units with hzero | hpos
      · have hzero' : units' = 0 := by
          rw [← natAbs_signed negative' units', ← heq, natAbs_signed, hzero]
        simp only [text, hzero, hzero', if_true]
      · obtain ⟨rfl, rfl⟩ := signed_injective hpos heq
        rfl

end Binary64

/-! ### Endpoints -/

namespace Endpoint

theorem key_eq_of_same {a b : Endpoint} (h : a.same b = true) : a.key = b.key := by
  obtain ⟨hhost, hport⟩ := Bool.and_eq_true_iff.mp h
  rw [key, key, beq_iff_eq.mp hhost, Binary64.text_eq_of_same hport]

/-- **Lists that agree stand for the same targets**, in the same order. -/
theorem map_key_eq_of_sameList {as bs : List Endpoint} (h : sameList as bs = true) :
    as.map key = bs.map key := by
  induction as generalizing bs with
  | nil =>
    cases bs with
    | nil => rfl
    | cons b bs => exact absurd h (by simp [sameList])
  | cons a as ih =>
    cases bs with
    | nil => exact absurd h (by simp [sameList])
    | cons b bs =>
      obtain ⟨hfirst, hrest⟩ := Bool.and_eq_true_iff.mp h
      rw [List.map_cons, List.map_cons, key_eq_of_same hfirst, ih hrest]

end Endpoint

end Balancer
