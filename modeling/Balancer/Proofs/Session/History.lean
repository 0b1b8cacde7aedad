import Balancer.Proofs.Bookkeeping
import Balancer.Proofs.Session.Course

/-!
# What the history of a strategy determines

As long as the targets of a strategy are not replaced, its two tables depend on the targets that
they were filled with and on the calls that named a target since, and on nothing else that
happened.

* `Balancer.Session.Machine.moved` – the call that the next transition makes, if it names a target.
* `Balancer.Session.Machine.Course` – **a stretch in which the targets are not replaced**, with
  these calls.
* `Balancer.Session.Machine.Reachable.history_determines_tables` – **the tables at the end of it.**
-/

namespace Balancer.Session.Machine

open Balancer.Move Rotation

variable {m a : Machine} {s : Strategy} {T : Table Nat} {moves : List Move} {r : Rotation}

/-! ### Calls that name a target -/

/-- The call that the next transition makes, if it names a target. -/
def moved (m : Machine) : List Move :=
  match m.step? with
  | some (.remove target) => [.remove target]
  | some (.recover target) => [.recover target]
  | _ => []

/-- **A stretch in which the targets are not replaced**, with the calls that name one. -/
abbrev Course : Machine → List Move → Machine → Prop :=
  Stretch (fun m => m.replacement? = none) moved

/-- Elections leave the tables alone. -/
theorem tables_rotate_elect (times : Nat) (r : Rotation) :
    (Step.rotate (.elect times) r).active = r.active ∧
      (Step.rotate (.elect times) r).failed = r.failed := by
  rw [Step.rotate]
  rcases helect : electTimes times #[] r with failure | ⟨targets, r'⟩
  · exact ⟨rfl, rfl⟩
  · refine electTimes_keeps (P := fun r' => r'.active = r.active ∧ r'.failed = r.failed) ?_ helect
      ⟨rfl, rfl⟩
    intro r₁ target r₂ htables hnext
    obtain ⟨hactive, hfailed⟩ := htables
    obtain ⟨hactive', hfailed'⟩ := tables_elect hnext
    exact ⟨hactive'.trans hactive, hfailed'.trans hfailed⟩

/-- **A transition that does not replace the targets keeps the books.** -/
theorem booked_rotate (hkept : m.replacement? = none) (h : Booked T moves r) :
    Booked T (moves ++ m.moved) (m.rotate r) := by
  rcases hstep : m.step? with _ | step
  · rw [rotate_of_still hkept hstep, moved, hstep, List.append_nil]
    exact h
  · rw [rotate_of_step hkept hstep, moved, hstep]
    cases step with
    | remove target => exact h.move (.remove target)
    | recover target => exact h.move (.recover target)
    | elect times =>
      obtain ⟨hactive, hfailed⟩ := tables_rotate_elect times r
      rw [List.append_nil]
      exact h.congr hactive hfailed
    | _ =>
      rw [List.append_nil]
      exact h

/-- **In a stretch in which the targets are not replaced the books are kept.** -/
theorem Course.booked (h : Course m moves a) (hreach : Reachable m)
    (hs : m.world.strategy = some s) (hfailed : s.rotation.failed = Table.empty) :
    ∀ s', a.world.strategy = some s' → Booked s.rotation.active moves s'.rotation := by
  refine Stretch.keeps (P := Booked s.rotation.active) h hreach ?_ ?_
  · intro s' hs'
    cases hs.symm.trans hs'
    exact booked_nil hfailed
  · exact fun moves b s' _ hkept _ hbooked => booked_rotate hkept hbooked

/-- Where the targets were filled in, none is out. -/
theorem failed_of_filled (hs : m.world.strategy = some s)
    (hfilled : Opens m ∨ ∃ m₀, Reachable m₀ ∧ m₀.replacement?.isSome = true ∧ m = m₀.next) :
    s.rotation.failed = Table.empty := by
  rcases hfilled with hopen | ⟨m₀, h₀, hreplaced, rfl⟩
  · obtain ⟨weights, hrotation⟩ := hopen.exists_ofWeights hs
    rw [hrotation]
    rfl
  · obtain ⟨endpoints, hsome⟩ := Option.isSome_iff_exists.mp hreplaced
    obtain ⟨s₀, -, hrotation⟩ := (hs ▸ h₀.evolves_next).exists_of_some
    rw [hrotation, rotate_of_replacement hsome]
    rfl

/-- **A call that changes neither table does nothing at all**, and the listener is not told. -/
theorem next_of_unknown {target : String} (hs : m.world.strategy = some s)
    (hremove : s.rotation.remove? target = none) (hrecover : s.rotation.recover? target = none)
    (hstep : m.step? = some (.remove target) ∨ m.step? = some (.recover target)) :
    m.next = done m.world m.stack := by
  obtain ⟨w, k, c⟩ := m
  have hperformed : ∀ step : Step, step.touches = true → step? ⟨w, k, c⟩ = some step →
      next ⟨w, k, c⟩ = performStrategy w k s step := by
    intro step htouches hsome
    obtain ⟨hcontrol, hbuilt⟩ := control_of_step? hsome
    cases hcontrol
    obtain ⟨s', hs'⟩ := Option.isSome_iff_exists.mp hbuilt
    have hsame : some s' = some s := (Option.filter_eq_some_iff.mp hs').1.symm.trans hs
    cases hsame
    exact next_of_strategy hs' htouches
  rcases hstep with hstep | hstep
  · rw [hperformed _ rfl hstep, performStrategy, hremove]
    rfl
  · rw [hperformed _ rfl hstep, performStrategy, hrecover]
    rfl

/-! ### All runs -/

/-- **The tables are determined by the history.** Where the targets were filled in, none is out.
Then, as long as they are not replaced, whatever else happens: the targets known and their weights
are those that were filled in; a target is out exactly if the last call that names it takes it out;
in service are first the targets that were never taken out, in the order in which they were filled
in, then the others in the order in which they were put back last; and those that are out stand in
the order in which they were taken out last. A call that names no known target does nothing at
all. -/
theorem Reachable.history_determines_tables (h : Reachable m) (hs : m.world.strategy = some s)
    (hfilled : Opens m ∨ ∃ m₀, Reachable m₀ ∧ m₀.replacement?.isSome = true ∧ m = m₀.next) :
    s.rotation.failed = Table.empty ∧
    (s.building = false → ∀ moves a, Course m moves a → a.world.strategy.isSome = true) ∧
    ∀ moves a s', Course m moves a → a.world.strategy = some s' →
      (s'.rotation.active.entries ++ s'.rotation.failed.entries).Perm s.rotation.active.entries ∧
      (∀ target ∈ s.rotation.active.keys,
        (target ∈ s'.rotation.failed.keys ↔ isOut moves target = true) ∧
        (target ∈ s'.rotation.active.keys ↔ isOut moves target = false)) ∧
      s'.rotation.active.keys =
        (s.rotation.active.keys.filter fun target =>
          target ∉ named true s.rotation.active.keys moves) ++
        (named false s.rotation.active.keys moves).dedup.filter
          (fun target => !isOut moves target) ∧
      s'.rotation.failed.keys =
        (named true s.rotation.active.keys moves).dedup.filter (fun target => isOut moves target) ∧
      ∀ target ∉ s.rotation.active.keys,
        a.step? = some (.remove target) ∨ a.step? = some (.recover target) →
          a.next = done a.world a.stack := by
  have hfailed : s.rotation.failed = Table.empty := failed_of_filled hs hfilled
  refine ⟨hfailed, ?_, ?_⟩
  · intro hbuilt moves a hcourse
    obtain ⟨s', hs', -⟩ := hcourse.exists_of_built h hs hbuilt
    rw [hs']
    rfl
  · intro moves a s' hcourse hs'
    have hbooked := Course.booked hcourse h hs hfailed s' hs'
    refine ⟨hbooked.entries, ?_, hbooked.active, hbooked.failed, ?_⟩
    · exact fun target ht => ⟨hbooked.out target ht, hbooked.mem_active_iff ht⟩
    · intro target ht hstep
      obtain ⟨hremove, hrecover⟩ := hbooked.remove?_eq_none ht
      exact next_of_unknown hs' hremove hrecover hstep

/-- A session begins with three targets here; two are taken out, the first of them twice, both are
put back in the other order, one is taken out once more, and a target that is not known is named in
between. -/
theorem history_determines_tables_of_three :
    ∃ m moves a s', Reachable m ∧ Course m moves a ∧ a.world.strategy = some s' ∧
      moves.length = 7 ∧ s'.rotation.active.keys = ["c", "a"] ∧
      s'.rotation.failed.keys = ["b"] := by
  let setup : Setup := ⟨.zero, ⟨none, none⟩, false, .empty⟩
  let steps : List Step := [.remove "b", .remove "a", .elect 1, .recover "b", .remove "d",
    .recover "a", .remove "b"]
  let weights : Table Binary64 := .ofList [("a", .ofNat 4), ("b", .ofNat 2), ("c", .ofNat 3)]
  let w := openStrategy setup ⟨none, none, some [⟨steps, .returns⟩]⟩ weights
  let m : Machine := ⟨w, [], .deliver (.ok .nothing)⟩
  have hopen : Opens m := Opens.strategy ..
  have hkeys : m.world.strategy.map (fun s => s.rotation.active.keys) = some ["a", "b", "c"] := by
    decide +kernel
  obtain ⟨s, hs, hactive⟩ := Option.map_eq_some_iff.mp hkeys
  -- the listener is told that a target was taken out, and makes the other calls
  have hfirst : Course m [] (w.machine (.remove "a")) := Stretch.refl.enter (.perform w _ _)
  have hrest : Course (w.machine (.remove "a")) _ _ :=
    stretch_of_transitions moved 30 _ (by decide +kernel)
  have hmoves : (List.range 30).flatMap (fun i => moved (run i (w.machine (.remove "a")))) =
      [.remove "a", .remove "b", .remove "a", .recover "b", .remove "d", .recover "a",
        .remove "b"] := by
    decide +kernel
  rw [hmoves] at hrest
  have hthere : (run 30 (w.machine (.remove "a"))).world.strategy.isSome = true := by decide +kernel
  obtain ⟨s', hs'⟩ := Option.isSome_iff_exists.mp hthere
  obtain ⟨-, -, hdetermined⟩ := hopen.reachable.history_determines_tables hs (.inl hopen)
  obtain ⟨-, -, hkept, hout, -⟩ := hdetermined _ _ s' (hfirst.trans hrest) hs'
  rw [hactive] at hkept hout
  exact ⟨m, _, _, s', hopen.reachable, hfirst.trans hrest, hs', rfl, hkept, hout⟩

end Balancer.Session.Machine
