import Balancer.Proofs.Rotation
import Balancer.Proofs.Session.Generation

/-!
# The targets of a strategy

Five things that a rotation holds are rewritten together by every change of the membership,
and steps may be made from inside a listener or a lookup while another one is under way.
They agree at every point of a session nevertheless.

* `Balancer.Session.Rotates.sound` – **every step keeps a rotation sound.**
* `Balancer.Session.Machine.Turn.sound` – so does every transition.
* `Balancer.Session.Machine.Reachable.rotation_agrees` – **at every reachable point the targets
  agree with the tables**, and an election yields a target in service.
-/

namespace Balancer.Session

/-! ### Steps -/

/-- **Every step keeps a rotation sound.** -/
theorem Rotates.sound {step : Step} {r r' : Rotation} (h : Rotates step r r') (hr : r.Sound) :
    r'.Sound := by
  cases h with
  | elect h =>
    exact Machine.electTimes_keeps (P := Rotation.Sound)
      (fun _ _ _ hsound helect => (hsound.elect_eq_ok helect).2.2) h hr
  | remove h => exact hr.remove? h
  | recover h => exact hr.recover? h

/-! ### Transitions -/

/-- The rotation of the strategy, if there is one, is sound. -/
def World.Sound (w : World) : Prop := ∀ s, w.strategy = some s → s.rotation.Sound

/-- A strategy that changes in sound ways is sound. -/
theorem World.Sound.map {w w' : World} {f : Strategy → Strategy} (h : w.Sound)
    (hw : w'.strategy = w.strategy.map f) (hf : ∀ s, s.rotation.Sound → (f s).rotation.Sound) :
    w'.Sound := by
  intro s' hs'
  rw [hw] at hs'
  obtain ⟨s, hs, rfl⟩ := Option.map_eq_some_iff.mp hs'
  exact hf s (h s hs)

namespace Machine

variable {m m' : Machine} {s : Strategy}

/-- Bookkeeping keeps a rotation sound. -/
theorem Calm.sound (h : Calm m m') (hm : m.world.Sound) : m'.world.Sound := by
  intro s' hs'
  have hkept := h.strategy
  rw [hs'] at hkept
  obtain ⟨s, hs, hagrees⟩ := hkept.exists_of_some
  rw [hagrees.rotation]
  exact hm s hs

/-- **Every transition keeps the rotation sound**: a step does, and a reset makes a new one. -/
theorem Turn.sound (h : Turn m m') (hm : m.world.Sound) : m'.world.Sound := by
  cases h with
  | calm h => exact h.sound hm
  | @rotate x step s rotation _ before strategy rotates after =>
    refine after.sound ?_
    intro s' hs'
    obtain ⟨s₀, hs₀, rfl⟩ := Option.map_eq_some_iff.mp hs'
    exact rotates.sound (before.sound hm s strategy)
  | reset _ before after =>
    exact after.sound ((before.sound hm).map rfl fun _ _ => Rotation.sound_ofEndpoints _)
  | @rebind x call service provider listing _ before after =>
    exact after.sound ((before.sound hm).map (x.strategy_rebound call service provider listing)
      fun _ _ => Rotation.sound_ofEndpoints _)
  | @start x services _ _ before after =>
    have hact := x.world.strategy_startRefresher 0 services
    exact after.sound fun s hs => before.sound hm s (hact ▸ hs)
  | @stop x number _ before after =>
    have hact := x.world.strategy_stopRefresher number
    exact after.sound fun s hs => before.sound hm s (hact ▸ hs)
  | @poll x _ binding timings _ before _ _ _ _ after =>
    exact after.sound ((before.sound hm).map (x.world.strategy_pollWith binding timings)
      fun _ hs => hs)
  | ask before _ _ _ _ after => exact after.sound (before.sound hm)
  | take _ _ _ before after =>
    exact after.sound ((before.sound hm).map rfl fun _ _ => Rotation.sound_ofEndpoints _)
  | callBack _ _ _ before _ after => exact after.sound (before.sound hm)

/-! ### All points of a session -/

/-- A session begins with a sound rotation, or with none. -/
theorem Opens.sound (h : Opens m) : m.world.Sound := by
  cases h with
  | strategy setup options weights =>
    intro s hs
    cases hs
    exact Rotation.sound_ofWeights weights
  | bound setup options service provider =>
    refine (calm_boundMachine setup options service provider).sound ?_
    intro s hs
    cases hs
    exact Rotation.sound_ofWeights Table.empty
  | refresher h =>
    rw [openRefresher_eq_ok h]
    intro s hs
    exact absurd hs (by simp [Setup.world])

/-- **The rotation is sound at every point of a session.** -/
theorem Reachable.sound (h : Reachable m) : m.world.Sound :=
  h.induction (P := fun m => m.world.Sound) (fun _ => Opens.sound) fun _ _ hm hsound hl =>
    (hm.turn hl).sound hsound

/-- **At every point of a session the targets agree with the tables**, also where a listener or
a naming service is about to run steps of its own: the two tables are disjoint and hold
weights of at least 1, the status lists every known target once, the sequence is the one of
the active table and is missing exactly where that is empty, its distinct targets are the
keys of the active table in order, and the cursor lies in it or right behind it. So an
election yields a target in service, or fails where there is none. -/
theorem Reachable.rotation_agrees (h : Reachable m) (hs : m.world.strategy = some s) :
    (∀ target ∈ s.rotation.active.keys, target ∉ s.rotation.failed.keys) ∧
    (s.rotation.status.map TargetStatus.target).Nodup ∧
    (∀ target, target ∈ s.rotation.status.map TargetStatus.target ↔
      target ∈ s.rotation.active.keys ∨ target ∈ s.rotation.failed.keys) ∧
    (∀ e ∈ s.rotation.active.entries, 1 ≤ e.2) ∧
    (∀ e ∈ s.rotation.failed.entries, 1 ≤ e.2) ∧
    s.rotation.sequence = Weight.expand s.rotation.active ∧
    (s.rotation.sequence = none ↔ s.rotation.active.keys = []) ∧
    (s.rotation.sequence.elim [] Array.toList).eraseDups = s.rotation.active.keys ∧
    s.rotation.cursor ≤ s.rotation.passLength ∧
    (s.rotation.active.keys = [] ∧ s.rotation.elect = .error .notInitialized ∨
      ∃ target r', s.rotation.elect = .ok (target, r') ∧ target ∈ s.rotation.active.keys ∧
        target ∉ s.rotation.failed.keys) := by
  have hsound : s.rotation.Sound := h.sound s hs
  have hempty : s.rotation.sequence = none ↔ s.rotation.active.keys = [] := by
    rw [hsound.sequence_eq_none_iff]
    exact List.map_eq_nil_iff.symm
  -- the targets read off the sequence are its distinct elements
  have hdistinct : (s.rotation.sequence.elim [] Array.toList).eraseDups = s.rotation.active.keys := by
    rw [← hsound.targets_eq, Rotation.targets]
    cases s.rotation.sequence <;> rfl
  have helect : s.rotation.active.keys = [] ∧ s.rotation.elect = .error .notInitialized ∨
      ∃ target r', s.rotation.elect = .ok (target, r') ∧ target ∈ s.rotation.active.keys ∧
        target ∉ s.rotation.failed.keys := by
    cases h : s.rotation.elect with
    | error failure =>
      obtain ⟨hnone, rfl⟩ := hsound.elect_eq_error_iff.mp h
      exact .inl ⟨hnone, rfl⟩
    | ok next =>
      obtain ⟨hactive, hfailed, -⟩ := hsound.elect_eq_ok h
      exact .inr ⟨next.1, next.2, rfl, hactive, hfailed⟩
  refine ⟨hsound.disjoint, ?_, ?_, hsound.one_le_active, hsound.one_le_failed,
    hsound.sequence_eq, hempty, hdistinct, hsound.cursor_le, helect⟩
  · rw [Rotation.map_target_status]
    exact hsound.nodup_known
  · intro target
    rw [Rotation.map_target_status, Rotation.mem_known]

/-- One such point: a target has been taken out, and the listener that is told of it is about
to take out another one. -/
theorem rotation_agrees_while_listening :
    ∃ m s, Reachable m ∧ m.world.strategy = some s ∧ m.stack.length = 3 ∧
      s.rotation.active.keys = ["b", "c"] ∧ s.rotation.failed.keys = ["a"] ∧
      (s.rotation.status.map TargetStatus.target).Nodup ∧
      ∃ target r', s.rotation.elect = .ok (target, r') ∧ target ∈ s.rotation.active.keys ∧
        target ∉ s.rotation.failed.keys := by
  let setup : Setup := ⟨.zero, ⟨none, none⟩, false, .empty⟩
  let options : Options := ⟨none, none, some [⟨[.remove "b"], .returns⟩]⟩
  let weights : Table Binary64 := .ofList [("a", .ofNat 6), ("b", .ofNat 4), ("c", .ofNat 2)]
  let w := openStrategy setup options weights
  have hopen : Reachable ⟨w, [], .deliver (.ok .nothing)⟩ :=
    (Opens.strategy setup options weights).reachable
  have hreach : Reachable (w.machine (.remove "a")).next :=
    (hopen.leads (.perform w _ _)).leads (.next _)
  have hsome : (w.machine (.remove "a")).next.world.strategy.isSome = true := by decide +kernel
  obtain ⟨s, hs⟩ := Option.isSome_iff_exists.mp hsome
  have hkeys : (w.machine (.remove "a")).next.world.strategy.map
      (fun s => (s.rotation.active.keys, s.rotation.failed.keys)) = some (["b", "c"], ["a"]) := by
    decide +kernel
  rw [hs, Option.map_some, Option.some.injEq, Prod.mk.injEq] at hkeys
  have hstack : (w.machine (.remove "a")).next.stack.length = 3 := by decide +kernel
  obtain ⟨-, hnodup, -, -, -, -, -, -, -, helect⟩ := hreach.rotation_agrees hs
  refine ⟨_, s, hreach, hs, hstack, hkeys.1, hkeys.2, hnodup, ?_⟩
  rcases helect with ⟨hnone, -⟩ | helect
  · rw [hkeys.1] at hnone
    exact absurd hnone (by simp)
  · exact helect

end Machine

end Balancer.Session
