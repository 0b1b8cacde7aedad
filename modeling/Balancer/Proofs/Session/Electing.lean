import Balancer.Proofs.Fairness
import Balancer.Proofs.Session.Course
import Balancer.Proofs.Session.Targets

/-!
# What a strategy elects

A pass over the targets begins where the membership changes, and goes on until it changes again,
whatever else happens in between: reading, polling, lookups that bind the strategy and are open or
fail, cycles that find nothing new, and calls that would change the membership but do not.

* `Balancer.Session.Machine.changes` – whether the next transition changes the membership.
* `Balancer.Session.Machine.elected` – the targets that the next transition delivers for an
  election.
* `Balancer.Session.Machine.Steady` – **a stretch without a change**, with the targets elected.
* `Balancer.Session.Machine.Reachable.elections_go_round` – **the targets elected in it go round the
  sequence**, and every window of them holds each target in proportion.
-/

namespace Balancer.Session

/-! ### Changes of the membership -/

/-- Whether a step changes the membership of a rotation: it takes out a target in service, or puts
back one that was taken out. -/
def Step.changes (step : Step) (r : Rotation) : Bool :=
  match step with
  | .remove target => r.active.keys.contains target
  | .recover target => r.failed.keys.contains target
  | _ => false

/-- **A step that changes the membership begins a new pass.** -/
theorem Step.rotate_of_changes {step : Step} {r : Rotation} (h : step.changes r = true) :
    (step.rotate r).cursor = 0 := by
  cases step with
  | remove target =>
    obtain ⟨weight, hget⟩ := Table.exists_get?_of_mem_keys (List.contains_iff_mem.mp h)
    rw [rotate, Rotation.remove?, hget]
    rfl
  | recover target =>
    obtain ⟨weight, hget⟩ := Table.exists_get?_of_mem_keys (List.contains_iff_mem.mp h)
    rw [rotate, Rotation.recover?, hget]
    rfl
  | _ => exact absurd h Bool.false_ne_true

/-- A step that neither changes the membership nor elects leaves the rotation alone. -/
theorem Step.rotate_of_not_changes {step : Step} {r : Rotation} (h : step.changes r = false)
    (helect : ∀ times, step ≠ .elect times) : step.rotate r = r := by
  cases step with
  | elect times => exact absurd rfl (helect times)
  | remove target =>
    have hget : r.active.get? target = none :=
      Table.get?_eq_none_iff.mpr fun hmem => by
        rw [changes, List.contains_iff_mem.mpr hmem] at h
        exact absurd h Bool.noConfusion
    rw [rotate, Rotation.remove?, hget]
    rfl
  | recover target =>
    have hget : r.failed.get? target = none :=
      Table.get?_eq_none_iff.mpr fun hmem => by
        rw [changes, List.contains_iff_mem.mpr hmem] at h
        exact absurd h Bool.noConfusion
    rw [rotate, Rotation.recover?, hget]
    rfl
  | _ => rfl

namespace Machine

variable {m a : Machine} {s : Strategy} {r : Rotation} {sequence : Array String}

/-- **Whether the next transition changes the membership**: all targets are replaced, one is taken
out, or one is put back. -/
def changes (m : Machine) : Bool :=
  m.replacement?.isSome ||
    m.step?.any fun step => m.world.strategy.any fun s => step.changes s.rotation

/-- **The targets that the next transition delivers**, if it elects. -/
def elected (m : Machine) : List String :=
  match m.step?, m.next.control with
  | some (.elect _), .deliver (.ok (.targets targets)) => targets
  | _, _ => []

/-- **A stretch in which the membership does not change**, with the targets elected in it. -/
abbrev Steady : Machine → List String → Machine → Prop :=
  Stretch (fun m => m.changes = false) elected

/-! ### New passes -/

/-- **Where the membership changes a new pass begins.** -/
theorem Reachable.cursor_next (h : Reachable m) (hchanges : m.changes = true)
    (hs : m.next.world.strategy = some s) : s.rotation.cursor = 0 := by
  obtain ⟨s₀, hs₀, hrotation⟩ := (hs ▸ h.evolves_next).exists_of_some
  rw [hrotation]
  rcases hreplaced : m.replacement? with _ | endpoints
  · rw [changes, hreplaced, Option.isSome_none, Bool.false_or] at hchanges
    rw [hs₀] at hchanges
    obtain ⟨step, hstep, hany⟩ := (Option.any_eq_true _ _).mp hchanges
    rw [rotate_of_step hreplaced hstep]
    exact Step.rotate_of_changes hany
  · rw [rotate_of_replacement hreplaced]
    rfl

/-- A session begins with a new pass. -/
theorem Opens.cursor_eq (h : Opens m) (hs : m.world.strategy = some s) : s.rotation.cursor = 0 := by
  obtain ⟨weights, hrotation⟩ := h.exists_ofWeights hs
  rw [hrotation]
  rfl

/-! ### Elections -/

/-- **A number of elections** yields as many targets, from the place on where the rotation
stands. -/
theorem electTimes_of_stands {place : Nat} (h : r.Stands sequence place) (times : Nat)
    (before : Array String) :
    ∃ targets r', electTimes times before r = .ok (before ++ targets, r') ∧
      targets.size = times ∧ GoesRound sequence.toList place targets.toList ∧
      r'.Stands sequence (place + times) := by
  induction times generalizing r place before with
  | zero => exact ⟨#[], r, by rw [electTimes, Array.append_empty], rfl, .nil, h⟩
  | succ times ih =>
    obtain ⟨target, r₁, helect, htarget, hstands⟩ := h.elect
    obtain ⟨targets, r', htimes, hsize, hround, hstands'⟩ := ih hstands (before.push target)
    refine ⟨#[target] ++ targets, r', ?_, ?_, ?_, ?_⟩
    · rw [electTimes, helect]
      refine htimes.trans ?_
      rw [← Array.append_assoc]
      rfl
    · rw [Array.size_append, hsize]
      exact Nat.add_comm 1 times
    · have hfirst : GoesRound sequence.toList place [target] := by
        refine GoesRound.singleton ?_
        rw [Array.length_toList, Array.getElem?_toList]
        exact htarget
      rw [Array.toList_append]
      exact hfirst.append hround
    · rw [← Nat.add_assoc, Nat.add_right_comm]
      exact hstands'

/-- An election replaces no target. -/
theorem replacement?_of_elect {times : Nat} (hstep : m.step? = some (.elect times)) :
    m.replacement? = none := by
  rw [replacement?, (control_of_step? hstep).1, hstep]
  rfl

/-- **An election does not change the membership.** -/
theorem changes_of_elect {times : Nat} (hstep : m.step? = some (.elect times)) :
    m.changes = false := by
  rw [changes, replacement?_of_elect hstep, hstep]
  cases m.world.strategy <;> rfl

/-- **An election delivers the targets from the place on where the rotation stands.** -/
theorem elect_next {place times : Nat} (hstep : m.step? = some (.elect times))
    (hs : m.world.strategy = some s) (h : s.rotation.Stands sequence place) :
    ∃ targets, m.next.control = .deliver (.ok (.targets targets)) ∧ targets.length = times ∧
      GoesRound sequence.toList place targets ∧
      (m.rotate s.rotation).Stands sequence (place + times) := by
  obtain ⟨targets, r', htimes, hsize, hround, hstands⟩ := electTimes_of_stands h times #[]
  rw [Array.empty_append] at htimes
  obtain ⟨hcontrol, hbuilt⟩ := control_of_step? hstep
  refine ⟨targets.toList, ?_, hsize, hround, ?_⟩
  · obtain ⟨w, k, c⟩ := m
    cases hcontrol
    obtain ⟨s', hs'⟩ := Option.isSome_iff_exists.mp hbuilt
    have hsame : some s' = some s := (Option.filter_eq_some_iff.mp hs').1.symm.trans hs
    cases hsame
    rw [next_of_strategy hs' rfl, performStrategy, htimes]
    rfl
  · rw [rotate_of_step (replacement?_of_elect hstep) hstep, Step.rotate, htimes]
    exact hstands

/-- Where nothing is elected, nothing is delivered for an election. -/
theorem elected_eq_nil (h : ∀ times, m.step? ≠ some (.elect times)) : m.elected = [] := by
  unfold elected
  split
  · next hstep _ => exact absurd hstep (h _)
  · rfl

/-- A transition that neither changes the membership nor elects leaves the rotation alone. -/
theorem rotate_of_not_changes (hchanges : m.changes = false) (hs : m.world.strategy = some s)
    (hnever : ∀ times, m.step? ≠ some (.elect times)) : m.rotate s.rotation = s.rotation := by
  rw [changes, Bool.or_eq_false_iff, Option.isSome_eq_false_iff,
    Option.isNone_iff_eq_none] at hchanges
  obtain ⟨hkept, hsteps⟩ := hchanges
  rcases hstep : m.step? with _ | step
  · rw [rotate_of_still hkept hstep]
    rfl
  · rw [hstep, hs] at hsteps
    rw [rotate_of_step hkept hstep]
    refine Step.rotate_of_not_changes hsteps fun times heq => ?_
    exact hnever times (heq ▸ hstep)

/-- **A transition that does not change the membership** goes on with the pass by the targets that
it elects. -/
theorem stands_rotate {place : Nat} (hchanges : m.changes = false)
    (hs : m.world.strategy = some s) (h : s.rotation.Stands sequence place) :
    GoesRound sequence.toList place m.elected ∧
      (m.rotate s.rotation).Stands sequence (place + m.elected.length) := by
  by_cases helect : ∃ times, m.step? = some (.elect times)
  · obtain ⟨times, hstep⟩ := helect
    obtain ⟨targets, hcontrol, hlen, hround, hstands⟩ := elect_next hstep hs h
    have helected : m.elected = targets := by
      rw [elected, hstep, hcontrol]
    rw [helected, hlen]
    exact ⟨hround, hstands⟩
  · have hnever : ∀ times, m.step? ≠ some (.elect times) := fun times heq => helect ⟨times, heq⟩
    rw [elected_eq_nil hnever, rotate_of_not_changes hchanges hs hnever]
    exact ⟨.nil, h⟩

/-! ### Runs without a change -/

/-- **In a stretch without a change the targets elected go round the sequence.** -/
theorem Steady.goesRound {targets : List String} (h : Steady m targets a) (hreach : Reachable m)
    (hs : m.world.strategy = some s) {place : Nat} (hstands : s.rotation.Stands sequence place) :
    ∀ s', a.world.strategy = some s' → GoesRound sequence.toList place targets ∧
      s'.rotation.Stands sequence (place + targets.length) := by
  refine Stretch.keeps (P := fun targets r => GoesRound sequence.toList place targets ∧
    r.Stands sequence (place + targets.length)) h hreach ?_ ?_
  · intro s' hs'
    cases hs.symm.trans hs'
    exact ⟨.nil, hstands⟩
  · intro targets b s' _ hsteady hs' hbefore
    obtain ⟨hround, hstands'⟩ := hbefore
    obtain ⟨hmore, hnext⟩ := stands_rotate hsteady hs' hstands'
    rw [List.length_append, ← Nat.add_assoc]
    exact ⟨hround.append hmore, hnext⟩

/-- **Elections go round the sequence, and are fair.** A pass begins at the first place where a
session begins and where the membership changes, and the sequence is that of the targets then in
service. As long as the membership does not change, whatever else happens, the targets elected go
round the sequence from the place of the cursor on, and an election delivers the next ones. So a
target that stands a number of times in the sequence is elected that often in every whole pass that
a window of elections holds, and in the rest of it no more often than that or than the rest is
long. -/
theorem Reachable.elections_go_round (h : Reachable m) (hs : m.world.strategy = some s)
    (hseq : s.rotation.sequence = some sequence) :
    ((Opens m ∨ ∃ m₀, Reachable m₀ ∧ m₀.changes = true ∧ m = m₀.next) →
      s.rotation.cursor = 0 ∧ Weight.expand s.rotation.active = some sequence) ∧
    ∀ targets a s', Steady m targets a → a.world.strategy = some s' →
      s'.rotation.sequence = some sequence ∧
      (∀ k < targets.length, targets[k]? = sequence[(s.rotation.cursor + k) % sequence.size]?) ∧
      (∀ times, a.step? = some (.elect times) → ∃ delivered,
        a.next.control = .deliver (.ok (.targets delivered)) ∧ delivered.length = times ∧
          Steady m (targets ++ delivered) a.next) ∧
      ∀ before window after q r, targets = before ++ window ++ after →
        window.length = q * sequence.size + r → r < sequence.size → ∀ target,
          q * sequence.count target ≤ window.count target ∧
            window.count target ≤ q * sequence.count target + min r (sequence.count target) := by
  have hsound : s.rotation.Sound := h.sound s hs
  constructor
  · intro hbegins
    refine ⟨?_, hsound.sequence_eq.symm.trans hseq⟩
    rcases hbegins with hopen | ⟨m₀, h₀, hchanges, rfl⟩
    · exact hopen.cursor_eq hs
    · exact h₀.cursor_next hchanges hs
  · intro targets a s' hsteady hs'
    obtain ⟨hround, hstands⟩ := Steady.goesRound hsteady h hs (hsound.stands hseq) s' hs'
    refine ⟨hstands.sequence_eq, ?_, ?_, ?_⟩
    · intro k hk
      rw [hround k hk, Array.length_toList, Array.getElem?_toList]
    · intro times hstep
      obtain ⟨delivered, hcontrol, hlen, -⟩ := elect_next hstep hs' hstands
      refine ⟨delivered, hcontrol, hlen, ?_⟩
      have helected : a.elected = delivered := by
        rw [elected, hstep, hcontrol]
      rw [← helected]
      exact hsteady.next (changes_of_elect hstep)
    · intro before window after q r heq hlen hr target
      rw [heq] at hround
      have hwindow := hround.of_append.1.of_append.2
      rw [← Array.length_toList] at hlen hr
      rw [← Array.count_toList]
      exact hwindow.count_bounds hlen hr target

/-- A target has been taken out here, and the listener that is told of it elects twice, takes the
same target out again, reads the status and elects three times. The five targets go round a sequence
of three places. -/
theorem elections_go_round_while_listening :
    ∃ m targets a, Reachable m ∧ Steady m targets a ∧ targets.length = 5 ∧
      ∀ k < 5, targets[k]? = #["a", "a", "b"][k % 3]? := by
  let setup : Setup := ⟨.zero, ⟨none, none⟩, false, .empty⟩
  let steps : List Step := [.elect 2, .remove "c", .status, .elect 3]
  let weights : Table Binary64 := .ofList [("a", .ofNat 4), ("b", .ofNat 2), ("c", .ofNat 3)]
  let w := openStrategy setup ⟨none, none, some [⟨steps, .returns⟩]⟩ weights
  have hopen : Reachable ⟨w, [], .deliver (.ok .nothing)⟩ := (Opens.strategy ..).reachable
  let m₀ := w.machine (.remove "c")
  have h₀ : Reachable m₀ := hopen.leads (.perform w _ _)
  have hm : Reachable m₀.next := h₀.leads (.next m₀)
  have hsequence : m₀.next.world.strategy.bind (fun s => s.rotation.sequence) =
      some #["a", "a", "b"] := by decide +kernel
  obtain ⟨s, hs, hseq⟩ := Option.bind_eq_some_iff.mp hsequence
  -- the listener has run all its steps
  have hsteady : Steady m₀.next _ _ := stretch_of_transitions elected 8 _ (by decide +kernel)
  have hthere : (run 8 m₀.next).world.strategy.isSome = true := by decide +kernel
  obtain ⟨s', hs'⟩ := Option.isSome_iff_exists.mp hthere
  obtain ⟨hbegins, hsteadily⟩ := hm.elections_go_round hs hseq
  obtain ⟨hcursor, -⟩ := hbegins (.inr ⟨m₀, h₀, by decide +kernel, rfl⟩)
  obtain ⟨-, hround, -, -⟩ := hsteadily _ _ s' hsteady hs'
  have hlen : ((List.range 8).flatMap fun i => elected (run i m₀.next)).length = 5 := by
    decide +kernel
  refine ⟨m₀.next, _, _, hm, hsteady, hlen, fun k hk => ?_⟩
  rw [hround k (hlen.symm ▸ hk), hcursor, Nat.zero_add]
  rfl

end Machine

end Balancer.Session
