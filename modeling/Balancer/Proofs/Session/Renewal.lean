import Balancer.Proofs.Session.Electing
import Balancer.Proofs.Session.Rebinding

/-!
# Replacing all targets

A reset takes a list of endpoints, in which the same target may stand several times. Nothing of what
the strategy was before matters to its targets afterwards: each target of the list is in service
once, at the place of its first endpoint, none is taken out, and the elections begin with the first
one.

* `Balancer.Endpoint.targets` – **the targets of a list of endpoints**, each once.
* `Balancer.Rotation.BeginsWith` – **the rotation that is about to elect some targets in turn.**
  A reset makes one, `Balancer.Rotation.beginsWith_ofEndpoints`.
* `Balancer.Session.Machine.rotate_of_sequence_eq_none` – a strategy without targets stays without
  until its membership changes.
* `Balancer.Session.Machine.Reachable.reset_serves_each_once` – **after a reset every target of the
  list is elected once in every pass**, in the order of the list.
-/

namespace Balancer

/-- **The targets of a list of endpoints**, each once, in the order of their first endpoints. -/
def Endpoint.targets (endpoints : List Endpoint) : List String :=
  (endpoints.map Endpoint.key).eraseDups

/-- Only the empty list has no targets. -/
theorem Endpoint.targets_eq_nil {endpoints : List Endpoint} :
    targets endpoints = [] ↔ endpoints = [] := by
  cases endpoints with
  | nil => exact iff_of_true rfl rfl
  | cons e rest => rw [targets, List.map_cons, List.eraseDups_cons]; simp

/-- **Where all weights are 1 every target stands once in the election sequence.** -/
theorem Weight.expand_of_ones {table : Table Nat} (hne : table.entries ≠ [])
    (hones : ∀ e ∈ table.entries, e.2 = 1) : expand table = some table.keys.toArray := by
  have hplaces : ∀ e ∈ table.entries, places table e.2 = 1 := by
    intro e he
    have hone : reduction (table.entries.map Prod.snd) ∣ 1 :=
      hones e he ▸ reduction_dvd (List.mem_map_of_mem he)
    rw [places, hones e he, Nat.dvd_one.mp hone, Nat.div_one, ite_self]
  have hblocks : table.entries.flatMap (fun e => List.replicate (places table e.2) e.1) =
      table.entries.flatMap fun e => [e.1] :=
    List.flatMap_congr fun e he => by rw [hplaces e he, List.replicate_one]
  rw [expand_eq_blocks hne, hblocks, ← List.map_eq_flatMap]
  rfl

namespace Rotation

/-! ### The rotation of a list -/

/-- **The rotation that is about to elect some targets in turn**: they are in service, all with the
weight 1, and none is taken out. -/
structure BeginsWith (r : Rotation) (targets : List String) : Prop where
  /-- They are in service. -/
  active : r.active.entries = targets.map fun target => (target, 1)
  /-- No target is taken out. -/
  failed : r.failed = Table.empty
  /-- They are elected in turn; without a target there is no sequence. -/
  sequence : r.sequence = if targets = [] then none else some targets.toArray
  /-- The first one is next. -/
  cursor : r.cursor = 0

/-- **The rotation of a list of endpoints begins with the targets of the list.** -/
theorem beginsWith_ofEndpoints (endpoints : List Endpoint) :
    (ofEndpoints endpoints).BeginsWith (Endpoint.targets endpoints) := by
  have hkeys : (ofEndpoints endpoints).active.keys = Endpoint.targets endpoints := by
    rw [active_ofEndpoints, Table.keys_ofList, List.map_map]
    rfl
  have hones : ∀ e ∈ (ofEndpoints endpoints).active.entries, e.2 = 1 := by
    intro e he
    rw [active_ofEndpoints] at he
    obtain ⟨endpoint, -, rfl⟩ := List.mem_map.mp (Table.mem_entries_ofList he)
    rfl
  refine ⟨?_, rfl, ?_, rfl⟩
  · rw [Table.entries_eq_map_keys hones, hkeys]
  · rw [(sound_ofEndpoints endpoints).sequence_eq]
    split
    · next hnil =>
      rw [Weight.expand_eq_none_iff]
      exact List.map_eq_nil_iff.mp (hkeys.trans hnil)
    · next hne =>
      rw [← hkeys] at hne ⊢
      exact Weight.expand_of_ones (fun hnil => hne (congrArg (List.map Prod.fst) hnil)) hones

/-- No target stands twice among them. -/
theorem BeginsWith.nodup {r : Rotation} {targets : List String} (h : r.BeginsWith targets) :
    targets.Nodup := by
  have hkeys : r.active.keys = targets := by
    rw [Table.keys, h.active, List.map_map]
    exact List.map_id targets
  exact hkeys ▸ r.active.nodup

end Rotation

namespace Session.Machine

variable {m a : Machine} {s : Strategy} {r : Rotation}

/-! ### A strategy without targets -/

/-- **Without a sequence no election succeeds.** -/
theorem electTimes_of_sequence_eq_none (h : r.sequence = none) {times : Nat} (htimes : 1 ≤ times)
    (before : Array String) : electTimes times before r = .error .notInitialized := by
  obtain ⟨times, rfl⟩ := Nat.exists_eq_add_of_le' htimes
  rw [electTimes, Rotation.elect, h]
  rfl

/-- **A strategy without targets stays without** where its membership does not change. -/
theorem rotate_of_sequence_eq_none (hchanges : m.changes = false)
    (hs : m.world.strategy = some s) (h : s.rotation.sequence = none) :
    m.rotate s.rotation = s.rotation := by
  by_cases helect : ∃ times, m.step? = some (.elect times)
  · obtain ⟨times, hstep⟩ := helect
    rw [rotate_of_step (replacement?_of_elect hstep) hstep, Step.rotate]
    rcases Nat.eq_zero_or_pos times with rfl | hpos
    · rfl
    · rw [electTimes_of_sequence_eq_none h hpos]
      rfl
  · exact rotate_of_not_changes hchanges hs fun times heq => helect ⟨times, heq⟩

/-- It stays so over a stretch without a change. -/
theorem Steady.sequence_eq_none {elected : List String} (h : Steady m elected a)
    (hreach : Reachable m) (hs : m.world.strategy = some s) (hnone : s.rotation.sequence = none) :
    ∀ s', a.world.strategy = some s' → s'.rotation.sequence = none := by
  refine Stretch.keeps (P := fun _ r => r.sequence = none) h hreach (fun s' hs' => ?_)
    fun _ b s' _ hsteady hs' hbefore => ?_
  · cases hs.symm.trans hs'
    exact hnone
  · rw [rotate_of_sequence_eq_none hsteady hs' hbefore]
    exact hbefore

/-- A step that elects needs a strategy that is built. -/
theorem exists_strategy_of_elect {times : Nat} (hstep : m.step? = some (.elect times)) :
    ∃ s, m.world.strategy = some s ∧
      m.next = performStrategy m.world m.stack s (.elect times) := by
  obtain ⟨hcontrol, hbuilt⟩ := control_of_step? hstep
  obtain ⟨w, k, c⟩ := m
  cases hcontrol
  obtain ⟨s, hs⟩ := Option.isSome_iff_exists.mp hbuilt
  exact ⟨s, (Option.filter_eq_some_iff.mp hs).1, next_of_strategy hs rfl⟩

/-! ### Elections after a reset -/

section Elections

variable {targets elected : List String} {times : Nat}
variable (h : Steady m elected a) (hreach : Reachable m) (hs : m.world.strategy = some s)
  (hbegins : s.rotation.BeginsWith targets) (hstep : a.step? = some (.elect times))
include h hreach hs hbegins hstep

/-- **The elections go round the targets that the rotation begins with**, from the first one on. -/
theorem Steady.goesRound_of_beginsWith (hne : targets ≠ []) :
    ∃ delivered, a.next.control = .deliver (.ok (.targets delivered)) ∧
      delivered.length = times ∧ GoesRound targets 0 (elected ++ delivered) := by
  have hsequence : s.rotation.sequence = some targets.toArray :=
    hbegins.sequence.trans (if_neg hne)
  have hstands := (hreach.sound s hs).stands hsequence
  rw [hbegins.cursor] at hstands
  obtain ⟨s', hs', -⟩ := exists_strategy_of_elect hstep
  obtain ⟨hround, hstands'⟩ := Steady.goesRound h hreach hs hstands s' hs'
  obtain ⟨delivered, hcontrol, hlen, hmore, -⟩ := elect_next hstep hs' hstands'
  exact ⟨delivered, hcontrol, hlen, hround.append hmore⟩

/-- **Where it begins without a target, the elections fail.** -/
theorem Steady.fails_of_beginsWith (hnil : targets = []) (htimes : 1 ≤ times) :
    a.next.control = .deliver (.error .notInitialized) := by
  have hsequence : s.rotation.sequence = none := hbegins.sequence.trans (if_pos hnil)
  obtain ⟨s', hs', hnext⟩ := exists_strategy_of_elect hstep
  have hsequence' := h.sequence_eq_none hreach hs hsequence s' hs'
  rw [hnext, performStrategy, electTimes_of_sequence_eq_none hsequence' htimes]

end Elections

/-! ### The reset -/

/-- **A reset replaces all targets**, and tells the listener. -/
theorem exists_reset {service : String} {endpoints : List Endpoint}
    (hcontrol : m.control = .perform (.reset service endpoints))
    (hs : m.world.strategy? = some s)
    (hquiet : ∀ reaction, s.reaction? = some reaction → reaction.steps = []) :
    ∃ j s' outcome, j ≤ 1 ∧ (∀ i < j, Engaged (run i m.next)) ∧
      (run j m.next).stack = m.stack ∧ (run j m.next).control = .deliver outcome ∧
      s.Tells m.world.logs outcome ∧ (run j m.next).world.strategy = some s' ∧
      ∃ listener, s' = { s.replaceTargets service endpoints with listener := listener } := by
  obtain ⟨w, k, c⟩ := m
  cases hcontrol
  let u : World := w.modifyStrategy fun s => s.replaceTargets service endpoints
  have hnext : next ⟨w, k, .perform (.reset service endpoints)⟩ =
      notify u k (.reset service) := next_of_strategy hs rfl
  have hthere : w.strategy = some s := (Option.filter_eq_some_iff.mp hs).1
  have hstrategy : u.strategy = some (s.replaceTargets service endpoints) := by
    show w.strategy.map _ = _
    rw [hthere, Option.map_some]
  obtain ⟨j, v, outcome, hj, hengaged, hrun, htold, houtcome⟩ :=
    exists_told hstrategy hquiet k (.reset service)
  obtain ⟨listener, hv⟩ := htold.strategy _ hstrategy
  rw [← hnext] at hengaged hrun
  exact ⟨j, _, outcome, hj, hengaged, by rw [hrun], by rw [hrun], houtcome, by rw [hrun]; exact hv,
    listener, rfl⟩

/-- **A reset forgets the past, and every target of its list is elected once in every pass.** A
strategy is told at any point to replace all targets by those of a list of endpoints, and its
listener, if it has one, makes no calls of its own: then the reset is over after one or two
transitions, and nothing can come in between. The targets of the list are in service, each once with
the weight 1 at the place of its first endpoint, none is taken out, and the first one is next,
whatever the strategy was before. It remembers the list exactly where it follows the service, and
follows what it followed. From then on, until the membership changes again, the elections go round
the targets of the list, from the first one on; if the list is empty, they fail. -/
theorem Reachable.reset_serves_each_once (h : Reachable m) {service : String}
    {endpoints : List Endpoint} (hcontrol : m.control = .perform (.reset service endpoints))
    (hs : m.world.strategy? = some s)
    (hquiet : ∀ reaction, s.reaction? = some reaction → reaction.steps = []) :
    ∃ j s' outcome, j ≤ 1 ∧ (∀ i < j, Engaged (Machine.run i m.next)) ∧
      (Machine.run j m.next).stack = m.stack ∧ (Machine.run j m.next).control = .deliver outcome ∧
      s.Tells m.world.logs outcome ∧ (Machine.run j m.next).world.strategy = some s' ∧
      s'.rotation.BeginsWith (Endpoint.targets endpoints) ∧
      s'.binding = s.binding.map (fun b =>
        if b.service = service then { b with endpoints := endpoints } else b) ∧
      (Endpoint.targets endpoints).Nodup ∧
      ∀ elected a times, Steady (Machine.run j m.next) elected a → a.step? = some (.elect times) →
        (endpoints ≠ [] → ∃ delivered, a.next.control = .deliver (.ok (.targets delivered)) ∧
          delivered.length = times ∧
          (∀ k < (elected ++ delivered).length, (elected ++ delivered)[k]? =
            (Endpoint.targets endpoints)[k % (Endpoint.targets endpoints).length]?) ∧
          ((elected ++ delivered).length = (Endpoint.targets endpoints).length →
            elected ++ delivered = Endpoint.targets endpoints)) ∧
        (endpoints = [] → 1 ≤ times → a.next.control = .deliver (.error .notInitialized)) := by
  obtain ⟨j, s', outcome, hj, hengaged, hstack, hdelivers, houtcome, hs', listener, heq⟩ :=
    exists_reset hcontrol hs hquiet
  have hbegins : s'.rotation.BeginsWith (Endpoint.targets endpoints) := by
    rw [heq]
    exact Rotation.beginsWith_ofEndpoints endpoints
  have hbinding : s'.binding = s.binding.map fun b => b.see service endpoints := by
    rw [heq]
    rfl
  have hreach : Reachable (Machine.run j m.next) :=
    (h.leads (.next m)).run (run_of_transitions j m.next)
  refine ⟨j, s', outcome, hj, hengaged, hstack, hdelivers, houtcome, hs', hbegins, hbinding,
    hbegins.nodup, fun elected a times hsteady hstep => ⟨fun hne => ?_, fun hnil htimes => ?_⟩⟩
  · have hsome : Endpoint.targets endpoints ≠ [] := mt Endpoint.targets_eq_nil.mp hne
    obtain ⟨delivered, hcontrol', hlen, hround⟩ :=
      hsteady.goesRound_of_beginsWith hreach hs' hbegins hstep hsome
    refine ⟨delivered, hcontrol', hlen, fun k hk => ?_, fun hpass => ?_⟩
    · rw [hround k hk, Nat.zero_add]
    · have htake := hround.eq_take hpass.le
      rwa [List.rotate_zero, List.take_of_length_le hpass.ge] at htake
  · exact hsteady.fails_of_beginsWith hreach hs' hbegins hstep (by rw [hnil]; rfl) htimes

/-- A strategy has elected and has taken out a target; then it takes a list in which that target
stands, and another one twice. Both are in service again, and the elections begin with the first
one. -/
theorem reset_serves_each_once_of_two :
    ∃ m s, Reachable m ∧ m.world.strategy? = some s ∧ s.rotation.failed.keys = ["10.0.0.1:80"] ∧
      s.rotation.cursor = 1 ∧ ∃ j s' b elected a delivered,
        (Machine.run j m.next).world.strategy = some s' ∧ s'.rotation.failed = .empty ∧
        s'.binding = some b ∧ b.endpoints.map Endpoint.host = ["10.0.0.9", "10.0.0.1", "10.0.0.9"] ∧
        Steady (Machine.run j m.next) elected a ∧ elected.length = 1 ∧
        a.next.control = .deliver (.ok (.targets delivered)) ∧ delivered.length = 3 ∧
        ∀ k < 4, (elected ++ delivered)[k]? = ["10.0.0.9:80", "10.0.0.1:80"][k % 2]? := by
  let before : List Endpoint := [⟨"10.0.0.1", .ofNat 80⟩, ⟨"10.0.0.2", .ofNat 80⟩]
  let after : List Endpoint :=
    [⟨"10.0.0.9", .ofNat 80⟩, ⟨"10.0.0.1", .ofNat 80⟩, ⟨"10.0.0.9", .ofNat 80⟩]
  let setup : Setup :=
    ⟨.zero, ⟨none, none⟩, false, .ofList [("registry", ⟨.ofList [("echo", before)], []⟩)]⟩
  let options : Options := ⟨none, none, some [⟨[], .returns⟩, ⟨[], .returns⟩]⟩
  let m₀ := Machine.run 9 (boundMachine setup options "echo" "registry")
  have h₀ : Reachable m₀ :=
    (Opens.bound setup options "echo" "registry").reachable.run (run_of_transitions 9 _)
  let m₁ := Machine.run 6 (m₀.world.machine (.remove "10.0.0.1:80"))
  let m₂ := Machine.run 3 (m₁.world.machine (.elect 2))
  have h₁ : Run m₀ m₁ := run_of_step (by decide +kernel) _ _
  have h₂ : Run m₁ m₂ := run_of_step (by decide +kernel) _ _
  let m := m₂.world.machine (.reset "echo" after)
  have hm : Reachable m := (h₀.run (h₁.trans h₂)).run (run_of_step (by decide +kernel) _ 0)
  have hcontrol : m.control = .perform (.reset "echo" after) := rfl
  have hkeys : m.world.strategy?.map (fun s => (s.rotation.failed.keys, s.rotation.cursor)) =
      some (["10.0.0.1:80"], 1) := by decide +kernel
  have hquiet :
      ((m.world.strategy?.bind Strategy.reaction?).all fun r => r.steps.isEmpty) = true := by
    decide +kernel
  have hservice : (m.world.strategy?.bind Strategy.binding).map Binding.service = some "echo" := by
    decide +kernel
  obtain ⟨s, hs, hfailed⟩ := Option.map_eq_some_iff.mp hkeys
  rw [Prod.mk.injEq] at hfailed
  rw [hs, Option.bind_some] at hquiet hservice
  obtain ⟨b, hb, hbound⟩ := Option.map_eq_some_iff.mp hservice
  obtain ⟨j, s', outcome, hj, -, hstack, -, -, hs', hbegins, hbinding, -, helects⟩ :=
    hm.reset_serves_each_once hcontrol hs fun reaction hreaction => by
      rw [hreaction] at hquiet
      exact List.isEmpty_iff.mp hquiet
  rw [hb, Option.map_some, if_pos hbound] at hbinding
  -- the listener has been told, so that the reset takes two transitions
  have htold : m.next.stack.length = 2 := by decide +kernel
  rcases Nat.le_one_iff_eq_zero_or_eq_one.mp hj with rfl | rfl
  · cases htold.symm.trans (congrArg List.length hstack)
  let m₃ := Machine.run 1 (Machine.run 1 m.next)
  let m₄ := Machine.run 3 (m₃.world.machine (.elect 1))
  let a := m₄.world.machine (.elect 3)
  have hreturns : Steady (Machine.run 1 m.next) _ m₃ :=
    stretch_of_transitions elected 1 _ (by decide +kernel)
  have helect : Steady m₃ _ m₄ :=
    stretch_of_step elected (by decide +kernel) (.elect 1) 3 (by decide +kernel)
  have hasks : Steady m₄ _ a :=
    stretch_of_step elected (by decide +kernel) (.elect 3) 0 (by decide +kernel)
  obtain ⟨elected, hone, hsteady⟩ :
      ∃ elected, elected.length = 1 ∧ Steady (Machine.run 1 m.next) elected a :=
    ⟨_, by decide +kernel, (hreturns.trans helect).trans hasks⟩
  have hbuilt : a.world.strategy?.isSome = true := by decide +kernel
  have hstep : a.step? = some (.elect 3) := step?_of_control rfl hbuilt
  obtain ⟨hdelivers, -⟩ := helects _ a 3 hsteady hstep
  obtain ⟨delivered, hdelivered, hlen, hround, -⟩ := hdelivers (by simp [after])
  have htargets : Endpoint.targets after = ["10.0.0.9:80", "10.0.0.1:80"] := by decide +kernel
  have hhosts : after.map Endpoint.host = ["10.0.0.9", "10.0.0.1", "10.0.0.9"] := by decide +kernel
  rw [htargets, List.length_append, hone, hlen] at hround
  exact ⟨m, s, hm, hs, hfailed.1, hfailed.2, 1, s', _, elected, a, delivered, hs', hbegins.failed,
    hbinding, hhosts, hsteady, hone, hdelivered, hlen, hround⟩

end Session.Machine

end Balancer
