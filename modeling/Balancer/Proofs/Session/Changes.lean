import Balancer.Proofs.Session.Snapshot

/-!
# The difference between two listings

A cycle compares what its lookup was answered with to what the refresher saw last. What it is to
hand over is the difference of the two, service by service in the order in which the refresher
tracks them.

* `Balancer.Endpoint.sameList_eq_true_iff` – lists agree in length, and in host and port place by
  place.
* `Balancer.Refresher.changes` – **the difference**: the services whose list changed, with their new
  lists; `Balancer.Refresher.mem_changes` says which they are.
* `Balancer.Table.insertAll` – the table with entries put in, one after the other.
* `Balancer.Refresher.changed_of_seen` – **what was handed over is no change any more.**
-/

namespace Balancer

/-! ### Lists that agree -/

namespace Endpoint

/-- A list of numbered ports agrees with itself. -/
theorem sameList_self {es : List Endpoint} (h : ∀ e ∈ es, e.port ≠ .nan) :
    sameList es es = true := by
  induction es with
  | nil => rfl
  | cons e es ih =>
    have hfirst : e.same e = true := by
      rw [same, beq_self_eq_true, Bool.true_and]
      exact Binary64.same_self (h e List.mem_cons_self)
    rw [sameList, hfirst, Bool.true_and]
    exact ih fun e' he' => h e' (List.mem_cons_of_mem e he')

/-- **Lists agree in length, and in host and port place by place.** -/
theorem sameList_eq_true_iff {as bs : List Endpoint} :
    sameList as bs = true ↔ as.length = bs.length ∧ ∀ (i : Nat) (a b : Endpoint),
      as[i]? = some a → bs[i]? = some b → a.host = b.host ∧ a.port.same b.port = true := by
  induction as generalizing bs with
  | nil => cases bs <;> simp [sameList]
  | cons a as ih =>
    cases bs with
    | nil => simp [sameList]
    | cons b bs =>
      rw [sameList, Bool.and_eq_true, ih, same, Bool.and_eq_true, beq_iff_eq, List.length_cons,
        List.length_cons, Nat.add_right_cancel_iff]
      constructor
      · rintro ⟨hfirst, hlength, hrest⟩
        refine ⟨hlength, fun i => ?_⟩
        cases i with
        | zero =>
          rintro a' b' ha hb
          cases ha
          cases hb
          exact hfirst
        | succ i => exact hrest i
      · rintro ⟨hlength, hall⟩
        exact ⟨hall 0 a b rfl rfl, hlength, fun i => hall (i + 1)⟩

end Endpoint

/-! ### Tables with entries put in -/

namespace Table

variable {α : Type}

/-- **The table with entries put in**, one after the other. -/
def insertAll (t : Table α) (entries : List (String × α)) : Table α :=
  entries.foldl (fun t e => t.insert e.1 e.2) t

theorem insertAll_append (t : Table α) (entries entries' : List (String × α)) :
    t.insertAll (entries ++ entries') = (t.insertAll entries).insertAll entries' :=
  List.foldl_append

theorem insertAll_singleton (t : Table α) (key : String) (value : α) :
    t.insertAll [(key, value)] = t.insert key value := rfl

/-- A key has the value that was put in last, or the one that it had. -/
theorem get?_insertAll (t : Table α) (entries : List (String × α)) (key : String) :
    (t.insertAll entries).get? key = (last? entries key).or (t.get? key) := by
  induction entries generalizing t with
  | nil => rfl
  | cons e entries ih =>
    rw [← List.singleton_append, insertAll_append, ih, insertAll_singleton, get?_insert,
      last?_append, Option.or_assoc, last?_singleton]
    split <;> rfl

/-- Known keys keep their places. -/
theorem keys_insertAll {t : Table α} {entries : List (String × α)}
    (h : ∀ e ∈ entries, e.1 ∈ t.keys) : (t.insertAll entries).keys = t.keys := by
  induction entries generalizing t with
  | nil => rfl
  | cons e entries ih =>
    have hfirst : (t.insert e.1 e.2).keys = t.keys := by
      rw [keys_insert, if_pos (h e List.mem_cons_self)]
    rw [← List.singleton_append, insertAll_append, insertAll_singleton, ih, hfirst]
    exact fun e' he' => hfirst ▸ h e' (List.mem_cons_of_mem e he')

end Table

/-! ### Changed lists -/

/-- The list of a service in what a lookup returned, or the empty one. -/
def Listing.endpoints (latest : Listing) (service : String) : List Endpoint :=
  (latest.get? service).getD []

namespace Refresher

/-- **The services whose list changed**, of several, with their new lists. -/
def changed (r : Refresher) (latest : Listing) (services : List String) :
    List (String × List Endpoint) :=
  (services.filter fun service =>
    !Endpoint.sameList (r.seen service) (latest.endpoints service)).map fun service =>
      (service, latest.endpoints service)

/-- **The difference between what was seen last and what a lookup returned**, of all services that
are tracked. -/
def changes (r : Refresher) (latest : Listing) : List (String × List Endpoint) :=
  r.changed latest r.snapshot.keys

variable {r r' : Refresher} {latest : Listing} {services : List String} {change : Change}

theorem mem_changed {e : String × List Endpoint} :
    e ∈ r.changed latest services ↔ e.1 ∈ services ∧ e.2 = latest.endpoints e.1 ∧
      Endpoint.sameList (r.seen e.1) (latest.endpoints e.1) = false := by
  obtain ⟨service, endpoints⟩ := e
  simp only [changed, List.mem_map, List.mem_filter, Bool.not_eq_true', Prod.mk.injEq]
  constructor
  · rintro ⟨_, ⟨hmem, hdiffers⟩, rfl, rfl⟩
    exact ⟨hmem, rfl, hdiffers⟩
  · rintro ⟨hmem, rfl, hdiffers⟩
    exact ⟨service, ⟨hmem, hdiffers⟩, rfl, rfl⟩

/-- **What has changed**: the list of a tracked service is another one in length, or in host or port
at some place. -/
theorem mem_changes {service : String} {endpoints : List Endpoint} :
    (service, endpoints) ∈ r.changes latest ↔ service ∈ r.snapshot.keys ∧
      endpoints = latest.endpoints service ∧
      ((r.seen service).length ≠ endpoints.length ∨ ∃ (i : Nat) (a b : Endpoint),
        (r.seen service)[i]? = some a ∧ endpoints[i]? = some b ∧
          ¬ (a.host = b.host ∧ a.port.same b.port = true)) := by
  rw [changes, mem_changed]
  refine and_congr_right fun _ => and_congr_right fun heq => ?_
  have heq : endpoints = latest.endpoints service := heq
  rw [← heq, ← Bool.not_eq_true, Endpoint.sameList_eq_true_iff, not_and_or]
  simp only [not_forall, exists_prop]

theorem changed_append (r : Refresher) (latest : Listing) (services services' : List String) :
    r.changed latest (services ++ services') =
      r.changed latest services ++ r.changed latest services' := by
  rw [changed, List.filter_append, List.map_append]
  rfl

theorem changed_singleton (r : Refresher) (latest : Listing) (service : String) :
    r.changed latest [service] =
      if Endpoint.sameList (r.seen service) (latest.endpoints service) then []
      else [(service, latest.endpoints service)] := by
  rw [changed, List.filter_singleton]
  cases Endpoint.sameList (r.seen service) (latest.endpoints service) <;> rfl

theorem changed_eq_nil (h : ∀ service ∈ services,
    Endpoint.sameList (r.seen service) (latest.endpoints service) = true) :
    r.changed latest services = [] :=
  List.eq_nil_iff_forall_not_mem.mpr fun e he => by
    obtain ⟨hmem, -, hdiffers⟩ := mem_changed.mp he
    exact absurd (h _ hmem) (by rw [hdiffers]; exact Bool.false_ne_true)

/-- What has changed depends on what was seen last. -/
theorem changed_congr (h : ∀ service ∈ services, r'.seen service = r.seen service) :
    r'.changed latest services = r.changed latest services := by
  rw [changed, changed, List.filter_congr fun service hs => by rw [h service hs]]

/-- The difference depends on what was seen last. -/
theorem changes_congr (h : r'.snapshot = r.snapshot) (latest : Listing) :
    r'.changes latest = r.changes latest := by
  rw [changes, changes, h]
  exact changed_congr fun service _ => by rw [seen, seen, h]

/-- **A comparison finds the first change**, and passes over the services before it. -/
theorem exists_of_nextChange? (h : r.nextChange? latest services = some change) :
    ∃ skipped, services = skipped ++ change.service :: change.remaining ∧
      r.changed latest (skipped ++ [change.service]) = [(change.service, change.endpoints)] := by
  induction services with
  | nil => cases h
  | cons service services ih =>
    unfold nextChange? at h
    dsimp only at h
    split at h
    · next hsame =>
      obtain ⟨skipped, heq, hchanged⟩ := ih h
      refine ⟨service :: skipped, by rw [heq]; rfl, ?_⟩
      have hfirst : r.changed latest [service] = [] :=
        (r.changed_singleton latest service).trans (if_pos hsame)
      rw [List.cons_append, ← List.singleton_append, changed_append, hfirst, hchanged,
        List.nil_append]
    · next hdiffers =>
      cases h
      exact ⟨[], rfl, (r.changed_singleton latest service).trans (if_neg hdiffers)⟩

/-- Where a comparison finds nothing, nothing has changed. -/
theorem changed_of_nextChange?_eq_none (h : r.nextChange? latest services = none) :
    r.changed latest services = [] := by
  induction services with
  | nil => rfl
  | cons service services ih =>
    unfold nextChange? at h
    dsimp only at h
    split at h
    · next hsame =>
      have hfirst : r.changed latest [service] = [] :=
        (r.changed_singleton latest service).trans (if_pos hsame)
      rw [← List.singleton_append, changed_append, hfirst, ih h, List.nil_append]
    · cases h

/-! ### What was handed over -/

/-- The list of a changed service, among the changed ones. -/
theorem last?_changed (r : Refresher) (latest : Listing) (services : List String)
    (service : String) : Table.last? (r.changed latest services) service =
      if service ∈ services ∧
          Endpoint.sameList (r.seen service) (latest.endpoints service) = false then
        some (latest.endpoints service) else none := by
  induction services with
  | nil => simp [changed, Table.last?]
  | cons first services ih =>
    rw [← List.singleton_append, changed_append, Table.last?_append, ih, changed_singleton]
    by_cases heq : service = first
    · subst heq
      cases hsame : Endpoint.sameList (r.seen service) (latest.endpoints service) with
      | true => simp [Table.last?]
      | false =>
        simp only [Table.last?_singleton, List.singleton_append, List.mem_cons, true_or, and_true,
          Bool.false_eq_true, if_false, if_true]
        split <;> rfl
    · have hother :
          Table.last? (if Endpoint.sameList (r.seen first) (latest.endpoints first) then []
            else [(first, latest.endpoints first)]) service = none := by
        split
        · rfl
        · rw [Table.last?_singleton, if_neg heq]
      rw [hother, Option.or_none]
      simp only [List.singleton_append, List.mem_cons, heq, false_or]

/-- **What a refresher has seen after changed lists have been handed over**: the new list of every
service whose list changed, and the old one of every other. -/
theorem seen_of_insertAll
    (hsnapshot : r'.snapshot = r.snapshot.insertAll (r.changed latest services))
    (service : String) :
    r'.seen service = if service ∈ services ∧
        Endpoint.sameList (r.seen service) (latest.endpoints service) = false then
      latest.endpoints service else r.seen service := by
  rw [seen, hsnapshot, Table.get?_insertAll, last?_changed]
  split <;> rfl

/-- **What has been handed over is no change any more**, where all ports are numbers. -/
theorem changed_of_seen (hsnapshot : r'.snapshot = r.snapshot.insertAll (r.changed latest services))
    (hports : ∀ service ∈ services, ∀ e ∈ latest.endpoints service, e.port ≠ .nan) :
    r'.changed latest services = [] := by
  refine changed_eq_nil fun service hs => ?_
  rw [seen_of_insertAll hsnapshot]
  split
  · exact Endpoint.sameList_self (hports service hs)
  · next hsame =>
    rw [not_and, Bool.not_eq_false] at hsame
    exact hsame hs

/-- The first changes are those of the services tracked first. -/
theorem exists_of_isPrefix_changes {given : List (String × List Endpoint)}
    (h : given <+: r.changes latest) :
    ∃ past remaining, r.snapshot.keys = past ++ remaining ∧ r.changed latest past = given := by
  obtain ⟨rest, hchanges⟩ := h
  rw [changes, changed, eq_comm, List.map_eq_append_iff] at hchanges
  obtain ⟨services, services', hfilter, hgiven, -⟩ := hchanges
  obtain ⟨past, remaining, hkeys, hpast, -⟩ := List.filter_eq_append_iff.mp hfilter
  exact ⟨past, remaining, hkeys, by rw [changed, hpast, hgiven]⟩

/-- **What is still to be compared has not been touched**: it has changed if it had changed before
the lists of other services were handed over. -/
theorem changed_remaining {past remaining : List String}
    (hkeys : r.snapshot.keys = past ++ remaining)
    (hsnapshot : r'.snapshot = r.snapshot.insertAll (r.changed latest past))
    (hsub : ∀ service ∈ services, service ∈ remaining) :
    r'.changed latest services = r.changed latest services := by
  refine changed_congr fun service hs => ?_
  rw [seen_of_insertAll hsnapshot, if_neg]
  have hnodup : (past ++ remaining).Nodup := hkeys ▸ r.snapshot.nodup
  exact fun h => (List.nodup_append.mp hnodup).2.2 service h.1 service (hsub service hs) rfl

/-- Where changed lists have been handed over, the same services are tracked. -/
theorem keys_of_insertAll {past remaining : List String}
    (hkeys : r.snapshot.keys = past ++ remaining)
    (hsnapshot : r'.snapshot = r.snapshot.insertAll (r.changed latest past)) :
    r'.snapshot.keys = r.snapshot.keys := by
  rw [hsnapshot, Table.keys_insertAll]
  exact fun e he => hkeys ▸ List.mem_append_left _ (mem_changed.mp he).1

/-- **The changes that are left** after the first ones have been handed over, where all ports are
numbers: exactly the others, in the same order. -/
theorem changes_eq_append {given : List (String × List Endpoint)} (h : given <+: r.changes latest)
    (hsnapshot : r'.snapshot = r.snapshot.insertAll given)
    (hports : ∀ service ∈ r.snapshot.keys, ∀ e ∈ latest.endpoints service, e.port ≠ .nan) :
    r.changes latest = given ++ r'.changes latest := by
  obtain ⟨past, remaining, hkeys, rfl⟩ := exists_of_isPrefix_changes h
  have hnone : r'.changed latest past = [] :=
    changed_of_seen hsnapshot fun service hs => hports service (hkeys ▸ List.mem_append_left _ hs)
  rw [changes, changes, keys_of_insertAll hkeys hsnapshot, hkeys, changed_append, changed_append,
    hnone, changed_remaining hkeys hsnapshot fun _ hs => hs, List.nil_append]

end Refresher

end Balancer
