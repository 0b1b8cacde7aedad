import Balancer.Refresher
import Balancer.Proofs.Literal
import Balancer.Proofs.Rotation

/-!
# Targets and the endpoints that they stand for

A target is a text, and an endpoint a host and a port. Whether a list changed is asked of the
endpoints; what is elected are the texts. The two views agree: the last colon of a target stands
before the port, whatever the host holds, and the port can be read back from what follows.

* `Balancer.Endpoint.Alike` – **whether two endpoints are the same instance**;
  `Balancer.Endpoint.key_eq_key_iff` says that they then have the same target, and only then.
* `Balancer.Endpoint.sameList_iff` – lists of numbered ports agree exactly where their targets do.
* `Balancer.Rotation.keys_ofEndpoints` – **endpoints that are not alike never collapse.**
* `Balancer.Refresher.nextChange?_eq_find?` – a comparison finds the first service whose targets
  changed.
* `Balancer.Endpoint.key_agrees_with_identity` – the theorem.
-/

namespace Balancer

/-! ### Endpoints -/

namespace Endpoint

/-- **Whether two endpoints are the same instance**: at one host, under one port as numbers go or
under none that is a number. -/
def Alike (a b : Endpoint) : Prop :=
  a.host = b.host ∧ (a.port.same b.port = true ∨ a.port = .nan ∧ b.port = .nan)

instance (a b : Endpoint) : Decidable (a.Alike b) :=
  inferInstanceAs (Decidable (_ ∧ (_ ∨ _ ∧ _)))

/-- Whether the port is a number. -/
def Numbered (e : Endpoint) : Prop := e.port ≠ .nan

instance (e : Endpoint) : Decidable e.Numbered := inferInstanceAs (Decidable (_ ≠ _))

/-- A text splits in one way only at the last occurrence of a character. -/
theorem append_cons_inj {a b s t : List Char} {c : Char} (hs : c ∉ s) (ht : c ∉ t)
    (h : a ++ c :: s = b ++ c :: t) : a = b ∧ s = t := by
  rcases List.append_eq_append_iff.mp h with ⟨between, hb, hrest⟩ | ⟨between, ha, hrest⟩
  · cases between with
    | nil =>
      rw [List.append_nil] at hb
      exact ⟨hb.symm, (List.cons.inj hrest).2⟩
    | cons d between =>
      have hmem : c ∈ s := by
        rw [(List.cons.inj hrest).2]
        exact List.mem_append_right between List.mem_cons_self
      exact absurd hmem hs
  · cases between with
    | nil =>
      rw [List.append_nil] at ha
      exact ⟨ha, (List.cons.inj hrest).2.symm⟩
    | cons d between =>
      have hmem : c ∈ t := by
        rw [(List.cons.inj hrest).2]
        exact List.mem_append_right between List.mem_cons_self
      exact absurd hmem ht

/-- A target in characters. -/
theorem toList_key (e : Endpoint) : e.key.toList = e.host.toList ++ ':' :: e.port.text.toList := by
  rw [key, String.toList_append, String.toList_append, List.append_assoc]
  rfl

/-- **Two endpoints have the same target exactly where they are the same instance.** -/
theorem key_eq_key_iff {a b : Endpoint} : a.key = b.key ↔ a.Alike b := by
  rw [Alike, ← Binary64.text_eq_text_iff]
  constructor
  · intro heq
    have hlist := congrArg String.toList heq
    rw [toList_key, toList_key] at hlist
    obtain ⟨hhost, hport⟩ :=
      append_cons_inj a.port.colon_not_mem_text b.port.colon_not_mem_text hlist
    exact ⟨String.toList_inj.mp hhost, String.toList_inj.mp hport⟩
  · rintro ⟨hhost, hport⟩
    rw [key, key, hhost, hport]

/-- For numbered ports this is the comparison of the refresher. -/
theorem same_eq_true_iff {a b : Endpoint} (ha : a.Numbered) : a.same b = true ↔ a.key = b.key := by
  rw [key_eq_key_iff, Alike, same, Bool.and_eq_true, beq_iff_eq]
  refine and_congr_right fun _ => ⟨.inl, ?_⟩
  rintro (hsame | ⟨hnan, -⟩)
  · exact hsame
  · exact absurd hnan ha

/-- **Lists of numbered ports agree exactly where their targets do**, place by place. -/
theorem sameList_iff {as bs : List Endpoint} (ha : ∀ e ∈ as, e.Numbered) :
    sameList as bs = true ↔ as.map key = bs.map key := by
  induction as generalizing bs with
  | nil => cases bs <;> simp [sameList]
  | cons a as ih =>
    cases bs with
    | nil => simp [sameList]
    | cons b bs =>
      rw [sameList, Bool.and_eq_true, same_eq_true_iff (ha a List.mem_cons_self),
        ih fun e he => ha e (List.mem_cons_of_mem a he), List.map_cons, List.map_cons, List.cons.injEq]

end Endpoint

/-! ### Rotations -/

/-- Where no text stands twice there is nothing to leave out. -/
theorem eraseDups_of_nodup {texts : List String} (h : texts.Nodup) : texts.eraseDups = texts := by
  induction texts with
  | nil => rfl
  | cons text texts ih =>
    obtain ⟨hnew, hrest⟩ := List.nodup_cons.mp h
    have hkept : texts.filter (fun other => !other == text) = texts := by
      refine List.filter_eq_self.mpr fun other hmem => ?_
      rw [Bool.not_eq_true', beq_eq_false_iff_ne]
      exact fun heq => hnew (heq ▸ hmem)
    rw [List.eraseDups_cons, hkept, ih hrest]

/-- **Endpoints that are not alike never collapse**: each has its own target, and the targets stand
in the order of the endpoints. -/
theorem Rotation.keys_ofEndpoints {endpoints : List Endpoint}
    (h : endpoints.Pairwise fun a b => ¬a.Alike b) :
    (ofEndpoints endpoints).active.keys = endpoints.map Endpoint.key := by
  have hnodup : (endpoints.map Endpoint.key).Nodup :=
    List.pairwise_map.mpr (h.imp fun hne heq => hne (Endpoint.key_eq_key_iff.mp heq))
  have hmap : (endpoints.map fun e => (e.key, endpointWeight)).map Prod.fst =
      endpoints.map Endpoint.key := by
    rw [List.map_map]
    rfl
  rw [ofEndpoints, ofWeights, restart, Table.keys_mapValues, Table.keys_ofList, hmap,
    eraseDups_of_nodup hnodup]

/-! ### Refreshers -/

/-- **A comparison finds the first service whose targets changed**, and its new endpoints. -/
theorem Refresher.nextChange?_eq_find? {r : Refresher} {latest : Listing} {services : List String}
    (h : ∀ service ∈ services, ∀ e ∈ r.seen service, e.Numbered) :
    (r.nextChange? latest services).map (fun change => (change.service, change.endpoints)) =
      (services.find? fun service =>
        (r.seen service).map Endpoint.key != ((latest.get? service).getD []).map Endpoint.key).map
          fun service => (service, (latest.get? service).getD []) := by
  induction services with
  | nil => rfl
  | cons service services ih =>
    have hagree : Endpoint.sameList (r.seen service) ((latest.get? service).getD []) = true ↔ _ :=
      Endpoint.sameList_iff (h service List.mem_cons_self)
    rw [nextChange?, List.find?_cons]
    by_cases hsame : Endpoint.sameList (r.seen service) ((latest.get? service).getD []) = true
    · rw [if_pos hsame, hagree.mp hsame, bne_self_eq_false]
      exact ih fun s hs => h s (List.mem_cons_of_mem service hs)
    · have hne := bne_iff_ne.mpr (fun heq => hsame (hagree.mpr heq))
      rw [if_neg hsame, hne]
      rfl

/-! ### The theorem -/

/-- **Changes are detected in the endpoints exactly where the targets change.**

Two endpoints have the same target exactly where the hosts are equal and the ports are equal as
numbers or both not a number, and endpoints that differ in this sense all have their own target in a
rotation. A list whose ports are numbers agrees with another, for the refresher, exactly where their
targets do, place by place; and where no endpoint stands twice in either, exactly where rotations
made from them serve the same targets in the same order. So a comparison of what a lookup found with
what was seen last passes over a service exactly where its targets are the same. -/
theorem Endpoint.key_agrees_with_identity :
    (∀ a b : Endpoint, a.key = b.key ↔
      a.host = b.host ∧ (a.port.same b.port = true ∨ a.port = .nan ∧ b.port = .nan)) ∧
    (∀ endpoints : List Endpoint, endpoints.Pairwise (fun a b => ¬a.Alike b) →
      (Rotation.ofEndpoints endpoints).active.keys = endpoints.map key) ∧
    (∀ as bs : List Endpoint, (∀ e ∈ as, e.port ≠ .nan) →
      (sameList as bs = true ↔ as.map key = bs.map key)) ∧
    (∀ as bs : List Endpoint, (∀ e ∈ as, e.port ≠ .nan) →
      as.Pairwise (fun a b => ¬a.Alike b) → bs.Pairwise (fun a b => ¬a.Alike b) →
      (sameList as bs = true ↔
        (Rotation.ofEndpoints as).active.keys = (Rotation.ofEndpoints bs).active.keys)) ∧
    (∀ (r : Refresher) (latest : Listing) (services : List String),
      (∀ service ∈ services, ∀ e ∈ r.seen service, e.port ≠ .nan) →
      (r.nextChange? latest services).map (fun change => (change.service, change.endpoints)) =
        (services.find? fun service =>
          (r.seen service).map key != ((latest.get? service).getD []).map key).map
            fun service => (service, (latest.get? service).getD [])) := by
  refine ⟨fun a b => key_eq_key_iff, fun endpoints h => Rotation.keys_ofEndpoints h,
    fun as bs ha => sameList_iff ha, fun as bs ha has hbs => ?_,
    fun r latest services h => Refresher.nextChange?_eq_find? h⟩
  rw [sameList_iff ha, Rotation.keys_ofEndpoints has, Rotation.keys_ofEndpoints hbs]

/-- Two endpoints at a host full of colons, in one order and in the other. -/
theorem Endpoint.key_agrees_with_identity_of_two :
    let first : Endpoint := ⟨"::1", .ofNat 80⟩
    let second : Endpoint := ⟨"::1:80", .infinite true⟩
    let seen := Table.empty.insert "web" [first, second]
    let latest := Table.empty.insert "web" [second, first]
    let r := { Refresher.idle none .callback ⟨defaultTiming, defaultTiming⟩ with
      snapshot := seen }
    (∀ e ∈ [first, second], e.port ≠ .nan) ∧
      [first, second].Pairwise (fun a b => ¬a.Alike b) ∧
      (Rotation.ofEndpoints [first, second]).active.keys = ["::1:80", "::1:80:-Infinity"] ∧
      sameList [first, second] [second, first] = false ∧
      (r.nextChange? latest ["web"]).map (fun change => (change.service, change.endpoints)) =
        some ("web", [second, first]) := by
  intro first second seen latest r
  obtain ⟨-, hrotation, hlists, -, hchanges⟩ := key_agrees_with_identity
  have hnumbered : ∀ e ∈ [first, second], e.port ≠ .nan := by decide +kernel
  have hdistinct : [first, second].Pairwise (fun a b => ¬a.Alike b) := by decide +kernel
  have hkeys : [first, second].map key = ["::1:80", "::1:80:-Infinity"] := by decide +kernel
  refine ⟨hnumbered, hdistinct, (hrotation _ hdistinct).trans hkeys, ?_, ?_⟩
  · rw [← Bool.not_eq_true, hlists _ _ hnumbered, hkeys]
    decide +kernel
  · rw [hchanges r latest ["web"] (by decide +kernel)]
    decide +kernel

end Balancer
