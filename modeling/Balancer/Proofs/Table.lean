import Balancer.Table
import Mathlib.Data.List.Induction

/-!
# Entries and keys of a table

What `Balancer.Table.get?` finds is an entry, and the entries of a table that was changed
are old ones or the new one.

* `Balancer.Table.mem_entries_of_get?` – what is found for a key is an entry.
* `Balancer.Table.mem_entries_insert`, `Balancer.Table.mem_entries_erase` – where an entry of a
  changed table comes from.
* `Balancer.Table.mem_keys_move` – **a key that goes from one table to another is in one of them**,
  and `Balancer.Table.perm_move` – no entry is lost or doubled on the way.
-/

namespace Balancer.Table

variable {α : Type} {t : Table α} {key other : String} {value : α} {e : String × α}

/-! ### Finding -/

/-- What is found for a key is an entry. -/
theorem mem_entries_of_get? (h : t.get? key = some value) : (key, value) ∈ t.entries := by
  obtain ⟨before, after, heq, -⟩ := List.lookup_eq_some_iff.mp h
  rw [heq]
  exact List.mem_append_right before List.mem_cons_self

/-- A key is the first component of an entry. -/
theorem mem_keys_of_mem_entries (h : e ∈ t.entries) : e.1 ∈ t.keys := List.mem_map_of_mem h

theorem mem_keys_of_get? (h : t.get? key = some value) : key ∈ t.keys :=
  mem_keys_of_mem_entries (mem_entries_of_get? h)

/-- **Nothing is found exactly for what is no key.** -/
theorem get?_eq_none_iff : t.get? key = none ↔ key ∉ t.keys := by
  rw [get?, List.lookup_eq_none_iff, keys, List.mem_map]
  constructor
  · rintro h ⟨e, he, rfl⟩
    exact absurd (h e he) (by simp)
  · intro h e he
    exact bne_iff_ne.mpr fun heq => h ⟨e, he, heq.symm⟩

theorem exists_get?_of_mem_keys (h : key ∈ t.keys) : ∃ value, t.get? key = some value :=
  Option.ne_none_iff_exists'.mp fun hnone => get?_eq_none_iff.mp hnone h

/-! ### Entries of a changed table -/

theorem mem_put {entries : List (String × α)} (h : e ∈ put key value entries) :
    e = (key, value) ∨ e ∈ entries := by
  induction entries with
  | nil => exact Or.inl (List.mem_singleton.mp h)
  | cons f rest ih =>
    obtain ⟨k, v⟩ := f
    by_cases hk : k = key
    · subst hk
      rw [put, if_pos rfl, List.mem_cons] at h
      exact h.imp_right (List.mem_cons_of_mem _)
    · rw [put, if_neg hk, List.mem_cons] at h
      rcases h with rfl | h
      · exact Or.inr List.mem_cons_self
      · exact (ih h).imp_right (List.mem_cons_of_mem _)

/-- **An entry of a table with one put in** is that one or an old one. -/
theorem mem_entries_insert (h : e ∈ (t.insert key value).entries) :
    e = (key, value) ∨ e ∈ t.entries :=
  mem_put h

/-- An entry that is left was there. -/
theorem mem_entries_erase (h : e ∈ (t.erase key).entries) : e ∈ t.entries :=
  (List.mem_filter.mp h).1

@[simp] theorem mem_keys_erase : other ∈ (t.erase key).keys ↔ other ∈ t.keys ∧ other ≠ key := by
  simp

@[simp] theorem mem_keys_insert : other ∈ (t.insert key value).keys ↔ other ∈ t.keys ∨ other = key := by
  rw [keys_insert]
  split
  · next h => exact ⟨Or.inl, fun hor => hor.elim id fun heq => heq ▸ h⟩
  · simp

/-- **A key that goes from one table to another is in one of them**, before and after. -/
theorem mem_keys_move {s : Table α} (h : key ∈ s.keys) :
    other ∈ (s.erase key).keys ∨ other ∈ (t.insert key value).keys ↔
      other ∈ s.keys ∨ other ∈ t.keys := by
  rw [mem_keys_erase, mem_keys_insert]
  by_cases heq : other = key
  · subst heq
    simp [h]
  · simp [heq]

/-- A new key comes last. -/
theorem entries_insert_of_notMem (h : key ∉ t.keys) :
    (t.insert key value).entries = t.entries ++ [(key, value)] := by
  obtain ⟨entries, nodup⟩ := t
  show put key value entries = entries ++ [(key, value)]
  have hnew : key ∉ entries.map Prod.fst := h
  clear nodup h
  induction entries with
  | nil => rfl
  | cons e rest ih =>
    rw [List.map_cons, List.mem_cons, not_or] at hnew
    rw [put, if_neg (Ne.symm hnew.1), ih hnew.2]
    rfl

/-- **A table is its entry of a key, and the entries without the key.** -/
theorem perm_erase (h : t.get? key = some value) :
    t.entries.Perm ((key, value) :: (t.erase key).entries) := by
  obtain ⟨before, after, heq, hbefore⟩ := List.lookup_eq_some_iff.mp h
  have hperm : t.entries.Perm ((key, value) :: (before ++ after)) := heq ▸ List.perm_middle
  -- the key stands nowhere else
  have hnodup := (hperm.map Prod.fst).nodup_iff.mp t.nodup
  rw [List.map_cons, List.nodup_cons] at hnodup
  have hkeep : (before ++ after).filter (fun e => e.1 != key) = before ++ after := by
    refine List.filter_eq_self.mpr fun e he => bne_iff_ne.mpr fun heq => hnodup.1 ?_
    exact List.mem_map.mpr ⟨e, he, heq⟩
  have hrest := hperm.filter fun e => e.1 != key
  rw [List.filter_cons_of_neg (by simp), hkeep] at hrest
  exact hperm.trans (hrest.symm.cons _)

/-- **An entry that goes from one table to another is lost in neither, and stays as it is.** -/
theorem perm_move {s : Table α} (hget : s.get? key = some value) (hnew : key ∉ t.keys) :
    ((s.erase key).entries ++ (t.insert key value).entries).Perm (s.entries ++ t.entries) := by
  rw [entries_insert_of_notMem hnew, ← List.append_assoc]
  have hlast := List.perm_append_singleton (key, value) ((s.erase key).entries ++ t.entries)
  exact hlast.trans ((perm_erase hget).symm.append_right t.entries)

/-! ### Tables of lists -/

theorem ofList_concat (entries : List (String × α)) (e : String × α) :
    ofList (entries ++ [e]) = (ofList entries).insert e.1 e.2 := by
  rw [ofList, List.foldl_append]
  rfl

/-- The keys of a list of entries are those of the entries. -/
@[simp] theorem mem_keys_ofList {entries : List (String × α)} :
    key ∈ (ofList entries).keys ↔ key ∈ entries.map Prod.fst := by
  rw [ofList]
  suffices h : ∀ (s : Table α), key ∈ (entries.foldl (fun t e => t.insert e.1 e.2) s).keys ↔
      key ∈ s.keys ∨ key ∈ entries.map Prod.fst by
    simpa using h empty
  induction entries with
  | nil => simp
  | cons e rest ih =>
    intro s
    rw [List.foldl_cons, ih, mem_keys_insert, List.map_cons, List.mem_cons, or_assoc]

/-- An entry of the table of a list is one of the list. -/
theorem mem_entries_ofList {entries : List (String × α)} (h : e ∈ (ofList entries).entries) :
    e ∈ entries := by
  induction entries using List.reverseRecOn with
  | nil => exact h
  | append_singleton entries last ih =>
    rw [ofList_concat] at h
    rcases mem_entries_insert h with rfl | h
    · simp
    · exact List.mem_append_left _ (ih h)

/-- **The keys of a list of entries stand in the order of their first entry**, each once. -/
theorem keys_ofList (entries : List (String × α)) :
    (ofList entries).keys = (entries.map Prod.fst).eraseDups := by
  induction entries using List.reverseRecOn with
  | nil => rfl
  | append_singleton entries last ih =>
    rw [ofList_concat, keys_insert, ih, List.map_append, List.eraseDups_append]
    by_cases hmem : last.1 ∈ entries.map Prod.fst
    · simp [List.removeAll, hmem]
    · simp [List.removeAll, hmem, List.eraseDups_cons]

/-- Where all values are the same, a table is its keys. -/
theorem entries_eq_map_keys (h : ∀ e ∈ t.entries, e.2 = value) :
    t.entries = t.keys.map fun key => (key, value) := by
  rw [keys, List.map_map]
  refine (List.map_id _).symm.trans (List.map_congr_left fun e he => ?_)
  exact Prod.ext rfl (h e he)

end Balancer.Table
