import Balancer.Number.Literal

/-!
# Tables in the order of insertion

A table maps texts to values and remembers the order in which its keys came. Weights,
endpoint lists of services and what a lookup returns are tables.

* `Balancer.Table` – entries whose keys are distinct.
* `Balancer.Table.insert` – **a known key keeps its place and takes the new value; a
  new key comes last** (`Balancer.Table.keys_insert`, `Balancer.Table.get?_insert`).
* `Balancer.Table.erase` – the table without a key; a key that comes back comes last.
* `Balancer.Table.ofRecord` – a table read from a record, which lists its **numbered keys
  first**, in ascending order.
-/

namespace Balancer

/-- **A table**: entries in the order of insertion, with distinct keys. -/
structure Table (α : Type) where
  /-- The entries, the oldest key first. -/
  entries : List (String × α)
  /-- No key stands twice. -/
  nodup : (entries.map Prod.fst).Nodup
  deriving DecidableEq

namespace Table

variable {α β : Type}

/-! ### Reading -/

/-- The table without entries. -/
def empty : Table α := ⟨[], List.nodup_nil⟩

instance : Inhabited (Table α) := ⟨empty⟩

/-- The keys, in the order of insertion. -/
def keys (t : Table α) : List String := t.entries.map Prod.fst

/-- The value of a key, if the table has the key. -/
def get? (t : Table α) (key : String) : Option α := t.entries.lookup key

/-- Whether there is no entry. -/
def isEmpty (t : Table α) : Bool := t.entries.isEmpty

@[simp] theorem entries_empty : (empty : Table α).entries = [] := rfl

@[simp] theorem keys_empty : (empty : Table α).keys = [] := rfl

@[ext] theorem ext {s t : Table α} (h : s.entries = t.entries) : s = t := by
  cases s; cases t; simp_all

/-! ### Inserting -/

/-- Replaces the value of a key in place, or appends the entry. -/
def put (key : String) (value : α) : List (String × α) → List (String × α)
  | [] => [(key, value)]
  | (k, v) :: rest => if k = key then (k, value) :: rest else (k, v) :: put key value rest

theorem map_fst_put (key : String) (value : α) (es : List (String × α)) :
    (put key value es).map Prod.fst =
      if key ∈ es.map Prod.fst then es.map Prod.fst else es.map Prod.fst ++ [key] := by
  induction es with
  | nil => simp [put]
  | cons e es ih =>
    obtain ⟨k, v⟩ := e
    by_cases hk : k = key
    · simp [put, hk]
    · have hk' : ¬key = k := fun h => hk h.symm
      simp only [put, if_neg hk, List.map_cons, ih, List.mem_cons, hk', false_or]
      split <;> simp

theorem lookup_put (key other : String) (value : α) (es : List (String × α)) :
    (put key value es).lookup other = if other = key then some value else es.lookup other := by
  induction es with
  | nil =>
    by_cases h : other = key
    · simp [put, h]
    · simp [put, List.lookup_cons, beq_false_of_ne h, h]
  | cons e es ih =>
    obtain ⟨k, v⟩ := e
    by_cases hk : k = key
    · subst hk
      by_cases h : other = k
      · simp [put, h]
      · simp [put, List.lookup_cons, beq_false_of_ne h, h]
    · by_cases h : other = k
      · subst h
        simp [put, hk]
      · simp [put, List.lookup_cons, hk, ih, beq_false_of_ne h]

/-- **The table with an entry put in.** -/
def insert (t : Table α) (key : String) (value : α) : Table α where
  entries := put key value t.entries
  nodup := by
    rw [map_fst_put]
    split
    · exact t.nodup
    · next h =>
      refine List.nodup_append.mpr ⟨t.nodup, by simp, fun a ha b hb => ?_⟩
      rw [List.mem_singleton.mp hb]
      exact fun hab => h (hab ▸ ha)

/-- A known key keeps its place, a new key comes last. -/
@[simp] theorem keys_insert (t : Table α) (key : String) (value : α) :
    (t.insert key value).keys = if key ∈ t.keys then t.keys else t.keys ++ [key] :=
  map_fst_put key value t.entries

/-- The key that was put in has its new value, the others keep theirs. -/
@[simp] theorem get?_insert (t : Table α) (key other : String) (value : α) :
    (t.insert key value).get? other = if other = key then some value else t.get? other :=
  lookup_put key other value t.entries

/-- The table of a list of entries, put in one after the other. -/
def ofList (es : List (String × α)) : Table α :=
  es.foldl (fun t e => t.insert e.1 e.2) empty

/-! ### Erasing and mapping -/

/-- **The table without a key.** -/
def erase (t : Table α) (key : String) : Table α where
  entries := t.entries.filter fun e => e.1 != key
  nodup := by
    have h : (t.entries.filter fun e => e.1 != key).map Prod.fst =
        (t.entries.map Prod.fst).filter (· != key) := by
      rw [List.filter_map]; rfl
    rw [h]
    exact t.nodup.filter _

/-- The keys that are left, in their order. -/
@[simp] theorem keys_erase (t : Table α) (key : String) :
    (t.erase key).keys = t.keys.filter (· != key) := by
  simp only [keys, erase, List.filter_map]; rfl

/-- The table with every value replaced. -/
def mapValues (f : α → β) (t : Table α) : Table β where
  entries := t.entries.map fun e => (e.1, f e.2)
  nodup := by
    have h : (t.entries.map fun e => (e.1, f e.2)).map Prod.fst = t.entries.map Prod.fst := by
      rw [List.map_map]; rfl
    rw [h]
    exact t.nodup

@[simp] theorem keys_mapValues (f : α → β) (t : Table α) : (t.mapValues f).keys = t.keys := by
  simp only [keys, mapValues, List.map_map]; rfl

/-! ### Records -/

/-- The number that a key is the shortest decimal of, if it lies below `2 ^ 32 - 1`. -/
def index? (key : String) : Option Nat :=
  match key.toList with
  | '0' :: _ :: _ => none
  | ds => (Literal.natural? ds).filter (· < 2 ^ 32 - 1)

/-- The order of a record among entries with numbered keys. -/
def indexLe (a b : String × α) : Bool :=
  (index? a.1).getD 0 ≤ (index? b.1).getD 0

/-- **The entries in the order of a record**: numbered keys first, in ascending order, then
the other keys in the order of insertion. -/
def recordOrder (t : Table α) : Table α where
  entries :=
    (t.entries.filter fun e => (index? e.1).isSome).mergeSort indexLe ++
      t.entries.filter fun e => !(index? e.1).isSome
  nodup := by
    refine (List.Perm.nodup_iff (List.Perm.map Prod.fst ?_)).mpr t.nodup
    exact ((List.mergeSort_perm _ _).append_right _).trans
      (List.filter_append_perm (fun e : String × α => (index? e.1).isSome) t.entries)

/-- The table of a record's fields. -/
def ofRecord (es : List (String × α)) : Table α := (ofList es).recordOrder

end Table

end Balancer
