import Coprocessor.BufferId

/-!
# Tables keyed by buffer id

A table maps buffer ids to values. Its entries are kept in increasing order of id, with
each id at most once, so a table has exactly one list of entries for each map, and
listing it gives the ids in sorted order.

`find?` looks an id up; `insert` replaces the value of an id or adds it in its place in
the order; `erase` removes an id.
-/

namespace Coprocessor

/-- A finite map from buffer ids, as a list of entries in increasing order of id. -/
structure Table (α : Type) where
  entries : List (BufferId × α) := []
  deriving Repr

namespace Table

variable {α : Type}

/-- The empty table. -/
def empty : Table α := {}

/-- The value of an id. -/
def find? (t : Table α) (id : BufferId) : Option α :=
  (t.entries.find? (·.1 == id)).map (·.2)

/-- Whether an id has a value. -/
def contains (t : Table α) (id : BufferId) : Bool :=
  (t.find? id).isSome

/-- The number of ids with a value. -/
def size (t : Table α) : Nat := t.entries.length

/-- Whether no id has a value. -/
def isEmpty (t : Table α) : Bool := t.entries.isEmpty

/-- Gives an id a value in a list of entries in increasing order of id, keeping the
order. -/
def insertEntry (id : BufferId) (a : α) : List (BufferId × α) → List (BufferId × α)
  | [] => [(id, a)]
  | (k, b) :: rest =>
    if id.raw.toNat < k.raw.toNat then (id, a) :: (k, b) :: rest
    else if id = k then (id, a) :: rest
    else (k, b) :: insertEntry id a rest

/-- Gives an id a value, replacing any value it had. -/
def insert (t : Table α) (id : BufferId) (a : α) : Table α :=
  ⟨insertEntry id a t.entries⟩

/-- Removes an id. -/
def erase (t : Table α) (id : BufferId) : Table α :=
  ⟨t.entries.filter (·.1 != id)⟩

/-- Changes the value of an id, if it has one. -/
def modify (t : Table α) (id : BufferId) (f : α → α) : Table α :=
  ⟨t.entries.map fun (k, b) => if k = id then (k, f b) else (k, b)⟩

/-- The entries are in strictly increasing order of id. -/
def Sorted (t : Table α) : Prop :=
  t.entries.Pairwise (fun a b => a.1.raw.toNat < b.1.raw.toNat)

/-! ## Lookups after a change -/

theorem find?_insertEntry_self (id : BufferId) (a : α) (l : List (BufferId × α)) :
    ((insertEntry id a l).find? (·.1 == id)).map (·.2) = some a := by
  induction l with
  | nil => simp [insertEntry]
  | cons e rest ih =>
    obtain ⟨k, b⟩ := e
    unfold insertEntry
    by_cases hlt : id.raw.toNat < k.raw.toNat
    · simp [hlt]
    · by_cases hk : id = k
      · subst hk; simp
      · have hne : k ≠ id := Ne.symm hk
        simp [hlt, hk, hne, ih]

theorem find?_insertEntry_ne (id k : BufferId) (a : α) (l : List (BufferId × α)) (h : k ≠ id) :
    ((insertEntry id a l).find? (·.1 == k)).map (·.2) = (l.find? (·.1 == k)).map (·.2) := by
  induction l with
  | nil => simp [insertEntry, Ne.symm h]
  | cons e rest ih =>
    obtain ⟨k', b⟩ := e
    unfold insertEntry
    by_cases hlt : id.raw.toNat < k'.raw.toNat
    · simp [hlt, Ne.symm h]
    · by_cases hk : id = k'
      · subst hk; simp [Ne.symm h]
      · by_cases hk' : k' = k
        · subst hk'; simp [hlt, hk]
        · simp [hlt, hk, hk', ih]

@[simp] theorem find?_insert (t : Table α) (id k : BufferId) (a : α) :
    (t.insert id a).find? k = if k = id then some a else t.find? k := by
  unfold find? insert
  split
  · subst k; exact find?_insertEntry_self _ _ _
  · exact find?_insertEntry_ne _ _ _ _ ‹_›

@[simp] theorem find?_erase (t : Table α) (id k : BufferId) :
    (t.erase id).find? k = if k = id then none else t.find? k := by
  unfold find? erase
  split
  · subst k
    simp [List.find?_filter]
  · rename_i hk
    have hpred : (fun e : BufferId × α => decide ((e.1 != id) = true ∧ (e.1 == k) = true))
        = (fun e => e.1 == k) := by
      funext e
      by_cases h : e.1 = k
      · subst h; simp [hk]
      · simp [h]
    rw [List.find?_filter, hpred]

@[simp] theorem contains_insert (t : Table α) (id k : BufferId) (a : α) :
    (t.insert id a).contains k = (k == id || t.contains k) := by
  by_cases h : k = id <;> simp [contains, h]

@[simp] theorem contains_erase (t : Table α) (id k : BufferId) :
    (t.erase id).contains k = (k != id && t.contains k) := by
  by_cases h : k = id <;> simp [contains, h]

end Table

end Coprocessor
