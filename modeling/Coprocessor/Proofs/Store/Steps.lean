import Mathlib
import Coprocessor.Store.Basic

/-!
# Store steps

The store changes only through its operations: appending a segment, creating a buffer,
setting a byte, writing output at a cursor, clearing one buffer or all of them. Reading a
byte changes nothing. `Store.Step` is one such change, and `Store.Reachable limit` the
stores that a sequence of them makes from an empty store under `limit`.

Each operation gets one lemma here that says all it does when it succeeds, so that the
invariants later never unfold an operation again:

* an append or a create allocates a fresh heap cell of the new length, puts it under the
  id, and adds the length to the count (`append_ok`, `createWritable_ok`);
* setting a byte and writing at a cursor store one byte into a cell of the buffer and
  change no length (`setByte_ok`, `writeOutput_ok`);
* clearing removes entries and their bytes from the count.

Underneath, the table keeps its entries in increasing order of id, so inserting an id is
a permutation of putting it in front of the other entries (`Table.insert_perm`), and the
heap only grows: no step changes the length of a cell that exists (`Heap.Extends`).
-/

namespace Coprocessor

/-! ## Tables in order -/

namespace Table

variable {α : Type}

/-- Every entry that inserting puts in the list is the new one or an old one. -/
theorem mem_insertEntry {id : BufferId} {a : α} {l : List (BufferId × α)} {x : BufferId × α}
    (h : x ∈ insertEntry id a l) : x = (id, a) ∨ x ∈ l := by
  induction l with
  | nil =>
      simp only [insertEntry, List.mem_singleton] at h
      exact .inl h
  | cons e rest ih =>
      obtain ⟨k, b⟩ := e
      unfold insertEntry at h
      split at h
      · simpa using h
      · split at h
        · rcases List.mem_cons.mp h with h | h
          · exact .inl h
          · exact .inr (List.mem_cons_of_mem _ h)
        · rcases List.mem_cons.mp h with h | h
          · exact .inr (h ▸ List.mem_cons_self)
          · rcases ih h with h | h
            · exact .inl h
            · exact .inr (List.mem_cons_of_mem _ h)

/-- Two ids are equal exactly when their raw values are. -/
theorem raw_toNat_ne {a b : BufferId} (h : a ≠ b) : a.raw.toNat ≠ b.raw.toNat := by
  intro he
  exact h (BufferId.ext_raw (UInt16.toNat_inj.mp he))

theorem sorted_insertEntry {id : BufferId} {a : α} {l : List (BufferId × α)}
    (h : l.Pairwise fun x y => x.1.raw.toNat < y.1.raw.toNat) :
    (insertEntry id a l).Pairwise fun x y => x.1.raw.toNat < y.1.raw.toNat := by
  induction l with
  | nil => simp [insertEntry]
  | cons e rest ih =>
      obtain ⟨k, b⟩ := e
      rw [List.pairwise_cons] at h
      unfold insertEntry
      split
      · rename_i hlt
        refine List.Pairwise.cons (fun y hy => ?_) (List.Pairwise.cons h.1 h.2)
        rcases List.mem_cons.mp hy with rfl | hy
        · exact hlt
        · exact Nat.lt_trans hlt (h.1 y hy)
      · split
        · rename_i _ hk
          subst hk
          exact List.Pairwise.cons h.1 h.2
        · rename_i hnlt hne
          have hkid : k.raw.toNat < id.raw.toNat := by
            have := raw_toNat_ne hne
            omega
          refine List.Pairwise.cons (fun y hy => ?_) (ih h.2)
          rcases mem_insertEntry hy with rfl | hy
          · exact hkid
          · exact h.1 y hy

theorem Sorted.insert {t : Table α} (h : t.Sorted) (id : BufferId) (a : α) :
    (t.insert id a).Sorted :=
  sorted_insertEntry h

theorem Sorted.erase {t : Table α} (h : t.Sorted) (id : BufferId) : (t.erase id).Sorted :=
  List.Pairwise.filter _ h

/-- In a list in increasing order, an id below the first one is in none of its entries. -/
theorem filter_ne_of_lt {id k : BufferId} {b : α} {rest : List (BufferId × α)}
    (h : ((k, b) :: rest).Pairwise fun x y => x.1.raw.toNat < y.1.raw.toNat)
    (hle : id.raw.toNat ≤ k.raw.toNat) :
    rest.filter (·.1 != id) = rest := by
  rw [List.filter_eq_self]
  intro x hx
  have hlt : k.raw.toNat < x.1.raw.toNat := (List.pairwise_cons.mp h).1 x hx
  have hne : x.1 ≠ id := fun he => by rw [he] at hlt; omega
  simpa using hne

/-- Inserting an id into a list in order puts its entry in front of the others, up to
order. -/
theorem insertEntry_perm {id : BufferId} {a : α} {l : List (BufferId × α)}
    (h : l.Pairwise fun x y => x.1.raw.toNat < y.1.raw.toNat) :
    (insertEntry id a l).Perm ((id, a) :: l.filter (·.1 != id)) := by
  induction l with
  | nil => simp [insertEntry]
  | cons e rest ih =>
      obtain ⟨k, b⟩ := e
      unfold insertEntry
      split
      · rename_i hlt
        have hne : k ≠ id := fun he => by rw [he] at hlt; omega
        rw [List.filter_cons_of_pos (by simpa using hne), filter_ne_of_lt h (Nat.le_of_lt hlt)]
      · split
        · rename_i _ hk
          subst hk
          rw [List.filter_cons_of_neg (by simp), filter_ne_of_lt h (Nat.le_refl _)]
        · rename_i _ hne
          have hkne : k ≠ id := Ne.symm hne
          rw [List.filter_cons_of_pos (by simpa using hkne)]
          exact ((ih (List.pairwise_cons.mp h).2).cons _).trans (List.Perm.swap _ _ _)

/-- A sorted table holds an id at most once, so the entry found for it and the rest of
the table make up all its entries. -/
theorem perm_of_find? {t : Table α} (h : t.Sorted) {id : BufferId} {a : α}
    (hf : t.find? id = some a) : t.entries.Perm ((id, a) :: (t.erase id).entries) := by
  unfold find? at hf
  unfold erase
  induction hl : t.entries generalizing t with
  | nil => simp [hl] at hf
  | cons e rest ih =>
      obtain ⟨k, b⟩ := e
      unfold Sorted at h
      rw [hl] at h hf
      by_cases hk : k = id
      · subst hk
        simp only [List.find?_cons, beq_self_eq_true, Option.map_some, Option.some.injEq] at hf
        subst hf
        rw [List.filter_cons_of_neg (by simp), filter_ne_of_lt h (Nat.le_refl _)]
      · have hf' : (rest.find? (·.1 == id)).map (·.2) = some a := by
          simpa [List.find?_cons, hk] using hf
        have hp := ih (t := ⟨rest⟩) (List.pairwise_cons.mp h).2 hf' rfl
        rw [List.filter_cons_of_pos (by simpa using hk)]
        exact (hp.cons _).trans (List.Perm.swap _ _ _)

/-- An id that a table does not hold is in none of its entries. -/
theorem erase_of_find?_eq_none {t : Table α} {id : BufferId} (hf : t.find? id = none) :
    t.erase id = t := by
  unfold find? at hf
  unfold erase
  congr 1
  rw [List.filter_eq_self]
  intro x hx
  have hne : x.1 ≠ id := by
    intro he
    have := List.find?_eq_none.mp (Option.map_eq_none_iff.mp hf) x hx
    simp [he] at this
  simpa using hne

theorem insert_perm {t : Table α} (h : t.Sorted) (id : BufferId) (a : α) :
    (t.insert id a).entries.Perm ((id, a) :: (t.erase id).entries) :=
  insertEntry_perm h

end Table

/-! ## The heap only grows -/

namespace Heap

/-- `h'` keeps every cell of `h` at its length, and may hold more cells. -/
def Extends (h h' : Heap) : Prop :=
  h.cells.size ≤ h'.cells.size ∧ ∀ c < h.cells.size, h'.size c = h.size c

theorem Extends.refl (h : Heap) : h.Extends h := ⟨Nat.le_refl _, fun _ _ => rfl⟩

theorem Extends.trans {h₁ h₂ h₃ : Heap} (h₁₂ : h₁.Extends h₂) (h₂₃ : h₂.Extends h₃) :
    h₁.Extends h₃ :=
  ⟨Nat.le_trans h₁₂.1 h₂₃.1, fun c hc => (h₂₃.2 c (Nat.lt_of_lt_of_le hc h₁₂.1)).trans (h₁₂.2 c hc)⟩

@[simp] theorem cells_size_set (h : Heap) (cell offset : Nat) (value : UInt8) :
    (h.set cell offset value).cells.size = h.cells.size := by
  simp [set]

theorem extends_set (h : Heap) (cell offset : Nat) (value : UInt8) :
    h.Extends (h.set cell offset value) :=
  ⟨by simp, fun c _ => size_set h cell offset value c⟩

/-- The heap with one more cell, holding `data`, at the end. -/
def push (h : Heap) (data : Array UInt8) : Heap := ⟨h.cells.push data⟩

theorem size_push_of_lt (h : Heap) (data : Array UInt8) {c : Nat} (hc : c < h.cells.size) :
    (h.push data).size c = h.size c := by
  have hne : c ≠ h.cells.size := Nat.ne_of_lt hc
  simp [push, size, Heap.bytes, Array.getElem?_push, hne]

@[simp] theorem size_push_self (h : Heap) (data : Array UInt8) :
    (h.push data).size h.cells.size = data.size := by
  simp [push, size, Heap.bytes]

@[simp] theorem cells_size_push (h : Heap) (data : Array UInt8) :
    (h.push data).cells.size = h.cells.size + 1 := by
  simp [push]

theorem extends_push (h : Heap) (data : Array UInt8) : h.Extends (h.push data) :=
  ⟨by simp, fun _ hc => size_push_of_lt h data hc⟩

theorem totalSize_eq_sum (h : Heap) (cells : List Nat) :
    h.totalSize cells = (cells.map h.size).sum := by
  induction cells with
  | nil => rfl
  | cons c rest ih => simp [totalSize, ih]

/-- Two heaps that agree on the lengths of a run of cells give it the same total length. -/
theorem totalSize_congr {h h' : Heap} {cells : List Nat} (hc : ∀ c ∈ cells, h'.size c = h.size c) :
    h'.totalSize cells = h.totalSize cells := by
  rw [totalSize_eq_sum, totalSize_eq_sum, List.map_congr_left hc]

/-- A position that falls on a cell of a run falls inside it. -/
theorem locate_mem {h : Heap} {cells : List Nat} {offset c o : Nat}
    (hl : h.locate cells offset = some (c, o)) : c ∈ cells ∧ o < h.size c := by
  induction cells generalizing offset with
  | nil => simp [locate] at hl
  | cons c' rest ih =>
      unfold locate at hl
      split at hl
      · rename_i hlt
        simp only [Option.some.injEq, Prod.mk.injEq] at hl
        obtain ⟨rfl, rfl⟩ := hl
        exact ⟨List.mem_cons_self, hlt⟩
      · obtain ⟨hmem, hlt⟩ := ih hl
        exact ⟨List.mem_cons_of_mem _ hmem, hlt⟩

end Heap

/-! ## What each operation does -/

namespace Store

/-- The store with a fresh heap cell holding `data` put at the end of buffer `id`, as a
segment with `cursor`, and its length added to the count. Appending and creating both come
to this. -/
def addCell (st : Store) (id : BufferId) (data : Array UInt8) (cursor : Option Nat) : Store :=
  { st with heap := st.heap.push data,
            buffers := st.buffers.insert id (((st.find? id).getD {}).push ⟨st.heap.cells.size, cursor⟩),
            used := st.used + data.size }

@[simp] theorem heap_addCell (st : Store) (id : BufferId) (data : Array UInt8) (cursor : Option Nat) :
    (st.addCell id data cursor).heap = st.heap.push data := rfl

@[simp] theorem used_addCell (st : Store) (id : BufferId) (data : Array UInt8) (cursor : Option Nat) :
    (st.addCell id data cursor).used = st.used + data.size := rfl

@[simp] theorem limit_addCell (st : Store) (id : BufferId) (data : Array UInt8) (cursor : Option Nat) :
    (st.addCell id data cursor).limit = st.limit := rfl

theorem find?_addCell (st : Store) (id : BufferId) (data : Array UInt8) (cursor : Option Nat)
    (k : BufferId) :
    (st.addCell id data cursor).find? k =
      if k = id then some (((st.find? id).getD {}).push ⟨st.heap.cells.size, cursor⟩)
      else st.find? k := by
  simp [addCell, find?]

theorem checkAppend_ok {st : Store} {op : Operation} {id : BufferId} {len : Nat}
    (h : st.checkAppend op id len = .ok ()) :
    id.isReserved = false ∧ st.checkCapacity len = .ok () := by
  unfold checkAppend checkId at h
  cases hr : id.isReserved
  · cases hc : st.checkCapacity len with
    | error f => simp [hr, hc, chargeTo] at h; cases h
    | ok u => exact ⟨rfl, rfl⟩
  · simp [hr] at h
    cases h

theorem checkCreate_ok {a : Allocator} {st : Store} {id : BufferId} {len : Nat}
    (h : st.checkCreate a id len = .ok ()) :
    id.isReserved = false ∧ st.find? id = none ∧ st.checkCapacity len = .ok () ∧
      a.grants len = true := by
  unfold checkCreate checkId at h
  cases hr : id.isReserved <;> simp [hr] at h
  · cases hm : st.contains id <;> simp [hm] at h
    · cases hc : st.checkCapacity len with
      | error f => simp [hc, chargeTo] at h; cases h
      | ok u =>
          cases ha : a.grants len <;> simp [hc, ha, chargeTo] at h
          · cases h
          · have hf : st.find? id = none := by
              simpa [contains, Table.contains, find?] using hm
            exact ⟨rfl, hf, rfl, rfl⟩
    · cases h
  · cases h

/-- A length passes the capacity check exactly when the count plus it, stopping at the
largest word, stays within the limit. -/
theorem checkCapacity_ok {st : Store} {len : Nat} (h : st.checkCapacity len = .ok ()) :
    ∀ L, st.limit = some L → min (st.used + len) wordMax ≤ L := by
  intro L hL
  unfold checkCapacity at h
  rw [hL] at h
  by_cases hgt : min (st.used + len) wordMax > L
  · simp [hgt] at h
  · omega

theorem append_ok {a : Allocator} {st st' : Store} {id : BufferId} {n : NewSegment}
    (h : st.append a id n = .ok st') :
    st.checkAppend .bufferWrite id n.length = .ok () ∧
      ∃ data cursor, data.size = n.length ∧ (cursor = none ∨ cursor = some 0) ∧
        st' = st.addCell id data cursor := by
  unfold append at h
  cases hc : st.checkAppend .bufferWrite id n.length with
  | error f => simp [hc] at h; cases h
  | ok u =>
      refine ⟨rfl, ?_⟩
      rw [hc] at h
      cases n with
      | readOnly data =>
          simp at h
          exact ⟨data, none, rfl, .inl rfl, h.symm⟩
      | zeroed len =>
          -- a zeroed segment is refused only by the allocator
          by_cases hcan : a.grants len = true
          · simp only [Segment.zeroed?, hcan, if_true] at h
            refine ⟨Array.replicate len 0, some 0, by simp [NewSegment.length], .inr rfl, ?_⟩
            cases h
            simp [addCell, attach, Heap.alloc, Heap.push, find?]
          · cases u
            simp [Segment.zeroed?, hcan] at h
            cases h

theorem createWritable_ok {a : Allocator} {st st' : Store} {id : BufferId} {len : Nat}
    (h : st.createWritable a id len = .ok st') :
    st.checkCreate a id len = .ok () ∧ st' = st.addCell id (Array.replicate len 0) (some 0) := by
  unfold createWritable at h
  cases hc : st.checkCreate a id len with
  | error f => simp [hc] at h
  | ok u =>
      refine ⟨rfl, ?_⟩
      obtain ⟨-, hf, -, hcan⟩ := checkCreate_ok hc
      simp only [hc] at h
      cases h
      simp [createZeroed, Segment.zeroed?, hcan, addCell, Heap.alloc, Heap.push, hf, Buffer.push]

theorem setByte_ok {st st' : Store} {id : BufferId} {offset : Nat} {v : UInt8}
    (h : st.setByte id offset v = .ok st') :
    ∃ b c o, st.find? id = some b ∧ st.heap.locate b.cells offset = some (c, o) ∧
      st' = st.poke (c, o) v := by
  unfold setByte locate at h
  cases hf : st.find? id with
  | none => simp [hf] at h; cases h
  | some b =>
      cases hl : st.heap.locate b.cells offset with
      | none => simp [hf, hl] at h; cases h
      | some loc =>
          simp only [hf, hl, Except.map] at h
          cases h
          exact ⟨b, loc.1, loc.2, rfl, hl, rfl⟩

/-- Writing output either leaves the store as it is, when the first segment is full, or
stores the byte at its cursor and moves the cursor on. -/
theorem writeOutput_ok {st st' : Store} {id : BufferId} {v : UInt8} {b : Bool}
    (h : st.writeOutput id v = .ok (b, st')) :
    st' = st ∨ ∃ first rest p, st.find? id = some ⟨first :: rest⟩ ∧ first.cursor = some p ∧
      p < first.length st.heap ∧ st' = st.putOutput id p v := by
  unfold writeOutput outputSlot at h
  split at h
  · rename_i first rest hf
    split at h
    · rename_i hw
      cases hr : first.room st.heap with
      | none => simp [hr, Except.map] at h; exact .inl h.2.symm
      | some p =>
          simp only [hr, Except.map, Except.ok.injEq, Prod.mk.injEq] at h
          refine .inr ⟨first, rest, p, hf, ?_⟩
          unfold Segment.room at hr
          split at hr
          · rename_i q hq
            split at hr
            · cases hr
              exact ⟨hq, ‹_›, h.2.symm⟩
            · cases hr
          · cases hr
    · cases h
  · cases h

/-! ## Steps -/

/-- One change of the store by one of its operations. An allocation may be granted or refused
by any allocator, each time as its memory allows then. -/
inductive Step : Store → Store → Prop
  | append {st st' : Store} (a : Allocator) (id : BufferId) (n : NewSegment) :
      st.append a id n = .ok st' → Step st st'
  | create {st st' : Store} (a : Allocator) (id : BufferId) (len : Nat) :
      st.createWritable a id len = .ok st' → Step st st'
  | setByte {st st' : Store} (id : BufferId) (offset : Nat) (v : UInt8) :
      st.setByte id offset v = .ok st' → Step st st'
  | writeOutput {st st' : Store} (id : BufferId) (v : UInt8) (b : Bool) :
      st.writeOutput id v = .ok (b, st') → Step st st'
  | clear (st : Store) (id : BufferId) : Step st (st.clear id).2
  | clearAll (st : Store) : Step st st.clearAll

/-- The stores that a sequence of operations makes from `st`. -/
def Steps (st st' : Store) : Prop := Relation.ReflTransGen Step st st'

/-- The stores that a sequence of operations makes from an empty store under `limit`. -/
def Reachable (limit : Option Nat) (st : Store) : Prop := Steps (withLimit limit) st

theorem heap_putOutput_extends (st : Store) (id : BufferId) (p : Nat) (v : UInt8) :
    st.heap.Extends (st.putOutput id p v).heap := by
  unfold putOutput
  split
  · exact Heap.extends_set _ _ _ _
  · exact Heap.Extends.refl _

theorem heap_clear (st : Store) (id : BufferId) : (st.clear id).2.heap = st.heap := by
  unfold clear
  split <;> rfl

/-- No operation changes the length of a cell that exists. -/
theorem Step.heap_extends {st st' : Store} (h : Step st st') : st.heap.Extends st'.heap := by
  cases h with
  | append a id n h =>
      obtain ⟨-, data, cursor, -, -, rfl⟩ := append_ok h
      exact Heap.extends_push _ _
  | create a id len h =>
      obtain ⟨-, rfl⟩ := createWritable_ok h
      exact Heap.extends_push _ _
  | setByte id offset v h =>
      obtain ⟨b, c, o, -, -, rfl⟩ := setByte_ok h
      exact Heap.extends_set _ _ _ _
  | writeOutput id v b h =>
      rcases writeOutput_ok h with rfl | ⟨first, rest, p, -, -, -, rfl⟩
      · exact Heap.Extends.refl _
      · exact heap_putOutput_extends _ _ _ _
  | clear id => rw [heap_clear]; exact Heap.Extends.refl _
  | clearAll => exact Heap.Extends.refl _

theorem Step.limit_eq {st st' : Store} (h : Step st st') : st'.limit = st.limit := by
  cases h with
  | append a id n h =>
      obtain ⟨-, data, cursor, -, -, rfl⟩ := append_ok h
      rfl
  | create a id len h =>
      obtain ⟨-, rfl⟩ := createWritable_ok h
      rfl
  | setByte id offset v h =>
      obtain ⟨b, c, o, -, -, rfl⟩ := setByte_ok h
      rfl
  | writeOutput id v b h =>
      rcases writeOutput_ok h with rfl | ⟨first, rest, p, -, -, -, rfl⟩
      · rfl
      · unfold putOutput
        split <;> rfl
  | clear id =>
      unfold Store.clear
      split <;> rfl
  | clearAll => rfl

theorem Steps.heap_extends {st st' : Store} (h : Steps st st') : st.heap.Extends st'.heap := by
  induction h with
  | refl => exact Heap.Extends.refl _
  | tail _ hstep ih => exact ih.trans hstep.heap_extends

theorem Steps.limit_eq {st st' : Store} (h : Steps st st') : st'.limit = st.limit := by
  induction h with
  | refl => rfl
  | tail _ hstep ih => rw [hstep.limit_eq, ih]

end Store

end Coprocessor
