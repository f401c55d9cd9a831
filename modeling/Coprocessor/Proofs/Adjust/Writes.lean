import Mathlib
import Coprocessor.Proofs.Store.Addressing
import Coprocessor.Proofs.Adjust.Reference

/-!
# Runs of byte writes on a store

`Store.setAll` makes writes to one buffer in order, each as `setByte` does, a write outside
the buffer changing nothing. It is the store an adjust command leaves, whether it ends or
stops at a failed lookup: the writes it made, in the order it made them.

Writes change heap bytes in place and nothing else, so the buffers, the lengths of the
cells and the heap byte each offset lives on stay as they were (`locate_setAll`), and a heap
byte that no write lands on keeps its value (`get?_setAll_of_forall_ne`). Where no cell is
held twice, the written buffer's bytes become the writes applied to them, and every other
buffer keeps its bytes (`bytesOf_setAll`).
-/

namespace Coprocessor

namespace Heap

/-- On a run of distinct cells, two positions that fall on the same heap byte are equal. -/
theorem locate_inj {h : Heap} {cells : List Nat} (hnd : cells.Nodup) {p q : Nat}
    {l : Nat × Nat} (hp : h.locate cells p = some l) (hq : h.locate cells q = some l) : p = q := by
  obtain ⟨c, o⟩ := l
  induction cells generalizing p q with
  | nil => cases hp
  | cons c' rest ih =>
    obtain ⟨hc', hrest⟩ := List.nodup_cons.mp hnd
    simp only [locate] at hp hq
    split_ifs at hp hq with hpc hqc hqc
    · simp only [Option.some.injEq, Prod.mk.injEq] at hp hq
      omega
    · -- `p` falls in the first cell, `q` in a later one: the first cell comes again
      simp only [Option.some.injEq, Prod.mk.injEq] at hp
      exact absurd (hp.1 ▸ (locate_mem hq).1) hc'
    · simp only [Option.some.injEq, Prod.mk.injEq] at hq
      exact absurd (hq.1 ▸ (locate_mem hp).1) hc'
    · have := ih hrest hp hq
      omega

/-- Setting a byte keeps the total length of every run of cells. -/
@[simp] theorem totalSize_set (h : Heap) (cell offset : Nat) (value : UInt8) (cells : List Nat) :
    (h.set cell offset value).totalSize cells = h.totalSize cells :=
  totalSize_congr fun c _ => size_set h cell offset value c

end Heap

namespace Store

/-- The bytes of buffer `id`, none when it is absent. -/
def bytesOf (st : Store) (id : BufferId) : List UInt8 :=
  st.heap.flat ((st.find? id).getD {}).cells

/-- Byte `offset` of buffer `id`, zero past its end. -/
def byteOrZero (st : Store) (id : BufferId) (offset : Nat) : UInt8 := (st.bytesOf id).getD offset 0

/-- The heap byte that byte `offset` of buffer `id` lives on. -/
def byteLoc (st : Store) (id : BufferId) (offset : Nat) : Option (Nat × Nat) :=
  (st.locate id offset).toOption

/-- Sets a byte as `setByte` does, and changes nothing where the offset is not in the
buffer. -/
def trySet (st : Store) (id : BufferId) (w : Nat × UInt8) : Store :=
  match st.setByte id w.1 w.2 with
  | .ok st' => st'
  | .error _ => st

/-- Makes writes to buffer `id`, in order. -/
def setAll (st : Store) (id : BufferId) (ws : List (Nat × UInt8)) : Store :=
  ws.foldl (fun st w => st.trySet id w) st

variable {st : Store} {id y : BufferId} {w : Nat × UInt8} {ws : List (Nat × UInt8)}

theorem toOption_getByte_eq_bytesOf (st : Store) (id : BufferId) (offset : Nat) :
    (st.getByte id offset).toOption = (st.bytesOf id)[offset]? :=
  toOption_getByte st id offset

/-! ## One write -/

/-- A write pokes the heap byte its offset lives on, if there is one. -/
theorem trySet_eq (st : Store) (id : BufferId) (w : Nat × UInt8) :
    st.trySet id w = match st.byteLoc id w.1 with
      | some loc => st.poke loc w.2
      | none => st := by
  unfold trySet setByte byteLoc
  cases st.locate id w.1 <;> rfl

@[simp] theorem buffers_trySet : (st.trySet id w).buffers = st.buffers := by
  rw [trySet_eq]
  split <;> rfl

@[simp] theorem used_trySet : (st.trySet id w).used = st.used := by
  rw [trySet_eq]
  split <;> rfl

@[simp] theorem limit_trySet : (st.trySet id w).limit = st.limit := by
  rw [trySet_eq]
  split <;> rfl

@[simp] theorem heap_locate_trySet (cells : List Nat) (offset : Nat) :
    (st.trySet id w).heap.locate cells offset = st.heap.locate cells offset := by
  rw [trySet_eq]
  split <;> simp [poke]

@[simp] theorem heap_totalSize_trySet (cells : List Nat) :
    (st.trySet id w).heap.totalSize cells = st.heap.totalSize cells := by
  rw [trySet_eq]
  split <;> simp [poke]

@[simp] theorem locate_trySet (offset : Nat) :
    (st.trySet id w).locate y offset = st.locate y offset := by
  simp [locate, find?]

@[simp] theorem byteLoc_trySet (offset : Nat) :
    (st.trySet id w).byteLoc y offset = st.byteLoc y offset := by
  simp [byteLoc]

/-- A heap byte that a write does not land on keeps its value. -/
theorem get?_trySet_of_ne {c o : Nat} (hne : st.byteLoc id w.1 ≠ some (c, o)) :
    (st.trySet id w).heap.get? c o = st.heap.get? c o := by
  rw [trySet_eq]
  split
  · rename_i loc hloc
    obtain ⟨c', o'⟩ := loc
    have hne' : c' ≠ c ∨ o' ≠ o := by
      by_cases hc : c' = c
      · subst hc
        exact Or.inr fun ho => hne (ho ▸ hloc)
      · exact Or.inl hc
    exact Heap.get?_set_ne _ _ _ _ _ _ hne'
  · rfl

/-! ## Runs of writes -/

@[simp] theorem setAll_nil (st : Store) (id : BufferId) : st.setAll id [] = st := rfl

@[simp] theorem setAll_cons (st : Store) (id : BufferId) (w : Nat × UInt8)
    (ws : List (Nat × UInt8)) : st.setAll id (w :: ws) = (st.trySet id w).setAll id ws := rfl

theorem setAll_append (st : Store) (id : BufferId) (ws ws' : List (Nat × UInt8)) :
    st.setAll id (ws ++ ws') = (st.setAll id ws).setAll id ws' :=
  List.foldl_append

@[simp] theorem buffers_setAll : (st.setAll id ws).buffers = st.buffers := by
  induction ws generalizing st with
  | nil => rfl
  | cons w ws ih => rw [setAll_cons, ih, buffers_trySet]

@[simp] theorem used_setAll : (st.setAll id ws).used = st.used := by
  induction ws generalizing st with
  | nil => rfl
  | cons w ws ih => rw [setAll_cons, ih, used_trySet]

@[simp] theorem find?_setAll : (st.setAll id ws).find? y = st.find? y := by
  simp [find?]

@[simp] theorem heap_locate_setAll (cells : List Nat) (offset : Nat) :
    (st.setAll id ws).heap.locate cells offset = st.heap.locate cells offset := by
  induction ws generalizing st with
  | nil => rfl
  | cons w ws ih => rw [setAll_cons, ih, heap_locate_trySet]

@[simp] theorem heap_totalSize_setAll (cells : List Nat) :
    (st.setAll id ws).heap.totalSize cells = st.heap.totalSize cells := by
  induction ws generalizing st with
  | nil => rfl
  | cons w ws ih => rw [setAll_cons, ih, heap_totalSize_trySet]

@[simp] theorem locate_setAll (offset : Nat) :
    (st.setAll id ws).locate y offset = st.locate y offset := by
  simp [locate]

@[simp] theorem byteLoc_setAll (offset : Nat) :
    (st.setAll id ws).byteLoc y offset = st.byteLoc y offset := by
  simp [byteLoc]

/-- A heap byte that no write lands on keeps its value. -/
theorem get?_setAll_of_forall_ne {c o : Nat} (hne : ∀ w ∈ ws, st.byteLoc id w.1 ≠ some (c, o)) :
    (st.setAll id ws).heap.get? c o = st.heap.get? c o := by
  induction ws generalizing st with
  | nil => rfl
  | cons w ws ih =>
    simp only [List.mem_cons, forall_eq_or_imp] at hne
    rw [setAll_cons, ih (by simpa using hne.2), get?_trySet_of_ne hne.1]

/-- A position of a run of cells whose heap byte no write lands on reads as before. -/
theorem byteAt_setAll {cells : List Nat} {offset : Nat}
    (hne : ∀ l, st.heap.locate cells offset = some l → ∀ w ∈ ws, st.byteLoc id w.1 ≠ some l) :
    (st.setAll id ws).heap.byteAt cells offset = st.heap.byteAt cells offset := by
  unfold Heap.byteAt
  rw [heap_locate_setAll]
  cases hl : st.heap.locate cells offset with
  | none => rfl
  | some l => exact get?_setAll_of_forall_ne (hne l hl)

theorem byteLoc_of_find? {b : Buffer} (hf : st.find? y = some b) (offset : Nat) :
    st.byteLoc y offset = st.heap.locate b.cells offset := by
  simp only [byteLoc, locate, hf]
  cases st.heap.locate b.cells offset <;> rfl

/-- A byte of a buffer whose heap byte no write lands on reads as before. -/
theorem getByte_setAll {offset : Nat}
    (hne : ∀ l, st.byteLoc y offset = some l → ∀ w ∈ ws, st.byteLoc id w.1 ≠ some l) :
    (st.setAll id ws).getByte y offset = st.getByte y offset := by
  unfold getByte Buffer.get?
  rw [find?_setAll]
  cases hf : st.find? y with
  | none => rfl
  | some b =>
    dsimp only
    rw [byteAt_setAll fun l hl => hne l ((byteLoc_of_find? hf offset).trans hl)]

/-- Where no cell is held twice, two bytes of a buffer that live on the same heap byte are
one byte. -/
theorem byteLoc_inj (hnd : st.cells.Nodup) {p q : Nat} {l : Nat × Nat}
    (hp : st.byteLoc id p = some l) (hq : st.byteLoc id q = some l) : p = q := by
  cases hf : st.find? id with
  | none => simp [byteLoc, locate, hf, Except.toOption] at hp
  | some b =>
    rw [byteLoc_of_find? hf] at hp hq
    exact Heap.locate_inj (cells_nodup_of_find? hnd hf) hp hq

/-- Where no cell is held twice, a byte of the written buffer that no write names reads as
before. -/
theorem getByte_setAll_self (hnd : st.cells.Nodup) {offset : Nat} (hne : ∀ w ∈ ws, w.1 ≠ offset) :
    (st.setAll id ws).getByte id offset = st.getByte id offset :=
  getByte_setAll fun _ hl w hw hwl => hne w hw (byteLoc_inj hnd hwl hl)

/-- Where no cell is held twice, a write sets its byte of the written buffer and leaves
every other buffer's bytes alone; a write outside the buffer changes nothing. -/
theorem bytesOf_trySet (hnd : st.cells.Nodup) :
    (st.trySet id w).bytesOf y = if y = id then (st.bytesOf id).set w.1 w.2 else st.bytesOf y := by
  unfold trySet
  cases hs : st.setByte id w.1 w.2 with
  | error f =>
    -- the offset is outside the buffer, so setting it changes nothing
    have hnone : (st.bytesOf id)[w.1]? = none := by
      rw [← toOption_getByte_eq_bytesOf, (setByte_eq_error_iff.mp hs)]
      rfl
    rw [List.set_eq_of_length_le (List.getElem?_eq_none_iff.mp hnone)]
    split <;> simp_all
  | ok st' =>
    have hfind : st'.find? = st.find? := by
      unfold find?
      rw [(fields_of_setByte hs).1]
    simp only [bytesOf, hfind]
    cases hy : st.find? y with
    | none =>
      split
      · rename_i hyid
        subst hyid
        simp only [hy]
        rfl
      · rfl
    | some b =>
      have hc := contents_of_setByte hnd hs hy
      simp only [Buffer.toList_contents] at hc
      simp only [Option.getD_some, hc]
      split
      · simp_all
      · rfl

/-- Where no cell is held twice, the writes make the written buffer's bytes the writes
applied to them, and leave every other buffer's bytes alone. -/
theorem bytesOf_setAll (hnd : st.cells.Nodup) :
    (st.setAll id ws).bytesOf y = if y = id then applyWrites (st.bytesOf id) ws else st.bytesOf y := by
  induction ws generalizing st with
  | nil => split <;> simp_all [applyWrites]
  | cons w ws ih =>
    have hnd' : (st.trySet id w).cells.Nodup := by simpa [cells] using hnd
    rw [setAll_cons, ih hnd', bytesOf_trySet hnd, bytesOf_trySet hnd]
    split
    · simp [applyWrites]
    · rfl

end Store

end Coprocessor
