import Mathlib
import Coprocessor.Proofs.Session.Snapshot

/-!
# Addressing a buffer by offset

A buffer's contents are the bytes of its segments, one after another, and an offset names
a byte of that sequence whatever the layout. `Heap.locate` walks the segments subtracting
their lengths; the walk lands on the byte the flat sequence holds at that offset, empty
segments and offsets on a boundary included (`Buffer.get?_eq_contents`). Setting a byte by
offset succeeds exactly below the length, keeps every segment at its length, and changes
the contents at that offset alone when no two segments of the buffer share a cell
(`Buffer.contents_of_set?`), as in every buffer a store builds.

The store answers a read of an absent buffer with `notFound`, of an offset past the end
with `outOfRange`, and otherwise with the byte of the contents. A set fails in exactly the
same cases with the same fault (`Store.setByte_eq_error_iff`), and in a store where no cell
is held twice it changes no byte of any other buffer (`Store.contents_of_setByte`). So the
segments appended to a fresh id read back end to end, with no seam
(`Store.toOption_getByte_of_appends`).
-/

namespace Coprocessor

namespace Heap

/-- Where a position of a run falls depends only on the lengths of the cells, which a
write never changes. -/
@[simp] theorem locate_set (h : Heap) (cell offset : Nat) (value : UInt8) (cells : List Nat)
    (pos : Nat) : (h.set cell offset value).locate cells pos = h.locate cells pos := by
  induction cells generalizing pos with
  | nil => rfl
  | cons c rest ih => simp only [locate, size_set, ih]

end Heap

namespace Buffer

variable {h h' : Heap} {b : Buffer} {offset : Nat} {v : UInt8}

@[simp] theorem toList_contents (h : Heap) (b : Buffer) :
    (b.contents h).toList = h.flat b.cells := by
  simp [contents, Heap.concat]

theorem size_contents (h : Heap) (b : Buffer) : (b.contents h).size = b.length h := by
  rw [length_eq]
  simp [contents, Heap.concat]

/-- Reading by offset reads the contents: the byte there below the length, nothing from the
length on. -/
theorem get?_eq_contents (h : Heap) (b : Buffer) (offset : Nat) :
    b.get? h offset = (b.contents h)[offset]? := by
  rw [get?_eq]
  simp [contents, Heap.concat]

/-- A read finds nothing exactly where the walk over the segments finds no cell. -/
theorem get?_eq_none_iff_locate : b.get? h offset = none ↔ h.locate b.cells offset = none := by
  rw [get?_eq, List.getElem?_eq_none_iff, Heap.locate_eq_none_iff,
    Heap.totalSize_eq_length_flat]

theorem set?_eq_none_iff : b.set? h offset v = none ↔ b.length h ≤ offset := by
  unfold set? length
  rw [← Heap.locate_eq_none_iff]
  split <;> simp_all

theorem isSome_set?_iff : (b.set? h offset v).isSome ↔ offset < b.length h := by
  rw [← Nat.not_le, ← set?_eq_none_iff, Option.isSome_iff_ne_none]

/-- Setting a byte keeps the length of every cell, so of every segment. -/
theorem size_of_set? (hs : b.set? h offset v = some h') (c : Nat) : h'.size c = h.size c := by
  unfold set? at hs
  split at hs
  · cases hs
    exact Heap.size_set _ _ _ _ _
  · cases hs

/-- When no two segments share a cell, setting a byte by offset replaces that one byte of
the contents. -/
theorem contents_of_set? (hnd : b.cells.Nodup) (hs : b.set? h offset v = some h') :
    (b.contents h').toList = (b.contents h).toList.set offset v := by
  unfold set? at hs
  split at hs
  · rename_i c o hl
    cases hs
    rw [toList_contents, toList_contents]
    exact Heap.flat_set_of_locate h v hnd hl
  · cases hs

end Buffer

/-- The bytes a new segment starts with. -/
def NewSegment.data : NewSegment → Array UInt8
  | .readOnly bytes => bytes
  | .zeroed len => Array.replicate len 0

namespace Store

variable {st st' : Store} {id : BufferId} {offset : Nat} {v : UInt8} {a : Allocator}

/-! ## Reading and setting by offset -/

theorem getByte_eq_notFound_iff :
    st.getByte id offset = .error ⟨.lookup, .notFound id⟩ ↔ st.find? id = none := by
  unfold getByte
  cases st.find? id with
  | none => simp
  | some b => cases hv : b.get? st.heap offset <;> simp [hv]

theorem getByte_eq_outOfRange_iff :
    st.getByte id offset = .error ⟨.lookup, .outOfRange id offset⟩ ↔
      ∃ b, st.find? id = some b ∧ b.length st.heap ≤ offset := by
  unfold getByte
  cases st.find? id with
  | none => simp
  | some b =>
    have hnone : b.get? st.heap offset = none ↔ b.length st.heap ≤ offset := by
      rw [Buffer.get?_eq_contents, Array.getElem?_eq_none_iff, Buffer.size_contents]
    cases hv : b.get? st.heap offset <;> simp_all

theorem getByte_eq_ok_iff :
    st.getByte id offset = .ok v ↔ ∃ b, st.find? id = some b ∧ (b.contents st.heap)[offset]? = some v := by
  unfold getByte
  cases st.find? id with
  | none => simp
  | some b =>
    have hv := Buffer.get?_eq_contents st.heap b offset
    cases hc : (b.contents st.heap)[offset]? <;> simp [hv, hc]

/-- A read gives the byte of the buffer's contents, an absent buffer holding none. -/
theorem toOption_getByte (st : Store) (id : BufferId) (offset : Nat) :
    (st.getByte id offset).toOption = (st.heap.flat ((st.find? id).getD {}).cells)[offset]? := by
  unfold getByte
  cases st.find? id with
  | none => rfl
  | some b =>
    have hv := Buffer.get?_eq st.heap b offset
    cases hc : (st.heap.flat b.cells)[offset]? <;> simp [hv, hc, Except.toOption]

/-- Locating an offset fails exactly where reading it does, with the same fault. -/
theorem locate_eq_error_iff {f : Fault} :
    st.locate id offset = .error f ↔ st.getByte id offset = .error f := by
  unfold locate getByte
  cases st.find? id with
  | none => simp
  | some b =>
    cases hl : st.heap.locate b.cells offset with
    | none => simp [hl, Buffer.get?_eq_none_iff_locate.mpr hl]
    | some loc =>
      have hget : b.get? st.heap offset ≠ none := fun hn =>
        absurd (Buffer.get?_eq_none_iff_locate.mp hn) (by simp [hl])
      obtain ⟨w, hw⟩ := Option.ne_none_iff_exists'.mp hget
      simp [hl, hw]

/-- Setting a byte fails exactly where reading it does, with the same fault. -/
theorem setByte_eq_error_iff {f : Fault} :
    st.setByte id offset v = .error f ↔ st.getByte id offset = .error f := by
  rw [← locate_eq_error_iff]
  unfold setByte
  cases st.locate id offset <;> simp [Except.map]

/-- A set changes the heap alone: every buffer keeps its segments, and the count stays. -/
theorem fields_of_setByte (h : st.setByte id offset v = .ok st') :
    st'.buffers = st.buffers ∧ st'.used = st.used ∧ st'.limit = st.limit := by
  obtain ⟨b, c, o, -, -, rfl⟩ := setByte_ok h
  exact ⟨rfl, rfl, rfl⟩

/-- After a set, the byte reads back. -/
theorem getByte_of_setByte (h : st.setByte id offset v = .ok st') :
    st'.getByte id offset = .ok v := by
  obtain ⟨b, c, o, hf, hl, rfl⟩ := setByte_ok h
  have ho : o < st.heap.size c := (Heap.locate_mem hl).2
  unfold getByte Buffer.get? Heap.byteAt
  simp only [poke, find?] at hf ⊢
  rw [hf]
  simp only [Heap.locate_set, hl, Heap.get?_set_self _ _ _ _ ho]

/-! ## Stores where no cell is held twice -/

/-- In a store where no cell is held twice, no two segments of one buffer share a cell. -/
theorem cells_nodup_of_find? (hnd : st.cells.Nodup) {b : Buffer} (hf : st.find? id = some b) :
    b.cells.Nodup :=
  (List.nodup_flatMap.mp hnd).1 _ (mem_entries_of_find? hf)

/-- In a store where no cell is held twice, two buffers hold no cell in common. -/
theorem not_mem_cells_of_ne (hnd : st.cells.Nodup) {x y : BufferId} {bx b : Buffer}
    (hx : st.find? x = some bx) (hy : st.find? y = some b) (hne : y ≠ x) {c : Nat}
    (hc : c ∈ bx.cells) : c ∉ b.cells := by
  have hdisj := (List.nodup_flatMap.mp hnd).2
  have : Std.Symm (Function.onFun List.Disjoint fun e : BufferId × Buffer => e.2.cells) :=
    ⟨fun _ _ h => h.symm⟩
  have hentries : (x, bx) ≠ (y, b) := fun e => hne (congrArg Prod.fst e).symm
  exact fun hcy => hdisj.forall (mem_entries_of_find? hx) (mem_entries_of_find? hy) hentries
    hc hcy

/-- A set through one buffer, in a store where no cell is held twice, replaces that byte of
its contents and leaves the contents of every other buffer alone. -/
theorem contents_of_setByte (hnd : st.cells.Nodup) (h : st.setByte id offset v = .ok st')
    {y : BufferId} {b : Buffer} (hy : st.find? y = some b) :
    (b.contents st'.heap).toList =
      if y = id then (b.contents st.heap).toList.set offset v else (b.contents st.heap).toList := by
  obtain ⟨bx, c, o, hx, hl, rfl⟩ := setByte_ok h
  simp only [poke, Buffer.toList_contents]
  split
  · -- the buffer set: its cells are distinct, so only the located byte changes
    rename_i hyx
    subst hyx
    rw [hx] at hy
    cases hy
    exact Heap.flat_set_of_locate _ v (cells_nodup_of_find? hnd hx) hl
  · rename_i hyx
    exact Heap.flat_set_of_not_mem _ _ _ (not_mem_cells_of_ne hnd hx hy hyx (Heap.locate_mem hl).1)

/-! ## Appending segments -/

/-- An append that succeeds adds a fresh cell holding the new segment's bytes. -/
theorem addCell_of_append {n : NewSegment} (h : st.append a id n = .ok st') :
    ∃ cursor, st' = st.addCell id n.data cursor := by
  unfold append at h
  cases hc : st.checkAppend .bufferWrite id n.length with
  | error f =>
    rw [hc] at h
    cases h
  | ok u =>
    rw [hc] at h
    cases n with
    | readOnly bytes =>
      cases h
      exact ⟨none, rfl⟩
    | zeroed len =>
      -- a zeroed segment is refused only by the allocator
      by_cases hcan : a.grants len = true
      · simp only [Segment.zeroed?, hcan, if_true] at h
        cases h
        exact ⟨some 0, by simp [addCell, attach, Heap.alloc, Heap.push, find?, NewSegment.data]⟩
      · simp [Segment.zeroed?, hcan] at h
        cases h

/-- The contents of a buffer after adding a cell: the old contents, then the new bytes. -/
theorem flat_addCell (id : BufferId) (data : Array UInt8) (cursor : Option Nat)
    (halloc : ∀ c ∈ ((st.find? id).getD {}).cells, c < st.heap.cells.size) :
    (st.addCell id data cursor).heap.flat (((st.addCell id data cursor).find? id).getD {}).cells =
      st.heap.flat ((st.find? id).getD {}).cells ++ data.toList := by
  rw [find?_addCell, if_pos rfl, Option.getD_some, Buffer.cells_push, heap_addCell]
  unfold Heap.flat
  rw [List.flatMap_append, ← Heap.flat, ← Heap.flat, Heap.flat_push _ _ halloc]
  simp [Heap.flat, Heap.bytes, Heap.push]

/-- Appending a run of segments adds their bytes, in order, after the buffer's contents,
and the buffer's cells stay within the heap. -/
theorem flat_of_appends {segs : List NewSegment}
    (halloc : ∀ c ∈ ((st.find? id).getD {}).cells, c < st.heap.cells.size)
    (h : segs.foldlM (fun st n => st.append a id n) st = .ok st') :
    st'.heap.flat ((st'.find? id).getD {}).cells =
      st.heap.flat ((st.find? id).getD {}).cells ++ segs.flatMap (·.data.toList) := by
  induction segs generalizing st with
  | nil =>
    cases h
    simp
  | cons n rest ih =>
    rw [List.foldlM_cons] at h
    cases hn : st.append a id n with
    | error f =>
      rw [hn] at h
      cases h
    | ok st₁ =>
      rw [hn] at h
      obtain ⟨cursor, rfl⟩ := addCell_of_append hn
      -- the grown buffer's cells are the old ones and the fresh one, all in the heap
      have halloc₁ : ∀ c ∈ (((st.addCell id n.data cursor).find? id).getD {}).cells,
          c < (st.addCell id n.data cursor).heap.cells.size := by
        intro c hc
        rw [find?_addCell, if_pos rfl, Option.getD_some, Buffer.cells_push] at hc
        rw [heap_addCell, Heap.cells_size_push]
        rcases List.mem_append.mp hc with hc | hc
        · exact Nat.lt_succ_of_lt (halloc c hc)
        · rw [List.mem_singleton.mp hc]
          exact Nat.lt_succ_self _
      rw [ih halloc₁ h, flat_addCell id n.data cursor halloc, List.flatMap_cons,
        List.append_assoc]

/-- Segments appended to a fresh id read back end to end: every offset below their total
length gives the byte there, and every offset from it on fails. -/
theorem toOption_getByte_of_appends {segs : List NewSegment} (hfresh : st.find? id = none)
    (h : segs.foldlM (fun st n => st.append a id n) st = .ok st') (offset : Nat) :
    (st'.getByte id offset).toOption = (segs.flatMap (·.data.toList))[offset]? := by
  have halloc : ∀ c ∈ ((st.find? id).getD {}).cells, c < st.heap.cells.size := by
    simp [hfresh, Buffer.cells]
  rw [toOption_getByte, flat_of_appends halloc h, hfresh]
  rfl

end Store

/-- Offsets address a buffer's contents across its segments. For every buffer and offset a
read gives the byte of the contents below the length and nothing from it on; a set
succeeds exactly below the length, keeps every segment at its length and, the segments
sharing no cell as in every buffer a store builds, replaces that one byte. In the store a
read of an absent buffer fails with `notFound`, one past the end with `outOfRange`, and any
other gives the byte; a set fails in the same cases with the same fault, and on success
changes that byte and, where no cell is held twice, no byte of another buffer. Segments
appended to a fresh id read back end to end. -/
theorem offsets_address_contents :
    (∀ (h : Heap) (b : Buffer) (offset : Nat),
      (b.contents h).size = b.length h ∧ b.get? h offset = (b.contents h)[offset]?) ∧
    (∀ (h : Heap) (b : Buffer) (offset : Nat) (v : UInt8),
      ((b.set? h offset v).isSome ↔ offset < b.length h) ∧
      ∀ h', b.set? h offset v = some h' → (∀ seg ∈ b.segments, seg.length h' = seg.length h) ∧
        (b.cells.Nodup → (b.contents h').toList = (b.contents h).toList.set offset v)) ∧
    (∀ limit (st : Store), Store.Reachable limit st →
      ∀ id b, st.find? id = some b → b.cells.Nodup) ∧
    (∀ (st : Store) (id : BufferId) (offset : Nat),
      (st.getByte id offset = .error ⟨.lookup, .notFound id⟩ ↔ st.find? id = none) ∧
      (st.getByte id offset = .error ⟨.lookup, .outOfRange id offset⟩ ↔
        ∃ b, st.find? id = some b ∧ b.length st.heap ≤ offset) ∧
      (∀ v, st.getByte id offset = .ok v ↔
        ∃ b, st.find? id = some b ∧ (b.contents st.heap)[offset]? = some v)) ∧
    (∀ (st : Store) (id : BufferId) (offset : Nat) (v : UInt8),
      (∀ f, st.setByte id offset v = .error f ↔ st.getByte id offset = .error f) ∧
      ∀ st', st.setByte id offset v = .ok st' →
        st'.buffers = st.buffers ∧ st'.used = st.used ∧ st'.getByte id offset = .ok v ∧
        (st.cells.Nodup → ∀ y b, st.find? y = some b → (b.contents st'.heap).toList =
          if y = id then (b.contents st.heap).toList.set offset v
          else (b.contents st.heap).toList)) ∧
    (∀ (a : Allocator) (st st' : Store) (id : BufferId) (segs : List NewSegment),
      st.find? id = none → segs.foldlM (fun st n => st.append a id n) st = .ok st' →
      ∀ offset, (st'.getByte id offset).toOption = (segs.flatMap (·.data.toList))[offset]?) := by
  refine ⟨fun h b offset => ⟨Buffer.size_contents h b, Buffer.get?_eq_contents h b offset⟩,
    fun h b offset v => ⟨Buffer.isSome_set?_iff, fun h' hs => ⟨fun seg _ => ?_, fun hnd =>
      Buffer.contents_of_set? hnd hs⟩⟩,
    fun _ _ hr _ _ hf => hr.inv.cells_nodup hf,
    fun _ _ _ => ⟨Store.getByte_eq_notFound_iff, Store.getByte_eq_outOfRange_iff,
      fun _ => Store.getByte_eq_ok_iff⟩,
    fun _ _ _ _ => ⟨fun _ => Store.setByte_eq_error_iff, fun _ hs => ?_⟩,
    fun _ _ _ _ _ hfresh h => Store.toOption_getByte_of_appends hfresh h⟩
  · exact Buffer.size_of_set? hs seg.cell
  · obtain ⟨hbuf, hused, -⟩ := Store.fields_of_setByte hs
    exact ⟨hbuf, hused, Store.getByte_of_setByte hs,
      fun hnd _ _ hy => Store.contents_of_setByte hnd hs hy⟩

example : (([NewSegment.readOnly #[1, 2], .zeroed 2, .readOnly #[3]].foldlM
    (fun (st : Store) n => st.append (Allocator.upTo 2 (by decide)) ⟨7⟩ n)
      (Store.withLimit none)).bind fun st => st.getByte ⟨7⟩ 4) = .ok 3 := by decide

end Coprocessor
