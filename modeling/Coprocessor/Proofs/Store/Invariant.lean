import Mathlib
import Coprocessor.Proofs.Store.Steps

/-!
# The store's representation invariant

Every store that the operations make from an empty one satisfies `Store.Inv`: no
reserved id names a buffer, the byte count is the sum of the stored buffers' lengths and
stays within the limit, every segment names its own heap cell, and every write cursor lies
within its segment. Each operation keeps it (`Inv.step`), so every reachable store has it
(`Reachable.inv`).

The count is kept up in four places, and it is right only because no operation changes
the length of a segment once it has been counted: setting a byte and writing at a cursor
store into a cell and leave its length alone, and a new segment always gets a fresh cell.
-/

namespace Coprocessor

namespace Store

/-- The heap cells of every segment of every stored buffer. -/
def cells (st : Store) : List Nat := st.buffers.entries.flatMap (·.2.cells)

/-- The bytes the stored buffers hold: the sum of their lengths. -/
def total (st : Store) : Nat := (st.buffers.entries.map (·.2.length st.heap)).sum

/-- The representation invariant of the store. -/
structure Inv (st : Store) : Prop where
  sorted : st.buffers.Sorted
  reserved : ∀ id, id.isReserved = true → st.find? id = none
  used_eq : st.used = st.total
  within_limit : ∀ L, st.limit = some L → st.used ≤ L ∨ wordMax ≤ L
  allocated : ∀ c ∈ st.cells, c < st.heap.cells.size
  nodup : st.cells.Nodup
  cursor_le : ∀ id b, st.find? id = some b → ∀ seg ∈ b.segments, ∀ p,
    seg.cursor = some p → p ≤ seg.length st.heap

/-! ## The stored cells, one buffer at a time -/

theorem mem_entries_of_find? {t : Table Buffer} {id : BufferId} {b : Buffer}
    (hf : t.find? id = some b) : (id, b) ∈ t.entries := by
  unfold Table.find? at hf
  obtain ⟨e, he, rfl⟩ := Option.map_eq_some_iff.mp hf
  have hk : e.1 = id := by simpa using List.find?_some he
  rw [← hk]
  exact List.mem_of_find?_eq_some he

theorem mem_cells {st : Store} {id : BufferId} {b : Buffer} (hf : st.find? id = some b)
    {c : Nat} (hc : c ∈ b.cells) : c ∈ st.cells :=
  List.mem_flatMap.mpr ⟨(id, b), mem_entries_of_find? hf, hc⟩

/-- The stored cells are those of one buffer and those of all the others. -/
theorem cells_perm_split {st : Store} (hs : st.buffers.Sorted) (id : BufferId) :
    st.cells.Perm (((st.find? id).getD {}).cells ++ (st.buffers.erase id).entries.flatMap (·.2.cells)) := by
  unfold cells
  cases hf : st.find? id with
  | none =>
      rw [Table.erase_of_find?_eq_none hf]
      rfl
  | some b =>
      have hp := (Table.perm_of_find? hs hf).flatMap_right (·.2.cells)
      simpa using hp

/-- The bytes held are those of one buffer and those of all the others. -/
theorem total_split {st : Store} (hs : st.buffers.Sorted) (id : BufferId) :
    st.total = ((st.find? id).getD {}).length st.heap +
      ((st.buffers.erase id).entries.map (·.2.length st.heap)).sum := by
  unfold total
  cases hf : st.find? id with
  | none =>
      rw [Table.erase_of_find?_eq_none hf]
      simp [Buffer.length, Buffer.cells, Heap.totalSize]
  | some b =>
      have hp := ((Table.perm_of_find? hs hf).map (·.2.length st.heap)).sum_eq
      simpa using hp

/-- A buffer's length depends only on the lengths of its cells. -/
theorem length_congr {h h' : Heap} {b : Buffer} (hc : ∀ c ∈ b.cells, h'.size c = h.size c) :
    b.length h' = b.length h :=
  Heap.totalSize_congr hc

/-- The bytes the buffers of a list of entries hold depend only on the lengths of their
cells. -/
theorem sum_length_congr {h h' : Heap} {l : List (BufferId × Buffer)}
    (hc : ∀ c ∈ l.flatMap (·.2.cells), h'.size c = h.size c) :
    (l.map (·.2.length h')).sum = (l.map (·.2.length h)).sum := by
  congr 1
  apply List.map_congr_left
  intro e he
  exact length_congr fun c hce => hc c (List.mem_flatMap.mpr ⟨e, he, hce⟩)

theorem totalSize_append_single (h : Heap) (l : List Nat) (c : Nat) :
    h.totalSize (l ++ [c]) = h.totalSize l + h.size c := by
  simp [Heap.totalSize_eq_sum]

/-! ## Adding a cell -/

/-- Adding a cell adds exactly the fresh cell to the stored ones, up to order. -/
theorem cells_addCell_perm {st : Store} (hs : st.buffers.Sorted) (id : BufferId)
    (data : Array UInt8) (cursor : Option Nat) :
    (st.addCell id data cursor).cells.Perm (st.cells ++ [st.heap.cells.size]) := by
  let old := (st.find? id).getD {}
  let rest := (st.buffers.erase id).entries.flatMap (·.2.cells)
  have hnew : (st.addCell id data cursor).cells.Perm (old.cells ++ [st.heap.cells.size] ++ rest) := by
    have hp := (Table.insert_perm hs id (old.push ⟨st.heap.cells.size, cursor⟩)).flatMap_right
      (·.2.cells)
    simpa [cells, addCell, old, rest] using hp
  have hswap : (old.cells ++ [st.heap.cells.size] ++ rest).Perm
      (old.cells ++ rest ++ [st.heap.cells.size]) := by
    rw [List.append_assoc, List.append_assoc]
    exact List.Perm.append_left _ List.perm_append_comm
  exact hnew.trans (hswap.trans ((cells_perm_split hs id).append_right _).symm)

/-- Adding a cell adds its length to the bytes held, and changes no other buffer's length. -/
theorem total_addCell {st : Store} (hs : st.buffers.Sorted)
    (halloc : ∀ c ∈ st.cells, c < st.heap.cells.size) (id : BufferId) (data : Array UInt8)
    (cursor : Option Nat) :
    (st.addCell id data cursor).total = st.total + data.size := by
  let old := (st.find? id).getD {}
  let h' := st.heap.push data
  let others := (st.buffers.erase id).entries
  -- every cell already stored keeps its length in the grown heap
  have hkeep : ∀ c ∈ st.cells, h'.size c = st.heap.size c :=
    fun c hc => Heap.size_push_of_lt _ _ (halloc c hc)
  have hsplit := (cells_perm_split hs id)
  have hold : (old.push ⟨st.heap.cells.size, cursor⟩).length h' = old.length st.heap + data.size := by
    unfold Buffer.length
    rw [Buffer.cells_push, totalSize_append_single, Heap.size_push_self]
    congr 1
    exact Heap.totalSize_congr fun c hc => hkeep c (hsplit.mem_iff.mpr (List.mem_append_left _ hc))
  have hrest : (others.map (·.2.length h')).sum = (others.map (·.2.length st.heap)).sum :=
    sum_length_congr fun c hc => hkeep c (hsplit.mem_iff.mpr (List.mem_append_right _ hc))
  have hnew : (st.addCell id data cursor).total =
      (old.push ⟨st.heap.cells.size, cursor⟩).length h' + (others.map (·.2.length h')).sum := by
    have hp := ((Table.insert_perm hs id (old.push ⟨st.heap.cells.size, cursor⟩)).map
      (·.2.length h')).sum_eq
    simpa [total, addCell, old, h', others] using hp
  rw [hnew, hold, hrest, total_split hs id]
  dsimp only [others, old]
  omega

theorem Inv.addCell {st : Store} (hi : st.Inv) {id : BufferId} {data : Array UInt8}
    {cursor : Option Nat} (hres : id.isReserved = false)
    (hcap : ∀ L, st.limit = some L → min (st.used + data.size) wordMax ≤ L)
    (hcur : cursor = none ∨ cursor = some 0) : (st.addCell id data cursor).Inv := by
  have hperm := cells_addCell_perm hi.sorted id data cursor
  -- the fresh cell lies past every stored one, so it is none of them
  have hfresh : st.heap.cells.size ∉ st.cells := fun h => Nat.lt_irrefl _ (hi.allocated _ h)
  have hlen : ∀ seg : Segment, seg.cell ∈ st.cells →
      seg.length (st.heap.push data) = seg.length st.heap :=
    fun seg hc => Heap.size_push_of_lt _ _ (hi.allocated _ hc)
  refine ⟨hi.sorted.insert _ _, ?_, ?_, ?_, ?_, ?_, ?_⟩
  · intro k hk
    have hne : k ≠ id := by
      rintro rfl
      rw [hres] at hk
      cases hk
    rw [find?_addCell, if_neg hne]
    exact hi.reserved k hk
  · rw [total_addCell hi.sorted hi.allocated, ← hi.used_eq]
    rfl
  · intro L hL
    have hmin := hcap L hL
    show st.used + data.size ≤ L ∨ wordMax ≤ L
    omega
  · intro c hc
    show c < (st.heap.push data).cells.size
    rw [Heap.cells_size_push]
    rcases List.mem_append.mp (hperm.mem_iff.mp hc) with h | h
    · exact Nat.lt_succ_of_lt (hi.allocated c h)
    · rw [List.mem_singleton.mp h]
      exact Nat.lt_succ_self _
  · refine hperm.nodup_iff.mpr (List.nodup_append.mpr ⟨hi.nodup, List.nodup_singleton _, ?_⟩)
    intro a ha b hb
    rw [List.mem_singleton.mp hb]
    exact fun h => hfresh (h ▸ ha)
  · intro k b hk seg hseg p hp
    by_cases hki : k = id
    · subst hki
      rw [find?_addCell, if_pos rfl, Option.some.injEq] at hk
      subst hk
      rw [heap_addCell]
      rcases List.mem_append.mp hseg with hseg | hseg
      · -- a segment the buffer held before keeps its cursor and its length
        cases hf : st.find? k with
        | none => simp [hf] at hseg
        | some b₀ =>
            rw [hf] at hseg
            rw [hlen seg (mem_cells hf (List.mem_map_of_mem hseg))]
            exact hi.cursor_le k b₀ hf seg hseg p hp
      · rw [List.mem_singleton.mp hseg] at hp
        rcases hcur with rfl | rfl
        · cases hp
        · cases hp
          exact Nat.zero_le _
    · have hk' : st.find? k = some b := by rwa [find?_addCell, if_neg hki] at hk
      rw [heap_addCell, hlen seg (mem_cells hk' (List.mem_map_of_mem hseg))]
      exact hi.cursor_le k b hk' seg hseg p hp

/-! ## Changing bytes and cursors -/

/-- A new heap that keeps every cell at its length keeps the invariant. -/
theorem Inv.of_heap {st : Store} (hi : st.Inv) {h' : Heap}
    (hsize : h'.cells.size = st.heap.cells.size) (hlen : ∀ c, h'.size c = st.heap.size c) :
    ({ st with heap := h' } : Store).Inv where
  sorted := hi.sorted
  reserved := hi.reserved
  used_eq := by
    show st.used = (st.buffers.entries.map (·.2.length h')).sum
    rw [hi.used_eq]
    exact (sum_length_congr fun c _ => hlen c).symm
  within_limit := hi.within_limit
  allocated c hc := hsize ▸ hi.allocated c hc
  nodup := hi.nodup
  cursor_le id b hf seg hseg p hp := by
    show p ≤ h'.size seg.cell
    rw [hlen]
    exact hi.cursor_le id b hf seg hseg p hp

theorem Inv.poke {st : Store} (hi : st.Inv) (loc : Nat × Nat) (v : UInt8) : (st.poke loc v).Inv :=
  hi.of_heap (Heap.cells_size_set _ _ _ _) (Heap.size_set _ _ _ _)

/-- Replacing a buffer by one over the same cells keeps the stored cells, up to order. -/
theorem cells_replace_perm {st : Store} (hs : st.buffers.Sorted) {id : BufferId} {b b' : Buffer}
    (hf : st.find? id = some b) (hb : b'.cells = b.cells) :
    ({ st with buffers := st.buffers.insert id b' } : Store).cells.Perm st.cells := by
  have hp := (Table.insert_perm hs id b').flatMap_right (·.2.cells)
  have hsplit := cells_perm_split hs id
  rw [hf] at hsplit
  refine (hp.trans ?_).trans hsplit.symm
  simp [hb]

theorem total_replace {st : Store} (hs : st.buffers.Sorted) {id : BufferId} {b b' : Buffer}
    (hf : st.find? id = some b) (hb : b'.cells = b.cells) :
    ({ st with buffers := st.buffers.insert id b' } : Store).total = st.total := by
  have hp := ((Table.insert_perm hs id b').map (·.2.length st.heap)).sum_eq
  have hlen : b'.length st.heap = b.length st.heap := by
    unfold Buffer.length
    rw [hb]
  rw [total_split hs id, hf]
  simpa [total, hlen] using hp

/-- Moving the cursor of a buffer's first, writable segment to a place within it keeps
the invariant. -/
theorem Inv.moveCursor {st : Store} (hi : st.Inv) {id : BufferId} {first : Segment}
    {rest : List Segment} (hf : st.find? id = some ⟨first :: rest⟩) {q : Nat}
    (hq : q ≤ first.length st.heap) :
    ({ st with buffers := st.buffers.insert id ⟨{ first with cursor := some q } :: rest⟩ } :
      Store).Inv := by
  have hcells : (⟨{ first with cursor := some q } :: rest⟩ : Buffer).cells =
      (⟨first :: rest⟩ : Buffer).cells := rfl
  have hperm := cells_replace_perm hi.sorted hf hcells
  refine ⟨hi.sorted.insert _ _, ?_, ?_, hi.within_limit, ?_, hperm.nodup_iff.mpr hi.nodup, ?_⟩
  · intro k hk
    have hne : k ≠ id := by
      rintro rfl
      rw [hi.reserved k hk] at hf
      cases hf
    simpa [find?, hne] using hi.reserved k hk
  · rw [total_replace hi.sorted hf hcells]
    exact hi.used_eq
  · exact fun c hc => hi.allocated c (hperm.mem_iff.mp hc)
  · intro k b hk seg hseg p hp
    by_cases hki : k = id
    · subst hki
      simp only [find?, Table.find?_insert, if_true, Option.some.injEq] at hk
      subst hk
      rcases List.mem_cons.mp hseg with rfl | hseg
      · cases hp
        exact hq
      · exact hi.cursor_le k _ hf seg (List.mem_cons_of_mem _ hseg) p hp
    · have hk' : st.find? k = some b := by simpa [find?, hki] using hk
      exact hi.cursor_le k b hk' seg hseg p hp

theorem Inv.putOutput {st : Store} (hi : st.Inv) {id : BufferId} {first : Segment}
    {rest : List Segment} {p : Nat} (hf : st.find? id = some ⟨first :: rest⟩)
    (hlt : p < first.length st.heap) (v : UInt8) : (st.putOutput id p v).Inv := by
  have hheap := hi.of_heap (Heap.cells_size_set st.heap first.cell p v) (Heap.size_set _ _ _ _)
  have hlen : first.length (st.heap.set first.cell p v) = first.length st.heap :=
    Heap.size_set _ _ _ _ _
  have hmove := hheap.moveCursor (q := p + 1) hf (by rw [hlen]; exact hlt)
  unfold Store.putOutput
  rw [hf]
  exact hmove

/-! ## Clearing -/

theorem Inv.clear {st : Store} (hi : st.Inv) {id : BufferId} {b : Buffer}
    (hf : st.find? id = some b) :
    ({ st with buffers := st.buffers.erase id, used := st.used - b.length st.heap } : Store).Inv := by
  have hsplit := cells_perm_split hi.sorted id
  rw [hf] at hsplit
  have htotal := total_split hi.sorted id
  rw [hf] at htotal
  refine ⟨hi.sorted.erase _, ?_, ?_, ?_, ?_, ?_, ?_⟩
  · intro k hk
    have hk' : st.find? k = none := hi.reserved k hk
    by_cases hki : k = id
    · simp [find?, hki]
    · simpa [find?, hki] using hk'
  · show st.used - b.length st.heap = ((st.buffers.erase id).entries.map (·.2.length st.heap)).sum
    rw [hi.used_eq]
    simp only [Option.getD_some] at htotal
    omega
  · intro L hL
    show st.used - b.length st.heap ≤ L ∨ wordMax ≤ L
    rcases hi.within_limit L hL with h | h
    · exact .inl (Nat.le_trans (Nat.sub_le _ _) h)
    · exact .inr h
  · exact fun c hc => hi.allocated c (hsplit.mem_iff.mpr (List.mem_append_right _ hc))
  · exact (hsplit.nodup_iff.mp hi.nodup).of_append_right
  · intro k b₀ hk seg hseg p hp
    have hki : k ≠ id := by
      rintro rfl
      simp [find?] at hk
    have hk' : st.find? k = some b₀ := by simpa [find?, hki] using hk
    exact hi.cursor_le k b₀ hk' seg hseg p hp

theorem inv_clearAll (st : Store) : st.clearAll.Inv where
  sorted := List.Pairwise.nil
  reserved _ _ := rfl
  used_eq := rfl
  within_limit L _ := .inl (Nat.zero_le L)
  allocated _ hc := nomatch hc
  nodup := List.nodup_nil
  cursor_le _ _ hf := nomatch hf

/-! ## Every reachable store -/

theorem inv_withLimit (limit : Option Nat) : (withLimit limit).Inv where
  sorted := List.Pairwise.nil
  reserved _ _ := rfl
  used_eq := rfl
  within_limit L _ := .inl (Nat.zero_le L)
  allocated _ hc := nomatch hc
  nodup := List.nodup_nil
  cursor_le _ _ hf := nomatch hf

/-- Every operation keeps the invariant. -/
theorem Inv.step {st st' : Store} (hi : st.Inv) (h : Step st st') : st'.Inv := by
  cases h with
  | append a id n h =>
      obtain ⟨hc, data, cursor, hsize, hcur, rfl⟩ := append_ok h
      obtain ⟨hres, hcap⟩ := checkAppend_ok hc
      exact hi.addCell hres (hsize ▸ checkCapacity_ok hcap) hcur
  | create a id len h =>
      obtain ⟨hc, rfl⟩ := createWritable_ok h
      obtain ⟨hres, -, hcap, -⟩ := checkCreate_ok hc
      exact hi.addCell hres (by simpa using checkCapacity_ok hcap) (.inr rfl)
  | setByte id offset v h =>
      obtain ⟨b, c, o, -, -, rfl⟩ := setByte_ok h
      exact hi.poke _ _
  | writeOutput id v b h =>
      rcases writeOutput_ok h with rfl | ⟨first, rest, p, hf, -, hlt, rfl⟩
      · exact hi
      · exact hi.putOutput hf hlt v
  | clear id =>
      unfold Store.clear
      split
      · exact hi.clear ‹_›
      · exact hi
  | clearAll => exact inv_clearAll _

theorem Steps.inv {st st' : Store} (h : Steps st st') (hi : st.Inv) : st'.Inv := by
  induction h with
  | refl => exact hi
  | tail _ hstep ih => exact ih.step hstep

theorem Reachable.inv {limit : Option Nat} {st : Store} (h : Reachable limit st) : st.Inv :=
  Steps.inv h (inv_withLimit limit)

end Store

end Coprocessor
