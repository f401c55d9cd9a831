import Mathlib
import Coprocessor.Proofs.Session.Nesting

/-!
# Calls run a snapshot

A call of buffer `x` reads `x` through a reader made from the cells `x` holds when the call
starts, and a conditional call that passes calls in the same way (`Exec.CallsSnapshot`).
The reader keeps that list of cells through every command it runs, deeper calls included,
and the cells keep their lengths, so the bytes a call runs are fixed in number whatever
happens to `x` meanwhile (`Exec.keepsSnapshot_of_moves`). The bytes themselves are read
from the heap as it stands at each read (`Exec.readByte_snapshot`), so a byte set in place
is seen by the next read.

No cell is shared. Each cell a buffer holds is held by no other buffer
(`Store.Inv.holds_unique`), and a new segment always takes a cell past the end of the heap.
A cell that `x` holds when a snapshot is taken is therefore held later by `x` or by no
buffer at all (`Store.Steps.holder_eq`), and the contents of the snapshot change only by a
byte set or an output written through `x` itself (`Store.Step.snapshot_changed`).
-/

namespace Coprocessor

namespace Heap

theorem bytes_set_ne (h : Heap) {cell c : Nat} (offset : Nat) (value : UInt8) (hne : cell ≠ c) :
    (h.set cell offset value).bytes c = h.bytes c := by
  simp [bytes, set, Array.getElem?_modify, hne]

theorem bytes_set_self (h : Heap) (cell offset : Nat) (value : UInt8) :
    (h.set cell offset value).bytes cell = (h.bytes cell).set! offset value := by
  unfold bytes set
  rw [Array.getElem?_modify, if_pos rfl]
  cases h.cells[cell]? <;> simp

theorem bytes_push_of_lt (h : Heap) (data : Array UInt8) {c : Nat} (hc : c < h.cells.size) :
    (h.push data).bytes c = h.bytes c := by
  have hne : c ≠ h.cells.size := Nat.ne_of_lt hc
  simp [push, bytes, Array.getElem?_push, hne]

/-- Writing a cell outside a run of cells leaves the run's bytes alone. -/
theorem flat_set_of_not_mem (h : Heap) {cells : List Nat} {cell : Nat} (offset : Nat)
    (value : UInt8) (hc : cell ∉ cells) : (h.set cell offset value).flat cells = h.flat cells := by
  unfold flat
  refine List.flatMap_congr fun c hmem => ?_
  rw [bytes_set_ne h offset value (by rintro rfl; exact hc hmem)]

/-- A new cell leaves the bytes of a run of existing cells alone. -/
theorem flat_push (h : Heap) (data : Array UInt8) {cells : List Nat}
    (hc : ∀ c ∈ cells, c < h.cells.size) : (h.push data).flat cells = h.flat cells := by
  unfold flat
  refine List.flatMap_congr fun c hmem => ?_
  rw [bytes_push_of_lt h data (hc c hmem)]

/-- Writing the cell a position of a run falls on writes the run's bytes at that position,
when the run names each cell once. -/
theorem flat_set_of_locate (h : Heap) {cells : List Nat} {offset c o : Nat} (value : UInt8)
    (hnd : cells.Nodup) (hl : h.locate cells offset = some (c, o)) :
    (h.set c o value).flat cells = (h.flat cells).set offset value := by
  induction cells generalizing offset with
  | nil => cases hl
  | cons c' rest ih =>
    obtain ⟨hc', hrest⟩ := List.nodup_cons.mp hnd
    rw [flat_cons, flat_cons]
    by_cases hlt : offset < h.size c'
    · -- the position falls in the first cell, and that is the cell written
      simp only [locate, hlt, if_true, Option.some.injEq, Prod.mk.injEq] at hl
      obtain ⟨hc, ho⟩ := hl
      subst hc ho
      have hlen : offset < (h.bytes c').toList.length := by simpa [size] using hlt
      rw [flat_set_of_not_mem h offset value hc', bytes_set_self, Array.set!_eq_setIfInBounds,
        Array.toList_setIfInBounds, List.set_append_left _ _ hlen]
    · simp only [locate, hlt, if_false] at hl
      have hne : c ≠ c' := fun e => hc' (e ▸ (locate_mem hl).1)
      have hlen : (h.bytes c').toList.length ≤ offset := by
        simp only [size] at hlt
        simpa using Nat.le_of_not_lt hlt
      rw [bytes_set_ne h o value hne, ih hrest hl, List.set_append_right _ _ hlen]
      simp [size]

end Heap

namespace Store

/-- Buffer `id` holds heap cell `c` in one of its segments. -/
def Holds (st : Store) (id : BufferId) (c : Nat) : Prop :=
  ∃ b, st.find? id = some b ∧ c ∈ b.cells

theorem Inv.allocated_of_holds {st : Store} (hi : st.Inv) {id : BufferId} {c : Nat}
    (h : st.Holds id c) : c < st.heap.cells.size := by
  obtain ⟨b, hf, hc⟩ := h
  exact hi.allocated c (mem_cells hf hc)

/-- The cells of one buffer and those of all the others, each named once. -/
theorem Inv.nodup_split {st : Store} (hi : st.Inv) (id : BufferId) :
    (((st.find? id).getD {}).cells ++ (st.buffers.erase id).entries.flatMap (·.2.cells)).Nodup :=
  (cells_perm_split hi.sorted id).nodup_iff.mp hi.nodup

theorem Inv.cells_nodup {st : Store} (hi : st.Inv) {id : BufferId} {b : Buffer}
    (hf : st.find? id = some b) : b.cells.Nodup := by
  have h := hi.nodup_split id
  rw [hf] at h
  exact (List.nodup_append.mp h).1

/-- Two buffers never hold one cell. -/
theorem Inv.holds_unique {st : Store} (hi : st.Inv) {x y : BufferId} {c : Nat}
    (hx : st.Holds x c) (hy : st.Holds y c) : y = x := by
  obtain ⟨bx, hfx, hcx⟩ := hx
  obtain ⟨b, hfy, hcy⟩ := hy
  by_contra hne
  -- once `x` is taken out, `y` is still stored, so the cell is on both sides of the split
  have hsplit := hi.nodup_split x
  rw [hfx] at hsplit
  have hfe : (st.buffers.erase x).find? y = some b := by
    rw [Table.find?_erase, if_neg hne]
    exact hfy
  have hrest : c ∈ (st.buffers.erase x).entries.flatMap (·.2.cells) :=
    List.mem_flatMap.mpr ⟨(y, b), mem_entries_of_find? hfe, hcy⟩
  exact (List.nodup_append.mp hsplit).2.2 c hcx c hrest rfl

/-! ## Which buffer holds a cell -/

theorem Holds.of_addCell {st : Store} {id k : BufferId} {data : Array UInt8}
    {cursor : Option Nat} {c : Nat} (h : (st.addCell id data cursor).Holds k c) :
    st.Holds k c ∨ c = st.heap.cells.size := by
  obtain ⟨b, hf, hc⟩ := h
  rw [find?_addCell] at hf
  split at hf
  · -- the buffer grown: its old cells and the new one
    rename_i hk
    subst hk
    cases hf
    rw [Buffer.cells_push, List.mem_append, List.mem_singleton] at hc
    rcases hc with hc | rfl
    · cases hfo : st.find? k with
      | none =>
        rw [hfo] at hc
        cases hc
      | some b₀ =>
        rw [hfo] at hc
        exact .inl ⟨b₀, hfo, hc⟩
    · exact .inr rfl
  · exact .inl ⟨b, hf, hc⟩

theorem Holds.of_putOutput {st : Store} {id k : BufferId} {p : Nat} {v : UInt8} {c : Nat}
    (h : (st.putOutput id p v).Holds k c) : st.Holds k c := by
  unfold putOutput at h
  split at h
  · rename_i first rest hf
    obtain ⟨b, hb, hc⟩ := h
    by_cases hk : k = id
    · -- only the cursor of the first segment moved
      subst hk
      simp only [find?, Table.find?_insert, if_true, Option.some.injEq] at hb
      subst hb
      exact ⟨_, hf, by simpa [Buffer.cells] using hc⟩
    · simp only [find?, Table.find?_insert, hk, if_false] at hb
      exact ⟨b, hb, hc⟩
  · exact h

theorem Holds.of_clear {st : Store} {id k : BufferId} {c : Nat} (h : (st.clear id).2.Holds k c) :
    st.Holds k c := by
  unfold clear at h
  split at h
  · obtain ⟨b, hb, hc⟩ := h
    by_cases hk : k = id
    · simp [find?, hk] at hb
    · simp only [find?, Table.find?_erase, hk, if_false] at hb
      exact ⟨b, hb, hc⟩
  · exact h

/-- After a step a buffer holds only cells it held before and fresh ones. -/
theorem Step.holds {st st' : Store} (h : Step st st') {id : BufferId} {c : Nat}
    (hc : st'.Holds id c) : st.Holds id c ∨ st.heap.cells.size ≤ c := by
  cases h with
  | append _ k n h =>
    obtain ⟨-, data, cursor, -, -, rfl⟩ := append_ok h
    exact (Holds.of_addCell hc).imp_right fun e => Nat.le_of_eq e.symm
  | create _ k len h =>
    obtain ⟨-, rfl⟩ := createWritable_ok h
    exact (Holds.of_addCell hc).imp_right fun e => Nat.le_of_eq e.symm
  | setByte k offset v h =>
    obtain ⟨b, c', o, -, -, rfl⟩ := setByte_ok h
    exact .inl hc
  | writeOutput k v b h =>
    rcases writeOutput_ok h with rfl | ⟨first, rest, p, -, -, -, rfl⟩
    · exact .inl hc
    · exact .inl (Holds.of_putOutput hc)
  | clear k => exact .inl (Holds.of_clear hc)
  | clearAll =>
    obtain ⟨b, hb, -⟩ := hc
    have hnone : st.clearAll.find? id = none := rfl
    rw [hnone] at hb
    cases hb

theorem Steps.holds {st st' : Store} (h : Steps st st') {id : BufferId} {c : Nat}
    (hc : st'.Holds id c) : st.Holds id c ∨ st.heap.cells.size ≤ c := by
  induction h with
  | refl => exact .inl hc
  | tail hst hstep ih =>
    rcases hstep.holds hc with h₁ | h₁
    · exact ih h₁
    · exact .inr (Nat.le_trans (Steps.heap_extends hst).1 h₁)

/-- Cells never change hands: a cell held by `x` is held later by `x` or by no buffer. -/
theorem Steps.holder_eq {st st' : Store} (hi : st.Inv) (h : Steps st st') {x y : BufferId}
    {c : Nat} (hx : st.Holds x c) (hy : st'.Holds y c) : y = x := by
  rcases h.holds hy with hy₀ | hfresh
  · exact hi.holds_unique hx hy₀
  · exact absurd (hi.allocated_of_holds hx) (Nat.not_lt.mpr hfresh)

/-! ## Writing in place -/

/-- Setting a byte of a buffer writes one cell the buffer holds. -/
theorem setByte_heap {st st' : Store} {id : BufferId} {offset : Nat} {v : UInt8}
    (h : st.setByte id offset v = .ok st') :
    ∃ c o, st.Holds id c ∧ st'.heap = st.heap.set c o v := by
  obtain ⟨b, c, o, hf, hl, rfl⟩ := setByte_ok h
  exact ⟨c, o, ⟨b, hf, (Heap.locate_mem hl).1⟩, rfl⟩

/-- Writing output into a buffer writes one cell the buffer holds, or nothing. -/
theorem writeOutput_heap {st st' : Store} {id : BufferId} {v : UInt8} {w : Bool}
    (h : st.writeOutput id v = .ok (w, st')) :
    st'.heap = st.heap ∨ ∃ c o, st.Holds id c ∧ st'.heap = st.heap.set c o v := by
  rcases writeOutput_ok h with rfl | ⟨first, rest, p, hf, -, -, rfl⟩
  · exact .inl rfl
  · refine .inr ⟨first.cell, p, ⟨_, hf, by simp [Buffer.cells]⟩, ?_⟩
    unfold putOutput
    rw [hf]

/-- Setting a byte of the buffer a snapshot was taken of, while the buffer still holds the
snapshot's cells, sets the snapshot's byte at that offset. -/
theorem Inv.setByte_flat {st st' : Store} (hi : st.Inv) {x : BufferId} {b : Buffer}
    (hf : st.find? x = some b) {offset : Nat} {v : UInt8} (h : st.setByte x offset v = .ok st') :
    st'.heap.flat b.cells = (st.heap.flat b.cells).set offset v := by
  obtain ⟨b', c, o, hf', hl, rfl⟩ := setByte_ok h
  rw [hf] at hf'
  cases hf'
  exact Heap.flat_set_of_locate _ v (hi.cells_nodup hf) hl

/-- A step changes the contents of a snapshot of `x` only by setting a byte of `x` or by
writing output into `x`: appending and creating take fresh cells, clearing leaves the heap
alone, and a write through another buffer writes a cell that `x` never held. -/
theorem Step.snapshot_changed {st st₁ st₂ : Store} (hi : st.Inv) {x : BufferId} {b : Buffer}
    (hf : st.find? x = some b) (hst : Steps st st₁) (h : Step st₁ st₂)
    (hne : st₂.heap.flat b.cells ≠ st₁.heap.flat b.cells) :
    (∃ offset v, st₁.setByte x offset v = .ok st₂) ∨ ∃ v w, st₁.writeOutput x v = .ok (w, st₂) := by
  -- the snapshot's cells exist in every later heap
  have halloc : ∀ c ∈ b.cells, c < st₁.heap.cells.size := fun c hc =>
    Nat.lt_of_lt_of_le (hi.allocated_of_holds ⟨b, hf, hc⟩) (Steps.heap_extends hst).1
  have hother : ∀ y c o v, st₁.Holds y c → y ≠ x →
      (st₁.heap.set c o v).flat b.cells = st₁.heap.flat b.cells := by
    intro y c o v hy hyx
    refine Heap.flat_set_of_not_mem _ _ _ fun hc => hyx ?_
    exact hst.holder_eq hi ⟨b, hf, hc⟩ hy
  cases h with
  | append _ y n h =>
    obtain ⟨-, data, cursor, -, -, rfl⟩ := append_ok h
    exact (hne (Heap.flat_push _ _ halloc)).elim
  | create _ y len h =>
    obtain ⟨-, rfl⟩ := createWritable_ok h
    exact (hne (Heap.flat_push _ _ halloc)).elim
  | setByte y offset v h =>
    by_cases hyx : y = x
    · subst hyx
      exact .inl ⟨offset, v, h⟩
    · obtain ⟨c, o, hy, hheap⟩ := setByte_heap h
      rw [hheap] at hne
      exact (hne (hother y c o v hy hyx)).elim
  | writeOutput y v w h =>
    by_cases hyx : y = x
    · subst hyx
      exact .inr ⟨v, w, h⟩
    · rcases writeOutput_heap h with hheap | ⟨c, o, hy, hheap⟩
      · rw [hheap] at hne
        exact (hne rfl).elim
      · rw [hheap] at hne
        exact (hne (hother y c o v hy hyx)).elim
  | clear y =>
    rw [heap_clear] at hne
    exact (hne rfl).elim
  | clearAll => exact (hne rfl).elim

end Store

namespace Session

/-- The store is the same. -/
def SameStore (s s' : Session) : Prop := s'.store = s.store

instance : IsPreorder Session SameStore where
  refl _ := rfl
  trans _ _ _ h₁ h₂ := h₂.trans h₁

/-- A session moved as a command may still reads the snapshot it read, which holds as many
bytes as it did while its cells exist. -/
theorem Evolves.snapshot {s s' : Session} (hev : Evolves s s') {r : Reader}
    (hin : s.frame.input = .buffer r) :
    ∃ r', s'.frame.input = .buffer r' ∧ r'.cells = r.cells ∧
      ((∀ c ∈ r.cells, c < s.store.heap.cells.size) →
        r'.length s'.store.heap = r.length s.store.heap) := by
  have hsame := hev.frame.input
  rw [hin] at hsame
  cases hout : s'.frame.input with
  | transport =>
    rw [hout] at hsame
    exact (hsame : False).elim
  | buffer r' =>
    rw [hout] at hsame
    have hcells : r'.cells = r.cells := hsame
    refine ⟨r', rfl, hcells, fun halloc => ?_⟩
    -- the store only moved by its operations, which keep every existing cell's length
    have hext := Store.Steps.heap_extends hev.store
    unfold Reader.length
    rw [hcells]
    exact Heap.totalSize_congr fun c hc => hext.2 c (halloc c hc)

end Session

namespace Exec

open Session

variable {α : Type}

/-! ## Reading leaves the store alone -/

theorem readByte_sameStore : Moves SameStore readByte := by
  intro s
  cases hin : s.frame.input with
  | transport =>
    rw [exec_readByte_transport hin]
    rfl
  | buffer r =>
    rw [exec_readByte_buffer hin]
    rfl

theorem readWord_sameStore : Moves SameStore readWord :=
  readByte_sameStore.bind fun _ => readByte_sameStore.bind fun _ => Moves.of_pure _

theorem readOffset_sameStore (wide : Bool) : Moves SameStore (readOffset wide) := by
  unfold readOffset readTriple
  split
  · exact readByte_sameStore.bind fun _ => readByte_sameStore.bind fun _ =>
      readByte_sameStore.bind fun _ => Moves.of_pure _
  · exact readWord_sameStore.bind fun _ => Moves.of_pure _

/-! ## Calls -/

/-- How a call command runs from `s`: either the frames it would hand to a nested run play no
part, or it is the nested run of a reader made from buffer `id` as the store held it in
`s`, from a state with that same store. -/
def CallsSnapshot (id : BufferId) (prog : (Frame → Exec Unit) → Exec Unit) : Prop :=
  ∀ run s, (∀ run', (prog run').exec s = (prog run).exec s) ∨
    ∃ s₁ b, s₁.store = s.store ∧ s.store.find? id = some b ∧
      (prog run).exec s =
        (run (Frame.nested id (Reader.ofBuffer b) s₁.frame.output (s₁.frame.depth + 1))).exec s₁

variable {id : BufferId}

theorem CallsSnapshot.of_const {prog : (Frame → Exec Unit) → Exec Unit}
    (h : ∀ run run', prog run = prog run') : CallsSnapshot id prog :=
  fun run _ => .inl fun run' => by rw [h run' run]

theorem callsSnapshot_pure (a : Unit) : CallsSnapshot id (fun _ => pure a) :=
  CallsSnapshot.of_const fun _ _ => rfl

theorem CallsSnapshot.bind {x : Exec α} {f : α → (Frame → Exec Unit) → Exec Unit}
    (hx : Moves SameStore x) (hf : ∀ a, CallsSnapshot id (f a)) :
    CallsSnapshot id (fun run => x >>= fun a => f a run) := by
  intro run s
  rcases hr : x.exec s with ⟨r, s'⟩
  have hs' : s'.store = s.store := by
    have h := hx s
    rw [hr] at h
    exact h
  cases r with
  | error e =>
    exact .inl fun run' => by rw [exec_bind_of_error hr, exec_bind_of_error hr]
  | ok a =>
    -- the reads before the call leave the store as it was
    simp only [exec_bind_of_ok hr]
    rcases hf a run s' with h | ⟨s₁, b, h₁, hb, h⟩
    · exact .inl h
    · exact .inr ⟨s₁, b, h₁.trans hs', hs' ▸ hb, h⟩

theorem CallsSnapshot.ite {c : Prop} [Decidable c] {p q : (Frame → Exec Unit) → Exec Unit}
    (hp : CallsSnapshot id p) (hq : CallsSnapshot id q) :
    CallsSnapshot id (fun run => if c then p run else q run) := by
  by_cases h : c
  · simp only [h, if_true]
    exact hp
  · simp only [h, if_false]
    exact hq

theorem callsSnapshot_bufferCall (id : BufferId) : CallsSnapshot id (bufferCall · id) := by
  intro run s
  rcases bufferCall_calls run id s with h | ⟨b, hf, -, h⟩
  · exact .inl h
  · exact .inr ⟨s, b, rfl, hf, h⟩

theorem callsSnapshot_bufferConditional (id : BufferId) :
    CallsSnapshot id (bufferConditional · id) := by
  unfold bufferConditional
  repeat' first
    | with_reducible exact callsSnapshot_bufferCall id
    | with_reducible exact callsSnapshot_pure ()
    | with_reducible refine CallsSnapshot.ite ?_ ?_
    | with_reducible refine CallsSnapshot.bind ?_ fun _ => ?_
    | with_reducible exact Moves.within _ readByte_sameStore
    | with_reducible exact Moves.within _ readWord_sameStore
    | with_reducible exact Moves.within _ (readOffset_sameStore _)
    | with_reducible exact Moves.within _ (Moves.of_ofExcept _)
    | with_reducible exact Moves.of_pure _
    | with_reducible exact Moves.of_store
    | dsimp only
    | split

/-- A call of the frame's own buffer goes back to the start of the snapshot it reads. -/
theorem bufferCall_self_snapshot (run : Frame → Exec Unit) {s : Session} {r : Reader}
    (hn : s.frame.id ≠ BufferId.none) (hin : s.frame.input = .buffer r) :
    (bufferCall run s.frame.id).exec s =
      (.ok (), { s with frame := { s.frame with input := .buffer { r with position := 0 } } }) := by
  rw [bufferCall_self run hn]
  unfold Frame.rewind
  rw [hin]
  rfl

/-! ## Reading a snapshot -/

/-- A read gives the byte at the reader's position of the snapshot's bytes as the heap holds
them now, and moves on by one; past the end it stops and changes nothing. -/
theorem readByte_snapshot {s : Session} {r : Reader} (hin : s.frame.input = .buffer r) :
    readByte.exec s = match (s.store.heap.flat r.cells)[r.position]? with
      | some v =>
        (.ok v, { s with frame := { s.frame with input := .buffer { r with position := r.position + 1 } } })
      | none => (.error (.fault ⟨.read, .endOfStream⟩), s) := by
  rw [exec_readByte_buffer hin, Reader.read_eq]
  cases (s.store.heap.flat r.cells)[r.position]? with
  | some v => rfl
  | none =>
    -- at the end the reader stays where it is, so the frame is as it was
    show (_, { s with frame := { s.frame with input := .buffer r } }) = (_, s)
    rw [← hin]

/-- Every run of `x` from a frame reading a snapshot ends reading that same snapshot, which
holds as many bytes as it did while its cells exist. -/
def KeepsSnapshot (x : Exec α) : Prop :=
  ∀ s r, s.frame.input = .buffer r → ∃ r', (x.exec s).2.frame.input = .buffer r' ∧
    r'.cells = r.cells ∧
    ((∀ c ∈ r.cells, c < s.store.heap.cells.size) →
      r'.length (x.exec s).2.store.heap = r.length s.store.heap)

theorem keepsSnapshot_of_moves {x : Exec α} (hx : Moves Evolves x) : KeepsSnapshot x :=
  fun s _ hin => (hx s).snapshot hin

end Exec

/-- Calls run snapshots. A call, or a conditional call that passes, of buffer `x` runs a
reader made from `x` as the store holds it when the command starts. Every command the
nested frame runs, deeper calls included, and so its whole decode loop, leaves it reading
the same cells, of the same total length; a call of its own buffer goes back to the start
of those cells. Each read gives the byte the heap holds now at the reader's position, and
setting a byte of the buffer while it holds the snapshot's cells sets that byte of the
snapshot. No cell is shared: the stores the operations make name each cell once and give it
to one buffer, a snapshot's cells are held later by its own buffer or by none, and the
snapshot's bytes change only by a byte set or an output written through its own buffer. -/
theorem call_snapshot :
    (∀ id, Exec.CallsSnapshot id (Exec.bufferCall · id) ∧
      Exec.CallsSnapshot id (Exec.bufferConditional · id)) ∧
    (∀ n, Exec.KeepsSnapshot (Exec.runFrame n) ∧
      ∀ code, Exec.KeepsSnapshot
        (Exec.command (fun nested => Exec.enter nested (Exec.runFrame n)) code)) ∧
    (∀ (run : Frame → Exec Unit) (s : Session) (r : Reader), s.frame.id ≠ BufferId.none →
      s.frame.input = .buffer r →
      (Exec.bufferCall run s.frame.id).exec s =
        (.ok (), { s with frame := { s.frame with input := .buffer { r with position := 0 } } })) ∧
    (∀ (s : Session) (r : Reader), s.frame.input = .buffer r →
      Exec.readByte.exec s = match (s.store.heap.flat r.cells)[r.position]? with
        | some v => (.ok v,
            { s with frame := { s.frame with input := .buffer { r with position := r.position + 1 } } })
        | none => (.error (.fault ⟨.read, .endOfStream⟩), s)) ∧
    (∀ (st st' : Store) x b offset v, st.Inv → st.find? x = some b →
      st.setByte x offset v = .ok st' →
      st'.heap.flat b.cells = (st.heap.flat b.cells).set offset v) ∧
    (∀ limit (st : Store), Store.Reachable limit st →
      st.cells.Nodup ∧ ∀ x y c, st.Holds x c → st.Holds y c → y = x) ∧
    (∀ (st : Store) x b, st.Inv → st.find? x = some b → ∀ st', Store.Steps st st' →
      ∀ y c, c ∈ b.cells → st'.Holds y c → y = x) ∧
    (∀ (st : Store) x b, st.Inv → st.find? x = some b → ∀ st₁ st₂, Store.Steps st st₁ →
      Store.Step st₁ st₂ → st₂.heap.flat b.cells ≠ st₁.heap.flat b.cells →
      (∃ offset v, st₁.setByte x offset v = .ok st₂) ∨
        ∃ v w, st₁.writeOutput x v = .ok (w, st₂)) := by
  refine ⟨fun id => ⟨Exec.callsSnapshot_bufferCall id, Exec.callsSnapshot_bufferConditional id⟩,
    fun n => ⟨Exec.keepsSnapshot_of_moves (Exec.runFrame_evolves n), fun code => ?_⟩,
    fun run _ _ hn hin => Exec.bufferCall_self_snapshot run hn hin,
    fun _ _ hin => Exec.readByte_snapshot hin,
    fun _ _ _ _ _ _ hi hf h => hi.setByte_flat hf h,
    fun _ _ h => ⟨h.inv.nodup, fun _ _ _ hx hy => h.inv.holds_unique hx hy⟩,
    fun _ _ b hi hf _ hst _ _ hc hy => hst.holder_eq hi ⟨b, hf, hc⟩ hy,
    fun _ _ _ hi hf _ _ hst h hne => Store.Step.snapshot_changed hi hf hst h hne⟩
  -- the nested runs a command makes move the session as a command may
  have hcall : ∀ id r o d, Exec.Moves Session.Evolves
      (Exec.enter (Frame.nested id r o d) (Exec.runFrame n)) :=
    fun _ _ _ _ => Exec.enter_evolves (Frame.isBuffer_nested _ _ _ _) (Exec.runFrame_evolves n)
  exact Exec.keepsSnapshot_of_moves (Exec.command_evolves hcall code)

end Coprocessor
