import Mathlib
import Coprocessor.Proofs.Store.Addressing

/-!
# Readers stream the contents

A segment cursor keeps its place in a snapshot of segments as a segment index and an offset,
and moves past exhausted and empty segments only when it next looks. It stays *placed*
(`SegmentCursor.Placed`): inside a segment of the snapshot, no further than that segment's
end, or exactly at the end of the snapshot. Looking, reading and rewinding keep it placed,
whatever bytes the heap holds in between, as long as the snapshot's cells keep their
lengths (`SegmentCursor.Walks.placed`).

A placed cursor reads as the logical reader at its position (`SegmentCursor.toReader`):
looking leaves the position where it is; reading gives the byte of the contents at the
position and moves on by one, or gives `none` at the end and stays; rewinding goes back to
position `0`. So reading from the start gives the contents byte after byte, and then `none`
(`SegmentCursor.reads_eq`). The walk stops only inside the snapshot, so the lookup that
follows it never falls past the segment list.
-/

namespace Coprocessor

namespace Heap

theorem totalSize_append (h : Heap) (l₁ l₂ : List Nat) :
    h.totalSize (l₁ ++ l₂) = h.totalSize l₁ + h.totalSize l₂ := by
  simp [totalSize_eq_sum]

/-- The prefix of a run that takes one more cell is longer by that cell's length. -/
theorem totalSize_take_succ (h : Heap) {cells : List Nat} {i : Nat} (hi : i < cells.length) :
    h.totalSize (cells.take (i + 1)) = h.totalSize (cells.take i) + h.size cells[i] := by
  rw [List.take_add_one, List.getElem?_eq_getElem hi, totalSize_append]
  simp [totalSize]

theorem totalSize_take_le (h : Heap) (cells : List Nat) (i : Nat) :
    h.totalSize (cells.take i) ≤ h.totalSize cells := by
  conv_rhs => rw [← List.take_append_drop i cells, totalSize_append]
  exact Nat.le_add_right _ _

/-- An offset inside a cell of a run is the run's position past the cells before it. -/
theorem getElem?_flat_take (h : Heap) {cells : List Nat} {i o : Nat} (hi : i < cells.length)
    (ho : o < h.size cells[i]) :
    (h.flat cells)[h.totalSize (cells.take i) + o]? = h.get? cells[i] o := by
  have hsplit : h.flat cells = h.flat (cells.take i) ++ ((h.bytes cells[i]).toList ++
      h.flat (cells.drop (i + 1))) := by
    have hcells := List.take_append_drop i cells
    rw [List.drop_eq_getElem_cons hi] at hcells
    conv_lhs => rw [← hcells]
    simp only [flat, List.flatMap_append, List.flatMap_cons]
  rw [hsplit, totalSize_eq_length_flat, List.getElem?_append_right (Nat.le_add_right _ _),
    Nat.add_sub_cancel_left, List.getElem?_append_left (by simpa [size] using ho)]
  simp [get?]

end Heap

namespace SegmentCursor

/-- The cursor stands inside a segment of its snapshot, no further than that segment's end,
or at the very end of the snapshot. -/
inductive Placed (h : Heap) : SegmentCursor → Prop
  | inside {cells : List Nat} {i o : Nat} (hi : i < cells.length) (ho : o ≤ h.size cells[i]) :
      Placed h ⟨cells, i, o⟩
  | atEnd {cells : List Nat} : Placed h ⟨cells, cells.length, 0⟩

variable {h : Heap} {c : SegmentCursor}

/-- Only the lengths of the snapshot's cells matter to where a cursor stands. -/
theorem Placed.congr {h' : Heap} (hp : c.Placed h) (hs : ∀ x ∈ c.cells, h'.size x = h.size x) :
    c.Placed h' := by
  cases hp with
  | inside hi ho => exact .inside hi (by rw [hs _ (List.getElem_mem hi)]; exact ho)
  | atEnd => exact .atEnd

theorem placed_rewind (c : SegmentCursor) : c.rewind.Placed h := by
  rcases c with ⟨cells, i, o⟩
  cases cells with
  | nil => exact .atEnd
  | cons x rest => exact .inside (by simp) (Nat.zero_le _)

@[simp] theorem position_rewind (c : SegmentCursor) : c.rewind.position h = 0 := by
  simp [rewind, position, Heap.totalSize]

/-- Passing an exhausted segment keeps the cursor placed at the same position. -/
theorem Placed.next (hp : c.Placed h) (hi : c.segment < c.cells.length)
    (hend : ¬c.offset < h.size c.cells[c.segment]) :
    ({ c with segment := c.segment + 1, offset := 0 } : SegmentCursor).Placed h ∧
      ({ c with segment := c.segment + 1, offset := 0 } : SegmentCursor).position h =
        c.position h := by
  cases hp with
  | atEnd => exact absurd hi (Nat.lt_irrefl _)
  | @inside cells i o hi' ho =>
    refine ⟨?_, ?_⟩
    · by_cases hlast : i + 1 < cells.length
      · exact .inside hlast (Nat.zero_le _)
      · have hlen : i + 1 = cells.length := by omega
        dsimp only
        rw [hlen]
        exact .atEnd
    · have hnext := Heap.totalSize_take_succ h hi'
      dsimp only [position] at hend ⊢
      omega

/-- Looking ahead stops inside a segment with a byte left, at the same position, or walks to
the end of the snapshot, which the position had then reached. -/
theorem advance_cases (hp : c.Placed h) :
    (∃ c', c.advance h = (true, c') ∧ c'.cells = c.cells ∧ c'.position h = c.position h ∧
        ∃ hi : c'.segment < c'.cells.length, c'.offset < h.size c'.cells[c'.segment]) ∨
      (c.advance h = (false, ⟨c.cells, c.cells.length, 0⟩) ∧
        c.position h = h.totalSize c.cells) := by
  fun_induction advance h c with
  | case1 c hi hlt =>
    exact .inl ⟨c, rfl, rfl, rfl, hi, hlt⟩
  | case2 c hi hend ih =>
    -- the segment is exhausted: the walk goes on from the next one, at the same position
    obtain ⟨hp', hpos⟩ := hp.next hi hend
    rcases ih hp' with ⟨c', hadv, hcells, hpos', hin⟩ | ⟨hadv, hpos'⟩
    · exact .inl ⟨c', hadv, hcells, hpos'.trans hpos, hin⟩
    · exact .inr ⟨hadv, hpos.symm.trans hpos'⟩
  | case3 c hi =>
    -- past the last segment a placed cursor is at the end
    cases hp with
    | inside hi' _ => exact absurd hi' hi
    | atEnd => exact .inr ⟨rfl, by simp [position]⟩

/-- The walk stops only inside the snapshot. -/
theorem advance_inside (hp : c.Placed h) (hadv : (c.advance h).1 = true) :
    (c.advance h).2.segment < c.cells.length := by
  rcases advance_cases hp with ⟨c', heq, hcells, -, hi, -⟩ | ⟨heq, -⟩
  · rw [heq, ← hcells]
    exact hi
  · rw [heq] at hadv
    cases hadv

/-- Looking tells whether the position lies before the end, and keeps the cursor placed at
its position. -/
theorem available_eq (hp : c.Placed h) :
    ((c.available h).1 = true ↔ c.position h < h.totalSize c.cells) ∧
      (c.available h).2.cells = c.cells ∧ (c.available h).2.Placed h ∧
      (c.available h).2.position h = c.position h := by
  unfold available
  rcases advance_cases hp with ⟨c', heq, hcells, hpos, hi, hlt⟩ | ⟨heq, hpos⟩
  · rw [heq]
    have hnext := Heap.totalSize_take_succ h hi
    have hle := Heap.totalSize_take_le h c'.cells (c'.segment + 1)
    refine ⟨⟨fun _ => ?_, fun _ => rfl⟩, hcells, .inside hi (Nat.le_of_lt hlt), hpos⟩
    rw [← hpos, ← hcells]
    simp only [position]
    omega
  · rw [heq, hpos]
    exact ⟨by simp, rfl, .atEnd, by simp [position]⟩

/-- A read gives the byte of the contents at the position and moves on by one, or, at the
end, gives `none` and stays at the position; the cursor stays placed. -/
theorem read_eq (hp : c.Placed h) :
    (c.read h).1 = (h.flat c.cells)[c.position h]? ∧ (c.read h).2.cells = c.cells ∧
      (c.read h).2.Placed h ∧
      (c.read h).2.position h =
        if c.position h < h.totalSize c.cells then c.position h + 1 else c.position h := by
  rcases advance_cases hp with ⟨c', heq, hcells, hpos, hi, hlt⟩ | ⟨heq, hpos⟩
  · -- the walk stopped inside a segment: the byte there is the contents' byte at the position
    have hv : h.get? c'.cells[c'.segment] c'.offset =
        some (h.bytes c'.cells[c'.segment])[c'.offset] := by
      unfold Heap.get?
      exact Array.getElem?_eq_getElem hlt
    have hread : c.read h = (some (h.bytes c'.cells[c'.segment])[c'.offset],
        { c' with offset := c'.offset + 1 }) := by
      simp only [read, heq, dif_pos hi, hv]
    have hnext := Heap.totalSize_take_succ h hi
    have hle := Heap.totalSize_take_le h c'.cells (c'.segment + 1)
    have hlt' : c.position h < h.totalSize c.cells := by
      rw [← hpos, ← hcells]
      dsimp only [position]
      omega
    rw [hread, if_pos hlt']
    refine ⟨?_, hcells, .inside hi hlt, ?_⟩
    · rw [← hpos, ← hcells, ← hv, ← Heap.getElem?_flat_take h hi hlt]
      rfl
    · rw [← hpos]
      dsimp only [position]
      omega
  · have hread : c.read h = (none, ⟨c.cells, c.cells.length, 0⟩) := by
      simp only [read, heq]
    rw [hread, hpos, if_neg (Nat.lt_irrefl _)]
    refine ⟨?_, rfl, .atEnd, by simp [position]⟩
    rw [Heap.totalSize_eq_length_flat]
    simp

/-! ## The logical reader -/

theorem toReader_available (hp : c.Placed h) :
    (c.toReader h).available h = (c.available h).1 := by
  rw [Bool.eq_iff_iff, Reader.available, decide_eq_true_iff]
  exact (available_eq hp).1.symm

theorem toReader_read (hp : c.Placed h) :
    (c.toReader h).read h = ((c.read h).1, (c.read h).2.toReader h) := by
  obtain ⟨hbyte, hcells, -, hpos⟩ := read_eq hp
  rw [Reader.read_eq]
  simp only [toReader, hcells, hpos, hbyte]
  by_cases hlt : c.position h < h.totalSize c.cells
  · have hlen : c.position h < (h.flat c.cells).length := by
      rwa [← Heap.totalSize_eq_length_flat]
    rw [List.getElem?_eq_getElem hlen, if_pos hlt]
  · have hnone : (h.flat c.cells)[c.position h]? = none :=
      List.getElem?_eq_none (by rw [← Heap.totalSize_eq_length_flat]; omega)
    rw [hnone, if_neg hlt]

theorem toReader_rewind (c : SegmentCursor) : c.rewind.toReader h = (c.toReader h).rewind := by
  show (⟨c.rewind.cells, c.rewind.position h⟩ : Reader) = ⟨c.cells, 0⟩
  rw [position_rewind]
  rfl

@[simp] theorem toReader_ofBuffer (b : Buffer) : (ofBuffer b).toReader h = Reader.ofBuffer b := by
  simp [toReader, ofBuffer, Reader.ofBuffer, position, Heap.totalSize]

/-! ## Runs of reads -/

/-- What `n` reads in a row give, the heap standing still. -/
def reads (h : Heap) : Nat → SegmentCursor → List (Option UInt8)
  | 0, _ => []
  | n + 1, c => (c.read h).1 :: reads h n (c.read h).2

/-- Reads in a row give the bytes of the contents from the position on, then `none`. The
induction is on the number of reads; each read keeps the cursor placed. -/
theorem reads_eq (hp : c.Placed h) (n : Nat) :
    reads h n c = (List.range n).map fun i => (h.flat c.cells)[c.position h + i]? := by
  induction n generalizing c with
  | zero => rfl
  | succ n ih =>
    obtain ⟨hbyte, hcells, hp', hpos⟩ := read_eq hp
    rw [reads, ih hp', List.range_succ_eq_map, List.map_cons, List.map_map, hbyte, hcells, hpos]
    congr 1
    refine List.map_congr_left fun i _ => ?_
    split
    · simp only [Function.comp, Nat.add_assoc, Nat.add_comm 1 i]
    · -- at the end every further read gives `none`
      have hend : (h.flat c.cells).length ≤ c.position h := by
        rw [← Heap.totalSize_eq_length_flat]
        omega
      simp only [Function.comp]
      rw [List.getElem?_eq_none (by omega), List.getElem?_eq_none (by omega)]

/-- Reading one more time than a list is long gives the list, then `none`. -/
theorem range_map_getElem? {α : Type} (l : List α) :
    (List.range (l.length + 1)).map (fun i => l[i]?) = l.map some ++ [none] := by
  rw [List.range_succ, List.map_append]
  simp only [List.map_cons, List.map_nil, List.getElem?_eq_none (Nat.le_refl _)]
  congr 1
  refine List.ext_getElem (by simp) fun i h₁ h₂ => ?_
  simp

/-! ## Every interleaving -/

/-- The cursors that a cursor made at the start of `cells` reaches by any interleaving of
looks, reads and rewinds, over heaps whose bytes may change but whose cells in `cells` keep
the lengths they have in `h₀`. -/
inductive Walks (h₀ : Heap) (cells : List Nat) : SegmentCursor → Prop
  | start : Walks h₀ cells ⟨cells, 0, 0⟩
  | look {c : SegmentCursor} (h : Heap) (hs : ∀ x ∈ cells, h.size x = h₀.size x) :
      Walks h₀ cells c → Walks h₀ cells (c.available h).2
  | read {c : SegmentCursor} (h : Heap) (hs : ∀ x ∈ cells, h.size x = h₀.size x) :
      Walks h₀ cells c → Walks h₀ cells (c.read h).2
  | rewind {c : SegmentCursor} : Walks h₀ cells c → Walks h₀ cells c.rewind

/-- A step that keeps a cursor on its snapshot and placed under a heap that gives the
snapshot's cells their lengths keeps it so under `h₀`. -/
theorem placed_of_step {h₀ h : Heap} {cells : List Nat} {d : SegmentCursor}
    (hs : ∀ x ∈ cells, h.size x = h₀.size x) (hc : c.cells = cells ∧ c.Placed h₀)
    (step : c.Placed h → d.cells = c.cells ∧ d.Placed h) : d.cells = cells ∧ d.Placed h₀ := by
  obtain ⟨hcells, hp⟩ := hc
  obtain ⟨hd, hpd⟩ := step (hp.congr (hcells ▸ hs))
  exact ⟨hd.trans hcells, hpd.congr fun x hx => (hs x (hd.trans hcells ▸ hx)).symm⟩

/-- A walked cursor keeps its snapshot and stays placed. -/
theorem Walks.placed {h₀ : Heap} {cells : List Nat} (hw : Walks h₀ cells c) :
    c.cells = cells ∧ c.Placed h₀ := by
  induction hw with
  | start =>
    cases cells with
    | nil => exact ⟨rfl, .atEnd⟩
    | cons x rest => exact ⟨rfl, .inside (by simp) (Nat.zero_le _)⟩
  | look h hs _ ih =>
    exact placed_of_step hs ih fun hp => ⟨(available_eq hp).2.1, (available_eq hp).2.2.1⟩
  | read h hs _ ih =>
    exact placed_of_step hs ih fun hp => ⟨(read_eq hp).2.1, (read_eq hp).2.2.1⟩
  | rewind _ ih => exact ⟨ih.1, placed_rewind _⟩

end SegmentCursor

/-- A reader streams its buffer's contents. Take a cursor made at the start of a buffer and
moved by any interleaving of looks, reads and rewinds, over heaps whose bytes may change
while the buffer's cells keep their lengths, and take any such heap. A read gives the byte
of the contents at the cursor's position and moves it on by one while bytes are left; at
the end it gives `none` and the position stays. A look tells whether bytes are left and
keeps the position, and a rewind goes back to `0`. From a rewound or a fresh cursor, reads
give the contents byte after byte, then `none`. The walk over the segments stops only
inside the segment list. Seen through its position, the cursor is the reader that calls
run: each operation commutes with that view. -/
theorem cursor_streams_contents (b : Buffer) (h₀ : Heap) {c : SegmentCursor}
    (hw : SegmentCursor.Walks h₀ b.cells c) (h : Heap)
    (hs : ∀ x ∈ b.cells, h.size x = h₀.size x) :
    (c.read h).1 = (b.contents h)[c.position h]? ∧
    (c.read h).2.position h =
      (if c.position h < (b.contents h).size then c.position h + 1 else c.position h) ∧
    ((c.available h).1 = true ↔ c.position h < (b.contents h).size) ∧
    (c.available h).2.position h = c.position h ∧
    c.rewind.position h = 0 ∧
    SegmentCursor.reads h ((b.contents h).size + 1) c.rewind =
      (b.contents h).toList.map some ++ [none] ∧
    SegmentCursor.reads h ((b.contents h).size + 1) (SegmentCursor.ofBuffer b) =
      (b.contents h).toList.map some ++ [none] ∧
    ((c.advance h).1 = true → (c.advance h).2.segment < b.cells.length) ∧
    (c.toReader h).read h = ((c.read h).1, (c.read h).2.toReader h) ∧
    (c.toReader h).available h = (c.available h).1 ∧
    c.rewind.toReader h = (c.toReader h).rewind ∧
    (SegmentCursor.ofBuffer b).toReader h = Reader.ofBuffer b := by
  obtain ⟨hcells, hp₀⟩ := hw.placed
  -- the heap at hand gives the snapshot's cells the lengths they had, so the cursor is placed
  have hp : c.Placed h := hp₀.congr fun x hx => hs x (hcells ▸ hx)
  have hflat : (b.contents h).toList = h.flat c.cells := by
    rw [Buffer.toList_contents, hcells]
  have hsize : (b.contents h).size = h.totalSize c.cells := by
    rw [← Array.length_toList, hflat, Heap.totalSize_eq_length_flat]
  have hget : ∀ i, (b.contents h)[i]? = (h.flat c.cells)[i]? := fun i => by
    rw [← Array.getElem?_toList, hflat]
  -- reading from position `0` over the whole contents and one more
  have hdrain : ∀ d : SegmentCursor, d.cells = c.cells → d.Placed h → d.position h = 0 →
      SegmentCursor.reads h ((b.contents h).size + 1) d =
        (b.contents h).toList.map some ++ [none] := by
    intro d hd hpd hpos
    rw [SegmentCursor.reads_eq hpd, hd, hpos, hflat, hsize, Heap.totalSize_eq_length_flat]
    simpa using SegmentCursor.range_map_getElem? (h.flat c.cells)
  obtain ⟨hbyte, -, -, hpos⟩ := SegmentCursor.read_eq hp
  obtain ⟨hav, -, -, havpos⟩ := SegmentCursor.available_eq hp
  refine ⟨?_, ?_, ?_, havpos, SegmentCursor.position_rewind c, ?_, ?_, ?_,
    SegmentCursor.toReader_read hp, SegmentCursor.toReader_available hp,
    SegmentCursor.toReader_rewind c, SegmentCursor.toReader_ofBuffer b⟩
  · rw [hbyte, hget]
  · rw [hpos, hsize]
  · rw [hav, hsize]
  · exact hdrain _ rfl (SegmentCursor.placed_rewind c) (SegmentCursor.position_rewind c)
  · exact hdrain _ hcells.symm (SegmentCursor.placed_rewind (SegmentCursor.ofBuffer b))
      (SegmentCursor.position_rewind (SegmentCursor.ofBuffer b))
  · intro hadv
    rw [← hcells]
    exact SegmentCursor.advance_inside hp hadv

/-- A buffer of three segments, the middle one empty. -/
def splitBuffer : Buffer := ⟨[⟨0, none⟩, ⟨1, none⟩, ⟨2, none⟩]⟩

/-- The heap that holds the three segments of `splitBuffer`: `1 2`, nothing, and `3`. -/
def splitHeap : Heap := ⟨#[#[1, 2], #[], #[3]]⟩

theorem cursor_streams_contents_split :
    SegmentCursor.Walks splitHeap splitBuffer.cells (SegmentCursor.ofBuffer splitBuffer) ∧
    (∀ x ∈ splitBuffer.cells, splitHeap.size x = splitHeap.size x) ∧
    ((SegmentCursor.ofBuffer splitBuffer).read splitHeap).1 =
        (splitBuffer.contents splitHeap)[(SegmentCursor.ofBuffer splitBuffer).position splitHeap]? ∧
    ((SegmentCursor.ofBuffer splitBuffer).read splitHeap).2.position splitHeap =
      (if (SegmentCursor.ofBuffer splitBuffer).position splitHeap <
          (splitBuffer.contents splitHeap).size
        then (SegmentCursor.ofBuffer splitBuffer).position splitHeap + 1
        else (SegmentCursor.ofBuffer splitBuffer).position splitHeap) ∧
    (((SegmentCursor.ofBuffer splitBuffer).available splitHeap).1 = true ↔
      (SegmentCursor.ofBuffer splitBuffer).position splitHeap <
        (splitBuffer.contents splitHeap).size) ∧
    ((SegmentCursor.ofBuffer splitBuffer).available splitHeap).2.position splitHeap =
      (SegmentCursor.ofBuffer splitBuffer).position splitHeap ∧
    (SegmentCursor.ofBuffer splitBuffer).rewind.position splitHeap = 0 ∧
    SegmentCursor.reads splitHeap ((splitBuffer.contents splitHeap).size + 1)
        (SegmentCursor.ofBuffer splitBuffer).rewind =
      (splitBuffer.contents splitHeap).toList.map some ++ [none] ∧
    SegmentCursor.reads splitHeap ((splitBuffer.contents splitHeap).size + 1)
        (SegmentCursor.ofBuffer splitBuffer) =
      (splitBuffer.contents splitHeap).toList.map some ++ [none] ∧
    (((SegmentCursor.ofBuffer splitBuffer).advance splitHeap).1 = true →
      ((SegmentCursor.ofBuffer splitBuffer).advance splitHeap).2.segment <
        splitBuffer.cells.length) ∧
    ((SegmentCursor.ofBuffer splitBuffer).toReader splitHeap).read splitHeap =
      (((SegmentCursor.ofBuffer splitBuffer).read splitHeap).1,
        ((SegmentCursor.ofBuffer splitBuffer).read splitHeap).2.toReader splitHeap) ∧
    ((SegmentCursor.ofBuffer splitBuffer).toReader splitHeap).available splitHeap =
      ((SegmentCursor.ofBuffer splitBuffer).available splitHeap).1 ∧
    (SegmentCursor.ofBuffer splitBuffer).rewind.toReader splitHeap =
      ((SegmentCursor.ofBuffer splitBuffer).toReader splitHeap).rewind ∧
    (SegmentCursor.ofBuffer splitBuffer).toReader splitHeap = Reader.ofBuffer splitBuffer :=
  ⟨.start, fun _ _ => rfl,
    cursor_streams_contents splitBuffer splitHeap .start splitHeap fun _ _ => rfl⟩

end Coprocessor
