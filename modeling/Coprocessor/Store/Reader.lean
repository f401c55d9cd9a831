import Coprocessor.Store.Buffer

/-!
# Readers

A reader streams a buffer's contents from a snapshot of its segments, taken when the
reader is made. The snapshot fixes which cells are read and so the total length, whatever
later happens to the buffer; the bytes themselves are read from the heap as they stand at
each read, so bytes set in place are seen.

The position is a logical offset into the concatenation. `read` gives the byte there and
moves on by one while the position is below the total length, and gives `none` at the end.
-/

namespace Coprocessor

/-- A reader over a snapshot of a buffer's segments. -/
structure Reader where
  cells : List Nat := []
  position : Nat := 0
  deriving DecidableEq, Repr

namespace Reader

/-- A reader at the start of a buffer. -/
def ofBuffer (b : Buffer) : Reader := ⟨b.cells, 0⟩

/-- The total length of the snapshot. -/
def length (h : Heap) (r : Reader) : Nat := h.totalSize r.cells

/-- Whether bytes are left to read. -/
def available (h : Heap) (r : Reader) : Bool := r.position < r.length h

/-- Reads the byte at the position and moves on, or gives `none` at the end. -/
def read (h : Heap) (r : Reader) : Option UInt8 × Reader :=
  if r.position < r.length h then
    match h.byteAt r.cells r.position with
    | some v => (some v, { r with position := r.position + 1 })
    | none => (none, r)
  else (none, r)

/-- Moves back to the start. -/
def rewind (r : Reader) : Reader := { r with position := 0 }

/-- Bytes are left exactly while the position is below the length of the contents. -/
theorem available_iff (h : Heap) (r : Reader) :
    r.available h = true ↔ r.position < (h.flat r.cells).length := by
  simp [available, length, Heap.totalSize_eq_length_flat]

/-- A read gives the byte of the contents at the position and moves on by one, or gives
`none` and changes nothing at the end. -/
theorem read_eq (h : Heap) (r : Reader) :
    r.read h = match (h.flat r.cells)[r.position]? with
      | some v => (some v, { r with position := r.position + 1 })
      | none => (none, r) := by
  unfold read
  rw [Heap.byteAt_eq_getElem?_flat, length, Heap.totalSize_eq_length_flat]
  split
  · rfl
  · rename_i hge
    rw [List.getElem?_eq_none (by omega)]

end Reader

/-! ## Walking the segments

A reader can also keep its place as a segment of the snapshot and an offset inside it, and
find the next byte by walking the segments: moving on skips exhausted and empty segments,
lazily, at the next look, and the logical position is the length of the segments passed
plus the offset. `SegmentCursor` is that reader. It is the same reader as `Reader` seen
through its position, as long as the segments keep their lengths.
-/

/-- A reader over a snapshot of a buffer's segments that keeps its place as the index of a
segment and an offset inside that segment. -/
structure SegmentCursor where
  cells : List Nat := []
  segment : Nat := 0
  offset : Nat := 0
  deriving DecidableEq, Repr

namespace SegmentCursor

/-- A cursor at the start of a buffer. -/
def ofBuffer (b : Buffer) : SegmentCursor := ⟨b.cells, 0, 0⟩

/-- The logical position: the lengths of the segments passed, plus the offset. -/
def position (h : Heap) (c : SegmentCursor) : Nat :=
  h.totalSize (c.cells.take c.segment) + c.offset

/-- Moves back to the start. -/
def rewind (c : SegmentCursor) : SegmentCursor := { c with segment := 0, offset := 0 }

/-- Moves past exhausted segments, telling whether a byte is left. Each turn passes one
segment, so the walk ends at the last segment at the latest. -/
def advance (h : Heap) (c : SegmentCursor) : Bool × SegmentCursor :=
  if hlt : c.segment < c.cells.length then
    if c.offset < h.size c.cells[c.segment] then (true, c)
    else advance h { c with segment := c.segment + 1, offset := 0 }
  else (false, c)
termination_by c.cells.length - c.segment

/-- Whether bytes are left to read; looking moves past exhausted segments. -/
def available (h : Heap) (c : SegmentCursor) : Bool × SegmentCursor := c.advance h

/-- Reads the byte at the place the walk stops and moves on by one, or gives `none` at the
end. The walk only stops inside a segment with a byte left, so neither fallback of the
lookup is ever taken. -/
def read (h : Heap) (c : SegmentCursor) : Option UInt8 × SegmentCursor :=
  match c.advance h with
  | (false, c) => (none, c)
  | (true, c) =>
    if hlt : c.segment < c.cells.length then
      match h.get? c.cells[c.segment] c.offset with
      | some v => (some v, { c with offset := c.offset + 1 })
      | none => (none, c)
    else (none, c)

/-- The reader at the cursor's logical position. -/
def toReader (h : Heap) (c : SegmentCursor) : Reader := ⟨c.cells, c.position h⟩

end SegmentCursor

end Coprocessor
