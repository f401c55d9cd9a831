import Coprocessor.Memory.Heap

/-!
# Segments

A segment is a stretch of bytes of a buffer. It names a heap cell, which holds its bytes
and fixes its length, and carries its own kind: read-only, or writable with a write cursor.
A writable segment starts zeroed with its cursor at the start; each write stores a byte at
the cursor and moves it on, until the cursor reaches the end.

Clones of a segment name the same cell, so they share bytes, but each keeps its own cursor.
Setting a byte by offset works on either kind; only cursor writes need a writable segment.
-/

namespace Coprocessor

/-- A segment: a heap cell and, if writable, the write cursor. -/
structure Segment where
  cell : Nat
  cursor : Option Nat
  deriving DecidableEq, Repr

namespace Segment

/-- The segment's length, the length of its cell. -/
def length (h : Heap) (s : Segment) : Nat := h.size s.cell

/-- Whether the segment takes writes at a cursor. -/
def isWritable (s : Segment) : Bool := s.cursor.isSome

/-- The segment's bytes. -/
def data (h : Heap) (s : Segment) : Array UInt8 := h.bytes s.cell

/-- The byte at an offset. -/
def get? (h : Heap) (s : Segment) (offset : Nat) : Option UInt8 := h.get? s.cell offset

/-- Sets the byte at an offset, whatever the kind; `none` when the offset is past the end. -/
def set? (h : Heap) (s : Segment) (offset : Nat) (value : UInt8) : Option Heap :=
  if offset < s.length h then some (h.set s.cell offset value) else none

/-- The cursor of a writable segment that has room for one more byte. -/
def room (h : Heap) (s : Segment) : Option Nat :=
  match s.cursor with
  | some p => if p < s.length h then some p else none
  | none => none

/-- Writes a byte at the cursor and moves it on; `none` when the segment is read-only or
full. -/
def write? (h : Heap) (s : Segment) (value : UInt8) : Option (Heap × Segment) :=
  (s.room h).map fun p => (h.set s.cell p value, { s with cursor := some (p + 1) })

/-- Moves a writable segment's cursor back to the start. -/
def rewind (s : Segment) : Segment :=
  match s.cursor with
  | some _ => { s with cursor := some 0 }
  | none => s

/-- A read-only segment holding the bytes. -/
def readOnly (h : Heap) (bytes : Array UInt8) : Segment × Heap :=
  let (cell, h) := h.alloc bytes
  (⟨cell, none⟩, h)

/-- A zeroed writable segment of a length, or `none` when the allocator refuses a block that
long. -/
def zeroed? (a : Allocator) (h : Heap) (len : Nat) : Option (Segment × Heap) :=
  if a.grants len then
    let (cell, h) := h.alloc (Array.replicate len 0)
    some (⟨cell, some 0⟩, h)
  else none

/-- How a segment is shown when debugging: its length and its cursor. -/
def debugText (h : Heap) (s : Segment) : String :=
  let pos := match s.cursor with
    | some p => "Some(" ++ toString p ++ ")"
    | none => "None"
  "Segment \x7b len: " ++ toString (s.length h) ++ ", write_pos: " ++ pos ++ ", .. \x7d"

end Segment

end Coprocessor
