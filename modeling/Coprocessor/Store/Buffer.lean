import Coprocessor.Memory.Segment

/-!
# Buffers

A buffer is a list of segments in the order they were added. Its contents are the
concatenation of its segments' bytes, and a logical offset runs across segment
boundaries: `get?` and `set?` find the segment an offset falls in and act there. Setting a
byte never changes a segment's length, kind or cursor.
-/

namespace Coprocessor

/-- A buffer: its segments, oldest first. -/
structure Buffer where
  segments : List Segment := []
  deriving DecidableEq, Repr

namespace Buffer

/-- The heap cells of the buffer's segments, in order. -/
def cells (b : Buffer) : List Nat := b.segments.map (·.cell)

/-- The logical length, the sum of the segment lengths. -/
def length (h : Heap) (b : Buffer) : Nat := h.totalSize b.cells

/-- Whether the buffer holds no bytes: every segment is empty. -/
def isEmpty (h : Heap) (b : Buffer) : Bool := b.segments.all (·.length h == 0)

/-- The byte at a logical offset. -/
def get? (h : Heap) (b : Buffer) (offset : Nat) : Option UInt8 := h.byteAt b.cells offset

/-- Sets the byte at a logical offset; `none` when the offset is past the end. -/
def set? (h : Heap) (b : Buffer) (offset : Nat) (value : UInt8) : Option Heap :=
  match h.locate b.cells offset with
  | some (c, o) => some (h.set c o value)
  | none => none

/-- The logical contents. -/
def contents (h : Heap) (b : Buffer) : Array UInt8 := h.concat b.cells

/-- The buffer with a segment added at the end. -/
def push (b : Buffer) (s : Segment) : Buffer := ⟨b.segments ++ [s]⟩

/-- The logical length is the length of the contents. -/
theorem length_eq (h : Heap) (b : Buffer) : b.length h = (h.flat b.cells).length :=
  Heap.totalSize_eq_length_flat h b.cells

/-- A byte by offset is the byte of the contents at that offset. -/
theorem get?_eq (h : Heap) (b : Buffer) (offset : Nat) :
    b.get? h offset = (h.flat b.cells)[offset]? :=
  Heap.byteAt_eq_getElem?_flat h b.cells offset

@[simp] theorem cells_push (b : Buffer) (s : Segment) : (b.push s).cells = b.cells ++ [s.cell] := by
  simp [push, cells]

end Buffer

end Coprocessor
