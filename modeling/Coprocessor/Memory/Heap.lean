/-!
# The byte heap

Segments do not own their bytes: they name a cell of a heap, and clones of a segment name
the same cell. A cell is allocated once, keeps its length for good and is never freed, so
every name handed out stays valid; only its bytes change, in place.

A run of cells is read as one sequence of bytes, the concatenation of the cells in order.
`Heap.locate` turns a position in that sequence into a cell and an offset inside it, and
`Heap.byteAt` reads through it. The main facts say that reading and writing through a
location is reading and writing that cell, and that other cells keep their bytes.
-/

namespace Coprocessor

/-- The largest size of one object in memory, isize::MAX = 2^63 - 1 bytes. -/
def maxObjectSize : Nat := 9223372036854775807

/-- The allocator that blocks of bytes come from, as a request for exactly a length of bytes
sees it: granted or refused. A request past the largest object size overflows and is always
refused; a request for no bytes needs no memory and is always granted; in between the
allocator may refuse, as its memory allows. -/
structure Allocator where
  grants : Nat → Bool
  refuses_overflow : ∀ len, maxObjectSize < len → grants len = false
  grants_zero : grants 0 = true

/-- An allocator that grants every request up to a bound, which is no more than the largest
object size. -/
def Allocator.upTo (bound : Nat) (h : bound ≤ maxObjectSize) : Allocator where
  grants len := decide (len ≤ bound)
  refuses_overflow len hlen := decide_eq_false (by omega)
  grants_zero := decide_eq_true (Nat.zero_le bound)

/-- An allocator with memory to spare: it grants every block of up to 2^32 - 1 bytes. -/
def Allocator.ample : Allocator := Allocator.upTo 4294967295 (by decide)

/-- Cells of bytes, named by their index. -/
structure Heap where
  cells : Array (Array UInt8) := #[]
  deriving Repr

namespace Heap

/-- Allocates a cell holding the bytes, giving its name. -/
def alloc (h : Heap) (bytes : Array UInt8) : Nat × Heap :=
  (h.cells.size, ⟨h.cells.push bytes⟩)

/-- The bytes of a cell; a name that was never handed out reads as empty. -/
def bytes (h : Heap) (cell : Nat) : Array UInt8 :=
  h.cells[cell]?.getD #[]

/-- The length of a cell. -/
def size (h : Heap) (cell : Nat) : Nat :=
  (h.bytes cell).size

/-- The byte at an offset of a cell. -/
def get? (h : Heap) (cell offset : Nat) : Option UInt8 :=
  (h.bytes cell)[offset]?

/-- Stores a byte at an offset of a cell; an offset past the end changes nothing. -/
def set (h : Heap) (cell offset : Nat) (value : UInt8) : Heap :=
  ⟨h.cells.modify cell (fun b => b.set! offset value)⟩

/-- The total length of a run of cells. -/
def totalSize (h : Heap) : List Nat → Nat
  | [] => 0
  | c :: rest => h.size c + h.totalSize rest

/-- The cell and the offset inside it that a position of a run of cells falls on. -/
def locate (h : Heap) : List Nat → Nat → Option (Nat × Nat)
  | [], _ => none
  | c :: rest, offset =>
    if offset < h.size c then some (c, offset) else h.locate rest (offset - h.size c)

/-- The byte at a position of a run of cells. -/
def byteAt (h : Heap) (cells : List Nat) (offset : Nat) : Option UInt8 :=
  match h.locate cells offset with
  | some (c, o) => h.get? c o
  | none => none

/-- The bytes of a run of cells, in order, as a list: the view that positions index. -/
def flat (h : Heap) (cells : List Nat) : List UInt8 :=
  cells.flatMap fun c => (h.bytes c).toList

/-- The bytes of a run of cells, in order. -/
def concat (h : Heap) (cells : List Nat) : Array UInt8 :=
  (h.flat cells).toArray

@[simp] theorem flat_nil (h : Heap) : h.flat [] = [] := rfl

@[simp] theorem flat_cons (h : Heap) (c : Nat) (cells : List Nat) :
    h.flat (c :: cells) = (h.bytes c).toList ++ h.flat cells := rfl

/-- The total length of a run is the length of its bytes. -/
theorem totalSize_eq_length_flat (h : Heap) (cells : List Nat) :
    h.totalSize cells = (h.flat cells).length := by
  induction cells with
  | nil => rfl
  | cons c rest ih => simp [totalSize, ih, size]

/-- A position of a run falls on a cell exactly when it lies below the total length. -/
theorem locate_eq_none_iff (h : Heap) (cells : List Nat) (offset : Nat) :
    h.locate cells offset = none ↔ h.totalSize cells ≤ offset := by
  induction cells generalizing offset with
  | nil => simp [locate, totalSize]
  | cons c rest ih =>
    simp only [locate, totalSize]
    split
    · simp only [reduceCtorEq, false_iff, Nat.not_le]
      omega
    · rw [ih]
      omega

/-- Reading a position of a run reads its bytes at that position. -/
theorem byteAt_eq_getElem?_flat (h : Heap) (cells : List Nat) (offset : Nat) :
    h.byteAt cells offset = (h.flat cells)[offset]? := by
  induction cells generalizing offset with
  | nil => rfl
  | cons c rest ih =>
    by_cases hlt : offset < h.size c
    · have e : h.byteAt (c :: rest) offset = h.get? c offset := by
        simp [byteAt, locate, hlt]
      rw [e, flat_cons, List.getElem?_append_left (by simpa [size] using hlt)]
      simp [get?]
    · have e : h.byteAt (c :: rest) offset = h.byteAt rest (offset - h.size c) := by
        simp [byteAt, locate, hlt]
      rw [e, ih, flat_cons, List.getElem?_append_right (by simp [size] at hlt; omega)]
      simp [size]

theorem size_set (h : Heap) (cell offset : Nat) (value : UInt8) (c : Nat) :
    (h.set cell offset value).size c = h.size c := by
  unfold size bytes set
  simp only [Array.getElem?_modify]
  by_cases hc : cell = c
  · subst hc; cases h.cells[cell]? <;> simp
  · simp [hc]

theorem get?_set_self (h : Heap) (cell offset : Nat) (value : UInt8)
    (hlt : offset < h.size cell) :
    (h.set cell offset value).get? cell offset = some value := by
  unfold size bytes at hlt
  unfold get? bytes set
  simp only [Array.getElem?_modify]
  cases hc : h.cells[cell]? with
  | none => simp [hc] at hlt
  | some b => simp_all

theorem get?_set_ne (h : Heap) (cell offset : Nat) (value : UInt8) (c o : Nat)
    (hne : cell ≠ c ∨ offset ≠ o) :
    (h.set cell offset value).get? c o = h.get? c o := by
  unfold get? bytes set
  simp only [Array.getElem?_modify]
  by_cases hc : cell = c
  · subst hc
    have ho : offset ≠ o := by simpa using hne
    cases h.cells[cell]? <;> simp [ho]
  · simp [hc]

end Heap

end Coprocessor
