import Coprocessor.Memory.Segment

/-!
# Segment pools

A pool holds live segments in numbered slots over one heap. A clone takes a new slot that
names the same cell as its original; releasing a slot puts a fresh empty segment in its
place, which gives up that slot's share of the cell. A segment's memory is shared while
more than one live slot names its cell.
-/

namespace Coprocessor

/-- Live segments in numbered slots, and the heap they live in. -/
structure Pool where
  heap : Heap := {}
  slots : Array Segment := #[]
  deriving Repr

namespace Pool

/-- Adds a segment in a new slot, giving its number. -/
def add (p : Pool) (s : Segment) : Nat × Pool :=
  (p.slots.size, { p with slots := p.slots.push s })

/-- Adds a read-only segment holding the bytes. -/
def addReadOnly (p : Pool) (bytes : Array UInt8) : Nat × Pool :=
  let (s, heap) := Segment.readOnly p.heap bytes
  { p with heap }.add s

/-- Adds a zeroed writable segment, or gives `none` when the allocator refuses it. -/
def addZeroed (a : Allocator) (p : Pool) (len : Nat) : Option Nat × Pool :=
  match Segment.zeroed? a p.heap len with
  | some (s, heap) =>
    let (slot, p) := { p with heap }.add s
    (some slot, p)
  | none => (none, p)

/-- The segment in a slot. -/
def get? (p : Pool) (slot : Nat) : Option Segment := p.slots[slot]?

/-- Replaces the segment in a slot. -/
def put (p : Pool) (slot : Nat) (s : Segment) : Pool :=
  { p with slots := p.slots.set! slot s }

/-- Adds a clone of the segment in a slot: a new slot naming the same cell. -/
def clone (p : Pool) (slot : Nat) : Nat × Pool :=
  match p.get? slot with
  | some s => p.add s
  | none => (p.slots.size, p)

/-- Puts a fresh empty read-only segment in a slot, releasing its share of its cell. -/
def release (p : Pool) (slot : Nat) : Pool :=
  let (s, heap) := Segment.readOnly p.heap #[]
  { p with heap }.put slot s

/-- How many live slots name a cell. -/
def sharers (p : Pool) (cell : Nat) : Nat :=
  p.slots.toList.countP (·.cell == cell)

/-- Whether the segment in a slot shares its cell with another live slot. -/
def isShared (p : Pool) (slot : Nat) : Bool :=
  match p.get? slot with
  | some s => p.sharers s.cell > 1
  | none => false

end Pool

end Coprocessor
