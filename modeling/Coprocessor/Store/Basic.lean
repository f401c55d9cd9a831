import Coprocessor.Fault
import Coprocessor.Store.Table
import Coprocessor.Store.Buffer

/-!
# The buffer store

The store holds buffers by id, with the heap their segments live in, the number of bytes
they hold and an optional limit on that number. Reserved ids never name a buffer.

Every operation that fails leaves the store as it was: each one first checks, without
changing anything, and then commits by a total update. Appending and creating check the
limit: the bytes held plus the new length, taken as a machine word that stops at its
largest value, may not pass the limit. Clearing a buffer gives its bytes back to the
count; readers made from it keep its segments, because the heap never frees a cell.
-/

namespace Coprocessor

/-- The buffer store. -/
structure Store where
  heap : Heap := {}
  buffers : Table Buffer := {}
  used : Nat := 0
  limit : Option Nat := none
  deriving Repr

/-- A segment to be made: read-only with given bytes, or zeroed and writable. -/
inductive NewSegment
  | readOnly (bytes : Array UInt8)
  | zeroed (len : Nat)

/-- The length of the segment to be made. -/
def NewSegment.length : NewSegment → Nat
  | .readOnly bytes => bytes.size
  | .zeroed len => len

namespace Store

/-- An empty store with an optional limit. -/
def withLimit (limit : Option Nat) : Store := { limit }

/-- The largest value of a machine word, 2^64 - 1, where the byte count stops when a sum
passes it. -/
def wordMax : Nat := 18446744073709551615

/-- The number of stored buffers. -/
def size (s : Store) : Nat := s.buffers.size

/-- Whether no buffer is stored. -/
def isEmpty (s : Store) : Bool := s.buffers.isEmpty

/-- The buffer stored under an id. -/
def find? (s : Store) (id : BufferId) : Option Buffer := s.buffers.find? id

/-- Whether a buffer is stored under an id. -/
def contains (s : Store) (id : BufferId) : Bool := s.buffers.contains id

/-- Refuses a reserved id. -/
def checkId (operation : Operation) (id : BufferId) : Except Fault Unit :=
  if id.isReserved then .error ⟨operation, .reserved id⟩ else .ok ()

/-- Checks that a length more fits under the limit. The sum stops at the largest word. -/
def checkCapacity (s : Store) (len : Nat) : Except Fault Unit :=
  match s.limit with
  | some limit =>
    if min (s.used + len) wordMax > limit then .error ⟨.unknown, .allocation len⟩ else .ok ()
  | none => .ok ()

/-! ## Bytes by offset -/

/-- The byte at an offset of a buffer's contents. -/
def getByte (s : Store) (id : BufferId) (offset : Nat) : Except Fault UInt8 :=
  match s.find? id with
  | none => .error ⟨.lookup, .notFound id⟩
  | some b =>
    match b.get? s.heap offset with
    | some v => .ok v
    | none => .error ⟨.lookup, .outOfRange id offset⟩

/-- The heap cell and the offset inside it that an offset of a buffer's contents falls on. -/
def locate (s : Store) (id : BufferId) (offset : Nat) : Except Fault (Nat × Nat) :=
  match s.find? id with
  | none => .error ⟨.lookup, .notFound id⟩
  | some b =>
    match s.heap.locate b.cells offset with
    | some loc => .ok loc
    | none => .error ⟨.lookup, .outOfRange id offset⟩

/-- Stores a byte at a heap cell and an offset inside it. -/
def poke (s : Store) (loc : Nat × Nat) (value : UInt8) : Store :=
  { s with heap := s.heap.set loc.1 loc.2 value }

/-- Sets the byte at an offset of a buffer's contents; never grows the buffer. -/
def setByte (s : Store) (id : BufferId) (offset : Nat) (value : UInt8) : Except Fault Store :=
  (s.locate id offset).map (s.poke · value)

/-! ## Adding segments -/

/-- Checks that a segment of a length may be added to a buffer: the id is not reserved and
the length fits under the limit. -/
def checkAppend (s : Store) (operation : Operation) (id : BufferId) (len : Nat) : Except Fault Unit := do
  checkId operation id
  chargeTo operation (s.checkCapacity len)

/-- Adds a made segment of a length at the end of a buffer, creating the buffer if
needed. -/
def attach (s : Store) (id : BufferId) (seg : Segment) (len : Nat) : Store :=
  { s with buffers := s.buffers.insert id (((s.find? id).getD {}).push seg), used := s.used + len }

/-- Adds a read-only segment holding the bytes at the end of a buffer. -/
def appendReadOnly (s : Store) (id : BufferId) (bytes : Array UInt8) : Store :=
  let (seg, heap) := Segment.readOnly s.heap bytes
  { s with heap }.attach id seg bytes.size

/-- Appends a new segment to a buffer, creating the buffer if needed; a zeroed segment comes
from the allocator. -/
def append (a : Allocator) (s : Store) (id : BufferId) (n : NewSegment) : Except Fault Store := do
  s.checkAppend .bufferWrite id n.length
  match n with
  | .readOnly bytes => pure (s.appendReadOnly id bytes)
  | .zeroed len =>
    match Segment.zeroed? a s.heap len with
    | some (seg, heap) => pure ({ s with heap }.attach id seg len)
    | none => throw ⟨.bufferWrite, .allocation len⟩

/-- Checks that a buffer holding one zeroed segment of a length may be created: the id is
not reserved nor in use, the length fits under the limit and the allocator grants it. -/
def checkCreate (a : Allocator) (s : Store) (id : BufferId) (len : Nat) : Except Fault Unit := do
  checkId .create id
  if s.contains id then throw ⟨.create, .alreadyExists id⟩
  chargeTo .create (s.checkCapacity len)
  if !a.grants len then throw ⟨.create, .allocation len⟩

/-- Creates a buffer holding one zeroed writable segment of a length, when the allocator
grants it. -/
def createZeroed (a : Allocator) (s : Store) (id : BufferId) (len : Nat) : Store :=
  match Segment.zeroed? a s.heap len with
  | some (seg, heap) => { s with heap, buffers := s.buffers.insert id ⟨[seg]⟩, used := s.used + len }
  | none => s

/-- Creates a buffer holding one zeroed writable segment of a length. -/
def createWritable (a : Allocator) (s : Store) (id : BufferId) (len : Nat) :
    Except Fault Store := do
  s.checkCreate a id len
  pure (s.createZeroed a id len)

/-! ## Removing buffers -/

/-- Removes a buffer, telling whether it was there. -/
def clear (s : Store) (id : BufferId) : Bool × Store :=
  match s.find? id with
  | some b => (true, { s with buffers := s.buffers.erase id, used := s.used - b.length s.heap })
  | none => (false, s)

/-- Removes every buffer. -/
def clearAll (s : Store) : Store := { s with buffers := {}, used := 0 }

/-! ## Output into a buffer -/

/-- Where the next output byte for a buffer goes: the cursor of its first segment, or
`none` when that segment is full. The first segment must exist and be writable. -/
def outputSlot (s : Store) (id : BufferId) : Except Fault (Option Nat) :=
  match s.find? id with
  | some ⟨first :: _⟩ =>
    if first.isWritable then .ok (first.room s.heap) else .error ⟨.write, .readOnly id⟩
  | _ => .error ⟨.write, .notFound id⟩

/-- Stores a byte at a cursor position of a buffer's first segment and moves the cursor
past it. -/
def putOutput (s : Store) (id : BufferId) (p : Nat) (value : UInt8) : Store :=
  match s.find? id with
  | some ⟨first :: rest⟩ =>
    { s with heap := s.heap.set first.cell p value,
             buffers := s.buffers.insert id ⟨{ first with cursor := some (p + 1) } :: rest⟩ }
  | _ => s

/-- Writes a byte at the cursor of a buffer's first segment, telling whether it fitted. -/
def writeOutput (s : Store) (id : BufferId) (value : UInt8) : Except Fault (Bool × Store) :=
  (s.outputSlot id).map fun
    | some p => (true, s.putOutput id p value)
    | none => (false, s)

/-- Whether a buffer exists and its first segment is writable. -/
def isOutputTarget (s : Store) (id : BufferId) : Bool :=
  match s.find? id with
  | some ⟨first :: _⟩ => first.isWritable
  | _ => false

end Store

end Coprocessor
