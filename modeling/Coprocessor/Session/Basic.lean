import Coprocessor.Options
import Coprocessor.Store.Basic
import Coprocessor.Link.Transport
import Coprocessor.Screen
import Coprocessor.Session.Frame

/-!
# Sessions

A session holds everything the command stream acts on: the buffer store, the transport,
the screen, the options, the allocator that new buffer memory comes from, the frame being
executed, whether a general poll has been answered, and the faults that the decode loop has
swallowed, in order. It also keeps the history of the general polls answered, each with
the output it was answered on: no command reads it, and it is there so that where the
responses went can be stated against what ran.

Commands run in `Exec`, a state of the session with early exit. An exit is a fault, or
the step budget running out. Effects made before an exit stand: the bytes read stay read,
and what was stored stays stored.

This module gives the reading and writing that every command is built from. A read comes
from the transport, waiting at most the comms timeout, or from the frame's reader, which
fails with an end of stream past the end of the buffer. A response byte goes to the
frame's current output and is dropped if it cannot be delivered.
-/

namespace Coprocessor

/-- A general poll the session answered: the byte it echoed, and the output its frame sent
responses to when it answered. -/
structure Poll where
  echo : UInt8
  output : Output
  deriving DecidableEq, Repr

/-- The state that commands act on. -/
structure Session where
  store : Store
  transport : Transport
  screen : Screen
  options : Options
  allocator : Allocator
  frame : Frame := Frame.top
  initialised : Bool := false
  aborts : Array Fault := #[]
  polls : List Poll := []

/-- Why a command stopped early: a fault, or the step budget ran out. -/
inductive Interrupt
  | fault (f : Fault)
  | outOfFuel
  deriving DecidableEq, Repr

/-- Commands: a state of the session with early exit. -/
abbrev Exec := ExceptT Interrupt (StateM Session)

namespace Session

/-- A fresh session over a transport and a screen, with an empty store under the
options' memory limit and buffer memory from an allocator. -/
def create (allocator : Allocator) (transport : Transport) (screen : Screen) (options : Options) :
    Session where
  store := Store.withLimit options.memoryLimit
  transport := transport
  screen := screen
  options := options
  allocator := allocator

/-- Records a fault that the decode loop swallowed. -/
def logAbort (s : Session) (f : Fault) : Session := { s with aborts := s.aborts.push f }

end Session

namespace Exec

/-- Stops with a fault. -/
def fail {α : Type} (f : Fault) : Exec α := throw (.fault f)

/-- Takes the value of a store operation, stopping with its fault. -/
def ofExcept {α : Type} : Except Fault α → Exec α
  | .ok a => pure a
  | .error f => fail f

/-- Runs a command part and charges its fault, if any, to an operation. -/
def within {α : Type} (operation : Operation) (x : Exec α) : Exec α :=
  tryCatch x fun
    | .fault f => throw (.fault (f.during operation))
    | .outOfFuel => throw .outOfFuel

/-- The frame being executed. -/
def frame : Exec Frame := do return (← get).frame

/-- Replaces the frame being executed. -/
def setFrame (f : Frame) : Exec Unit := modify fun s => { s with frame := f }

/-- The store. -/
def store : Exec Store := do return (← get).store

/-- The allocator that new buffer memory comes from. -/
def allocator : Exec Allocator := do return (← get).allocator

/-- Changes the store by a total update. -/
def modifyStore (f : Store → Store) : Exec Unit :=
  modify fun s => { s with store := f s.store }

/-- Takes the result of a check on the store, stopping with its fault. -/
def check {α : Type} (f : Store → Except Fault α) : Exec α := do
  ofExcept (f (← get).store)

/-- Whether the frame's input has a byte ready. -/
def inputAvailable : Exec Bool :=
  modifyGet fun s =>
    match s.frame.input with
    | .transport =>
      let (b, transport) := s.transport.available
      (b, { s with transport })
    | .buffer r => (r.available s.store.heap, s)

/-- Reads one byte of the frame's input. -/
def readByte : Exec UInt8 := do
  let r ← modifyGet fun s =>
    match s.frame.input with
    | .transport =>
      let (r, transport) := s.transport.readTimeout
      (r, { s with transport })
    | .buffer rd =>
      let (b, rd) := rd.read s.store.heap
      (match b with
        | some v => .ok v
        | none => .error ⟨.read, .endOfStream⟩,
       { s with frame := { s.frame with input := .buffer rd } })
  ofExcept r

/-- Reads a little-endian 16-bit word. -/
def readWord : Exec UInt16 := do
  let lo ← readByte
  let hi ← readByte
  return lo.toUInt16 ||| (hi.toUInt16 <<< 8)

/-- Reads a little-endian 24-bit value. -/
def readTriple : Exec Nat := do
  let lo ← readByte
  let mid ← readByte
  let hi ← readByte
  return lo.toNat + mid.toNat * 256 + hi.toNat * 65536

/-- Reads an offset: three bytes when wide, two otherwise. -/
def readOffset (wide : Bool) : Exec Nat :=
  if wide then readTriple else do return (← readWord).toNat

/-- Reads a number of bytes, adding them to those read so far. -/
def readInto (acc : Array UInt8) : Nat → Exec (Array UInt8)
  | 0 => pure acc
  | n + 1 => do
    let b ← readByte
    readInto (acc.push b) n

/-- Reads a number of bytes. -/
def readBytes (n : Nat) : Exec (Array UInt8) := readInto #[] n

/-- Reads and drops a number of bytes. -/
def discard : Nat → Exec Unit
  | 0 => pure ()
  | n + 1 => do
    let _ ← readByte
    discard n

/-- Sends a byte to the frame's current output. A byte that cannot be delivered is
dropped: a failed transport write, a missing, read-only or full output buffer. -/
def writeByte (v : UInt8) : Exec Unit := do
  match (← frame).output with
  | .transport => modify fun s => { s with transport := (s.transport.write v).2 }
  | .buffer id =>
    match (← store).outputSlot id with
    | .ok (some p) => modifyStore (·.putOutput id p v)
    | _ => pure ()
  | .nowhere => pure ()

/-- Sends a response packet: the code with its top bit set, the data length, the data. -/
def sendPacket (code : UInt8) (data : Array UInt8) : Exec Unit := do
  writeByte (code ||| 0x80)
  writeByte data.size.toUInt8
  for b in data do
    writeByte b

/-- Hands a call to the screen. -/
def present (call : ScreenCall) : Exec Unit :=
  modify fun s => { s with screen := s.screen.present call }

/-- Records a swallowed fault. -/
def logAbort (f : Fault) : Exec Unit := modify fun s => s.logAbort f

end Exec

end Coprocessor
