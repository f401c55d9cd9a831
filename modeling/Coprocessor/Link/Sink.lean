import Coprocessor.Fault

/-!
# Byte sinks

Where the responses of a session go.

* A collecting sink keeps every byte in memory.
* A writer sink hands bytes to a host writer. When the writer refuses a byte, or the sink
  is closed, the sink lets go of the writer, and every later write or flush fails as
  closed. A flush that reaches the writer is counted, whether it succeeds or not.
* A discarding sink drops every byte.
* A channel sink sends bytes to the host's receiver, and fails as closed once the host
  has dropped it.
-/

namespace Coprocessor

/-- A host writer. It accepts bytes until it has taken its quota, if it has one, and then
refuses every byte; when its flushes fail, each of them fails. -/
structure Writer where
  received : Array UInt8 := #[]
  accepted : Nat := 0
  quota : Option Nat := none
  flushFails : Bool := false
  flushes : Nat := 0
  deriving DecidableEq, Repr

namespace Writer

/-- Whether the writer takes one more byte. -/
def accepts (w : Writer) : Bool :=
  match w.quota with
  | some q => w.accepted < q
  | none => true

/-- Hands the writer a byte, or gives `none` when it refuses it. -/
def write? (w : Writer) (value : UInt8) : Option Writer :=
  if w.accepts then some { w with received := w.received.push value, accepted := w.accepted + 1 }
  else none

/-- Flushes the writer, counting the flush, and tells whether it succeeded. -/
def flush (w : Writer) : Bool × Writer :=
  (!w.flushFails, { w with flushes := w.flushes + 1 })

end Writer

/-- A sink for output bytes. -/
inductive Sink
  | collect (written : Array UInt8)
  | writer (w : Writer) (attached : Bool)
  | discard
  | channel (waiting : Array UInt8) (receiverAlive : Bool)
  deriving DecidableEq, Repr

namespace Sink

/-- The fault of writing to a sink that is gone. -/
def closedFault : Fault := ⟨.write, .closed⟩

/-- Writes one byte. -/
def write (s : Sink) (value : UInt8) : Except Fault Unit × Sink :=
  match s with
  | .collect written => (.ok (), .collect (written.push value))
  | .writer w true =>
    match w.write? value with
    | some w => (.ok (), .writer w true)
    | none => (.error closedFault, .writer w false)
  | .writer w false => (.error closedFault, .writer w false)
  | .discard => (.ok (), .discard)
  | .channel waiting true => (.ok (), .channel (waiting.push value) true)
  | .channel waiting false => (.error closedFault, .channel waiting false)

/-- Pushes written bytes on to their final target. Only a writer sink does anything. -/
def flush (s : Sink) : Except Fault Unit × Sink :=
  match s with
  | .writer w true =>
    let (ok, w) := w.flush
    (if ok then .ok () else .error closedFault, .writer w true)
  | .writer w false => (.error closedFault, .writer w false)
  | s => (.ok (), s)

/-- Takes the bytes the host has received so far, leaving none. -/
def take (s : Sink) : Array UInt8 × Sink :=
  match s with
  | .collect written => (written, .collect #[])
  | .writer w attached => (w.received, .writer { w with received := #[] } attached)
  | .discard => (#[], .discard)
  | .channel waiting alive => (waiting, .channel #[] alive)

/-- The bytes received so far, without taking them. -/
def received : Sink → Array UInt8
  | .collect written => written
  | .writer w _ => w.received
  | .discard => #[]
  | .channel waiting _ => waiting

/-- Lets go of a writer sink's writer; later writes fail. -/
def close : Sink → Sink
  | .writer w _ => .writer w false
  | s => s

/-- Whether a writer sink has let go of its writer. -/
def isClosed : Sink → Bool
  | .writer _ attached => !attached
  | _ => false

/-- Drops the host's receiver of a channel sink: what was waiting is lost, and later
writes fail. -/
def dropReceiver : Sink → Sink
  | .channel _ _ => .channel #[] false
  | s => s

/-- How many times the host writer was flushed. -/
def flushes : Sink → Nat
  | .writer w _ => w.flushes
  | _ => 0

/-- Starts the count of host writer flushes again from zero. -/
def resetFlushes : Sink → Sink
  | .writer w attached => .writer { w with flushes := 0 } attached
  | s => s

end Sink

end Coprocessor
