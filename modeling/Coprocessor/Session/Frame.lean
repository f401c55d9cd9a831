import Coprocessor.BufferId
import Coprocessor.Store.Reader

/-!
# Frames

A frame is one level of command execution. The top-level frame reads from the transport;
a buffer call runs a nested frame that reads the called buffer through a reader. Each
frame sends its responses to its current output, and setting the output to the default
id brings back the output the frame started with.

A nested frame starts with its caller's current output, one level deeper, and carries the
id of the buffer it runs, so that a call of that id restarts it instead of nesting.
-/

namespace Coprocessor

/-- Where a frame sends its responses. -/
inductive Output
  | transport
  | buffer (id : BufferId)
  | nowhere
  deriving DecidableEq, Repr

/-- Where a frame reads its commands. -/
inductive Input
  | transport
  | buffer (reader : Reader)
  deriving DecidableEq, Repr

/-- One level of command execution. -/
structure Frame where
  input : Input := .transport
  output : Output := .transport
  originalOutput : Output := .transport
  id : BufferId := BufferId.none
  depth : Nat := 0
  deriving DecidableEq, Repr

namespace Frame

/-- The top-level frame: it reads the transport, answers on it, and runs no buffer. -/
def top : Frame := {}

/-- A frame running a buffer through a reader, sending to an output, at a depth. -/
def nested (id : BufferId) (reader : Reader) (output : Output) (depth : Nat) : Frame where
  input := .buffer reader
  output := output
  originalOutput := output
  id := id
  depth := depth

/-- Restarts a buffer frame from its first byte. -/
def rewind (f : Frame) : Frame :=
  match f.input with
  | .buffer r => { f with input := .buffer r.rewind }
  | .transport => f

end Frame

end Coprocessor
