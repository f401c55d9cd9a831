import Coprocessor.Session.Decode

/-!
# Running a session

The top level reads command codes from the transport. Each top-level command runs to its
end, nested calls included; a fault that stops it is logged, and the transport is flushed
once after it, whatever the outcome.

`processAll` runs commands while a byte is waiting; `run` runs them until the transport
closes, reading with the comms timeout and stopping at the first read that fails for
another reason than a timeout. Every top-level command reads at least its code, so both
loops are bounded by the bytes waiting when they start.
-/

namespace Coprocessor

/-- What the host has received since it last looked: response bytes, screen calls,
swallowed faults and writer flushes. -/
structure Report where
  output : Array UInt8
  screen : Array ScreenCall
  aborts : Array Fault
  flushes : Nat
  deriving Repr

namespace Session

/-- Flushes the transport, ignoring a failure. -/
def flush (s : Session) : Session := { s with transport := s.transport.flush.2 }

/-- Runs one top-level command given its code, logs the fault that stopped it, if any,
and flushes the transport. -/
def dispatch (s : Session) (code : UInt8) : Session :=
  let (r, s) := (Exec.topCommand code).run.run s
  let s := match r with
    | .error (.fault f) => s.logAbort f
    | _ => s
  s.flush

/-- Runs one top-level command if a byte is waiting, telling whether one was. -/
def processNext (s : Session) : Bool × Session :=
  let (ready, transport) := s.transport.available
  let s := { s with transport }
  if ready then
    match s.transport.read? with
    | some (.ok code, transport) => (true, { s with transport }.dispatch code)
    | some (.error f, transport) => (true, { s with transport }.logAbort f)
    | none => (true, s)
  else (false, s)

/-- Runs top-level commands while bytes are waiting, at most a number of times. -/
def processWithin : Nat → Session → Session
  | 0, s => s
  | n + 1, s =>
    match s.processNext with
    | (true, s) => processWithin n s
    | (false, s) => s

/-- The number of input bytes already waiting in the source. -/
def backlog (s : Session) : Nat :=
  match s.transport.source with
  | .queue pending => pending.length
  | .channel rx peeked _ => peeked.toList.length + rx.queue.length
  | .silent => 0

/-- Runs top-level commands until no byte is waiting. -/
def processAll (s : Session) : Session := processWithin (s.backlog + 1) s

/-- Runs top-level commands until the transport closes or a read fails for another
reason than a timeout, at most a number of times. -/
def runWithin : Nat → Session → Session
  | 0, s => s
  | n + 1, s =>
    if s.transport.isClosed then s
    else
      match s.transport.readTimeout with
      | (.ok code, transport) => runWithin n ({ s with transport }.dispatch code)
      | (.error f, transport) =>
        if f.cause = .timeout then runWithin n { s with transport }
        else { s with transport }

/-- Runs top-level commands until the transport closes. -/
def run (s : Session) : Session := runWithin (s.backlog + 1) s

/-- Takes what the host has received since it last looked. -/
def collect (s : Session) : Report × Session :=
  let (output, sink) := s.transport.sink.take
  let (flushes, sink) := (sink.flushes, sink.resetFlushes)
  let (screen, scr) := s.screen.take
  (⟨output, screen, s.aborts, flushes⟩,
    { s with transport := { s.transport with sink }, screen := scr, aborts := #[] })

end Session

end Coprocessor
