import Coprocessor.Fault

/-!
# Byte sources

Where the input bytes of a session come from.

* A queue holds bytes in memory. It is closed once drained; reading it empty is an end of
  stream, or a timeout for a read that waits.
* A silent source never delivers a byte and is always closed.
* A channel source receives what a host sends over a channel. It keeps a slot for one
  byte taken off the channel ahead of a read, when asked whether a byte waits, and a flag
  set when a receive finds the host's sender gone and the channel drained.

The channel itself is used from one thread: a receive takes the oldest byte sent, finds
nothing while the sender is alive, and reports the disconnection once the sender is gone
and every byte sent before has been received. Waiting for a byte with a timeout on an empty
live channel times out, and waiting without one would wait for good.
-/

namespace Coprocessor

/-- The receiving end of the host's byte channel: the bytes sent and not yet received, and
whether the host's sender is alive. -/
structure Mpsc where
  queue : List UInt8 := []
  senderAlive : Bool := true
  deriving DecidableEq, Repr

/-- What a receive finds: the next byte, nothing yet, or a drained channel whose sender is
gone. -/
inductive Received
  | byte (b : UInt8)
  | empty
  | disconnected
  deriving DecidableEq, Repr

namespace Mpsc

/-- Receives the next byte without waiting. -/
def tryRecv (rx : Mpsc) : Received × Mpsc :=
  match rx.queue with
  | b :: rest => (.byte b, { rx with queue := rest })
  | [] => (if rx.senderAlive then .empty else .disconnected, rx)

/-- Sends bytes from the host; `none` once the sender is gone. -/
def send? (rx : Mpsc) (bytes : List UInt8) : Option Mpsc :=
  if rx.senderAlive then some { rx with queue := rx.queue ++ bytes } else none

end Mpsc

/-- A source of input bytes. -/
inductive Source
  | queue (pending : List UInt8)
  | silent
  | channel (rx : Mpsc) (peeked : Option UInt8) (closed : Bool)
  deriving DecidableEq, Repr

namespace Source

/-- Whether a byte can be read without waiting. A channel source with no byte in its slot
receives one into it; finding the channel drained with its sender gone marks it closed. -/
def available : Source → Bool × Source
  | .queue pending => (!pending.isEmpty, .queue pending)
  | .silent => (false, .silent)
  | .channel rx (some b) closed => (true, .channel rx (some b) closed)
  | .channel rx none closed =>
    match rx.tryRecv with
    | (.byte b, rx) => (true, .channel rx (some b) closed)
    | (.empty, rx) => (false, .channel rx none closed)
    | (.disconnected, rx) => (false, .channel rx none true)

/-- A read that waits at most the comms timeout. A channel source takes the byte in its slot
first. -/
def readTimeout : Source → Except Fault UInt8 × Source
  | .queue (b :: rest) => (.ok b, .queue rest)
  | .queue [] => (.error ⟨.read, .timeout⟩, .queue [])
  | .silent => (.error ⟨.read, .timeout⟩, .silent)
  | .channel rx (some b) closed => (.ok b, .channel rx none closed)
  | .channel rx none closed =>
    match rx.tryRecv with
    | (.byte b, rx) => (.ok b, .channel rx none closed)
    | (.empty, rx) => (.error ⟨.read, .timeout⟩, .channel rx none closed)
    | (.disconnected, rx) => (.error ⟨.read, .closed⟩, .channel rx none true)

/-- A read that waits as long as it takes. It gives `none` on an open, empty channel,
where such a read would wait for a byte that has not been sent. -/
def read? : Source → Option (Except Fault UInt8 × Source)
  | .queue (b :: rest) => some (.ok b, .queue rest)
  | .queue [] => some (.error ⟨.read, .endOfStream⟩, .queue [])
  | .silent => some (.error ⟨.read, .endOfStream⟩, .silent)
  | .channel rx (some b) closed => some (.ok b, .channel rx none closed)
  | .channel rx none closed =>
    match rx.tryRecv with
    | (.byte b, rx) => some (.ok b, .channel rx none closed)
    | (.empty, _) => none
    | (.disconnected, rx) => some (.error ⟨.read, .closed⟩, .channel rx none true)

/-- Whether no more bytes will ever arrive: a channel source once marked closed with no
byte left in its slot. -/
def isClosed : Source → Bool
  | .queue pending => pending.isEmpty
  | .silent => true
  | .channel _ peeked closed => closed && peeked.isNone

/-- The number of bytes left in a queue; other sources do not count theirs. -/
def remaining? : Source → Option Nat
  | .queue pending => some pending.length
  | _ => none

/-- Sends bytes into the source from the host: queued, or sent over a live channel.
A silent source and a channel whose sender is gone take none. -/
def push? (s : Source) (bytes : List UInt8) : Option Source :=
  match s with
  | .queue pending => some (.queue (pending ++ bytes))
  | .silent => none
  | .channel rx peeked closed => (rx.send? bytes).map (.channel · peeked closed)

/-- Drops the host's sender of a channel. -/
def closeSender : Source → Source
  | .channel rx peeked closed => .channel { rx with senderAlive := false } peeked closed
  | s => s

/-- Whether the host's sender of a channel is alive. -/
def senderAlive : Source → Bool
  | .channel rx _ _ => rx.senderAlive
  | _ => false

end Source

end Coprocessor
