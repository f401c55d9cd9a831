import Coprocessor.Link.Source
import Coprocessor.Link.Sink

/-!
# Transports

A transport joins a source of input bytes and a sink for responses. Reading goes to the
source and writing to the sink; the transport is closed when its source is.
-/

namespace Coprocessor

/-- A source and a sink. -/
structure Transport where
  source : Source
  sink : Sink
  deriving DecidableEq, Repr

namespace Transport

/-- Bytes queued in memory, with the responses collected in memory. -/
def memory (initial : List UInt8) : Transport := ⟨.queue initial, .collect #[]⟩

/-- Bytes queued in memory, with the responses handed to a host writer. -/
def toWriter (initial : List UInt8) (w : Writer) : Transport := ⟨.queue initial, .writer w true⟩

/-- Bytes queued in memory, with the responses dropped. -/
def toVoid (initial : List UInt8) : Transport := ⟨.queue initial, .discard⟩

/-- A silent source and a discarding sink. -/
def void : Transport := ⟨.silent, .discard⟩

/-- A channel pair with a host on the other end, both directions open. -/
def channel : Transport := ⟨.channel {} none false, .channel #[] true⟩

/-- Whether a byte can be read without waiting. -/
def available (t : Transport) : Bool × Transport :=
  let (b, source) := t.source.available
  (b, { t with source })

/-- A read that waits at most the comms timeout. -/
def readTimeout (t : Transport) : Except Fault UInt8 × Transport :=
  let (r, source) := t.source.readTimeout
  (r, { t with source })

/-- A read that waits as long as it takes; `none` where it would wait for good. -/
def read? (t : Transport) : Option (Except Fault UInt8 × Transport) :=
  t.source.read?.map fun (r, source) => (r, { t with source })

/-- Whether no more bytes will arrive. -/
def isClosed (t : Transport) : Bool := t.source.isClosed

/-- Writes one byte to the sink. -/
def write (t : Transport) (value : UInt8) : Except Fault Unit × Transport :=
  let (r, sink) := t.sink.write value
  (r, { t with sink })

/-- Flushes the sink. -/
def flush (t : Transport) : Except Fault Unit × Transport :=
  let (r, sink) := t.sink.flush
  (r, { t with sink })

end Transport

end Coprocessor
