import Coprocessor.Session.Basic

/-!
# Buffered commands

The commands that act on the buffer store from the command stream: write a segment, call
a buffer, clear, create, and redirect output.

A write of a payload to a non-reserved id appends one read-only segment holding exactly
the payload. Its bytes are read even when they are dropped, because the id is reserved,
the store has no room or the allocator refuses the payload's block, so that the stream
stays in step.

A call runs the called buffer as a nested frame, over the segments the buffer holds when
the call starts; how a nested frame is run is given as an argument, so that these
commands say nothing of the decode loop. Calling no buffer or a missing buffer does
nothing, calling the buffer being run restarts it, and a call one level past the depth
limit fails with a fault that no frame swallows.
-/

namespace Coprocessor

namespace Exec

/-- Appends the next `len` bytes of input as a new segment of a buffer. -/
def bufferWrite (id : BufferId) : Exec Unit := do
  let len := (← within .bufferWrite readWord).toNat
  if id.isReserved then
    within .bufferWrite (discard len)
  else
    match (← store).checkCapacity len with
    | .ok () =>
      if (← allocator).grants len then
        let data ← within .bufferWrite (readBytes len)
        check (·.checkAppend .bufferWrite id data.size)
        modifyStore (·.appendReadOnly id data)
      else
        within .bufferWrite (discard len)
        fail ⟨.bufferWrite, .allocation len⟩
    | .error _ =>
      within .bufferWrite (discard len)
      fail ⟨.bufferWrite, .allocation len⟩

/-- Calls a buffer, running it as a nested frame with `run`. -/
def bufferCall (run : Frame → Exec Unit) (id : BufferId) : Exec Unit := do
  let caller ← frame
  if id = BufferId.none then
    pure ()
  else if id = caller.id then
    setFrame caller.rewind
  else
    let s ← get
    match s.store.find? id with
    | none => pure ()
    | some b =>
      let depth := caller.depth + 1
      if depth > s.options.maxCallDepth then
        fail ⟨.call, .depthExceeded s.options.maxCallDepth⟩
      else
        run (Frame.nested id (Reader.ofBuffer b) caller.output depth)

/-- Removes a buffer, or every buffer for the id of no buffer. -/
def bufferClear (id : BufferId) : Exec Unit := do
  modifyStore fun st => if id = BufferId.none then st.clearAll else (st.clear id).2

/-- Creates a buffer holding one zeroed, writable segment of the size that follows. -/
def bufferCreate (id : BufferId) : Exec Unit := do
  let size := (← within .create readWord).toNat
  let a ← allocator
  check (·.checkCreate a id size)
  modifyStore (·.createZeroed a id size)

/-- Redirects the frame's output: nowhere for no buffer, back to where the frame started
for the default, or into a buffer whose first segment is writable. -/
def setOutput (id : BufferId) : Exec Unit := do
  let f ← frame
  let st ← store
  match id.kind with
  | .none => setFrame { f with output := .nowhere }
  | .default => setFrame { f with output := f.originalOutput }
  | .buffer =>
    if st.isOutputTarget id then setFrame { f with output := .buffer id }
    else if st.contains id then fail ⟨.setOutput, .readOnly id⟩
    else fail ⟨.setOutput, .notFound id⟩

end Exec

end Coprocessor
