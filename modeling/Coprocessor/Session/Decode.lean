import Coprocessor.Code
import Coprocessor.Session.Buffered
import Coprocessor.Session.Adjust
import Coprocessor.Session.Conditional

/-!
# The decode loop

`Exec.command` runs one command of the stream: a plain code hands its argument bytes to
the screen; the system code opens a mode, whose video commands answer the general poll
and run the buffered commands.

`Exec.runFrame` runs a nested frame until its reader is exhausted. A recoverable fault
ends only the command that raised it and is logged; a call depth overflow ends the whole
chain of frames and reaches the top level once. A frame's commands run the frames they
call through `runFrame` itself, which ties the loop together.

Calls that restart the buffer being run can loop for ever, so the loop takes a step
budget: each command of a nested frame, and each level of nesting, spends one step.
Running out stops every frame with `outOfFuel`.
-/

namespace Coprocessor

namespace Exec

/-- Answers the general poll: echoes the byte that follows in a poll packet, marks the
session initialised, and adds the poll to the history with the output it went to. -/
def generalPoll : Exec Unit := do
  let echo ← readByte
  sendPacket Code.pollPacket #[echo]
  modify fun s => { s with initialised := true, polls := s.polls ++ [⟨echo, s.frame.output⟩] }

/-- Runs a buffered command: the id, the sub-command, then the sub-command's bytes. -/
def buffered (run : Frame → Exec Unit) : Exec Unit := do
  let id : BufferId := ⟨← readWord⟩
  let sub ← readByte
  match sub.toNat with
  | 0 => bufferWrite id
  | 1 => bufferCall run id
  | 2 => bufferClear id
  | 3 => bufferCreate id
  | 4 => setOutput id
  | 5 => bufferAdjust id
  | 6 => bufferConditional run id
  | _ => pure ()

/-- Runs a video command: the general poll, a buffered command, or nothing. -/
def video (run : Frame → Exec Unit) : Exec Unit := do
  let c ← readByte
  if c = Code.generalPoll then generalPoll
  else if c = Code.buffered then buffered run
  else pure ()

/-- Runs a system command: the video commands, or a mode handed to the screen with the
bytes it takes. -/
def system (run : Frame → Exec Unit) : Exec Unit := do
  let mode ← readByte
  if mode = Code.videoMode then video run
  else if mode = Code.cursorMode then present (.sys mode (← readBytes 1))
  else if mode ≥ Code.firstGlyphMode then present (.sys mode (← readBytes Code.glyphLength))
  else present (.sys mode #[])

/-- Runs one command, given its code. -/
def command (run : Frame → Exec Unit) (code : UInt8) : Exec Unit :=
  if code = Code.system then system run
  else do present (.vdu code (← readBytes (Code.argLength code)))

/-- Runs a body in a frame, then brings back the frame it was called from, whether the
body finished or stopped. -/
def enter (nested : Frame) (body : Exec Unit) : Exec Unit := do
  let caller ← frame
  setFrame nested
  tryCatch body fun e => do
    setFrame caller
    throw e
  setFrame caller

/-- Logs a recoverable fault and passes on any other exit. -/
def recover : Interrupt → Exec Unit
  | .fault f => if f.isRecoverable then logAbort f else throw (.fault f)
  | .outOfFuel => throw .outOfFuel

/-- Runs the frame being executed until its input is exhausted, within a step budget. -/
def runFrame : Nat → Exec Unit
  | 0 => throw .outOfFuel
  | n + 1 => do
    if ← inputAvailable then
      let code ← readByte
      tryCatch (command (fun nested => enter nested (runFrame n)) code) recover
      runFrame n

/-- The step budget of one top-level command, 2^62 steps. -/
def stepBudget : Nat := 4611686018427387904

/-- Runs one top-level command, running the frames it calls within the step budget. -/
def topCommand (code : UInt8) : Exec Unit :=
  command (fun nested => enter nested (runFrame stepBudget)) code

end Exec

end Coprocessor
