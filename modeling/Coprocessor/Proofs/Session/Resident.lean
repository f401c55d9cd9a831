import Mathlib
import Coprocessor.Proofs.Session.Output
import Coprocessor.Proofs.Link.Channel

/-!
# Draining input held in memory

A source is resident when all its bytes already sit in memory: a queue, or a silent source.
On such a source being closed and having no byte waiting are the same thing, and a read
that waits for the timeout finds the head of the queue whenever there is one. So the loop
that runs commands while a byte is waiting (`processAll`) and the loop that runs them until
the transport closes (`run`) take the same turns: each reads the next code from the head of
the queue and dispatches it, and each stops on the empty queue. They leave the same session,
store, frame, screen, log, sink and flush count alike, and the queue drained
(`run_eq_processAll`).

For this the source must stay resident while commands run. A top-level command moves the
source only by its own reads, asking whether a byte waits and reading one
(`Exec.topCommand_readsSource`): its responses go to the sink, and the buffers it calls are
read from their snapshots, never from the transport.
-/

namespace Coprocessor

namespace Source

/-- A source whose bytes all sit in memory: a queue, or a silent source. -/
def Resident : Source → Prop
  | .queue _ => True
  | .silent => True
  | .channel .. => False

/-- One move of a source by the session's own reads: asking whether a byte waits, or a read
that waits at most the timeout. -/
def Reads (src src' : Source) : Prop := src' = src.available.2 ∨ src' = src.readTimeout.2

theorem Resident.available {src : Source} (h : src.Resident) : src.available.2.Resident := by
  cases src with
  | queue p => exact trivial
  | silent => exact trivial
  | channel => exact h.elim

theorem Resident.readTimeout {src : Source} (h : src.Resident) : src.readTimeout.2.Resident := by
  cases src with
  | queue p => cases p <;> exact trivial
  | silent => exact trivial
  | channel => exact h.elim

theorem Resident.reads {src src' : Source} (h : src.Resident)
    (hr : Relation.ReflTransGen Reads src src') : src'.Resident := by
  induction hr with
  | refl => exact h
  | tail _ hstep ih =>
    rcases hstep with rfl | rfl
    · exact ih.available
    · exact ih.readTimeout

theorem length_pending_available (src : Source) :
    src.available.2.pending.length = src.pending.length := by
  rcases src with p | _ | ⟨rx, peeked, closed⟩
  · rfl
  · rfl
  · obtain ⟨-, rx', peeked', hsrc, hpend, -⟩ := available_channel rx peeked closed
    rw [hsrc]
    simp only [pending, hpend]

theorem length_pending_readTimeout (src : Source) :
    src.readTimeout.2.pending.length ≤ src.pending.length := by
  rcases src with p | _ | ⟨rx, peeked, closed⟩
  · cases p <;> simp [readTimeout, pending]
  · exact Nat.le_refl _
  · obtain ⟨-, -, -, rx', hsrc, hqueue, -⟩ := readTimeout_channel rx peeked closed
    rw [hsrc]
    simp [pending, hqueue]

/-- Reading never adds bytes to those waiting. -/
theorem length_pending_reads {src src' : Source} (hr : Relation.ReflTransGen Reads src src') :
    src'.pending.length ≤ src.pending.length := by
  induction hr with
  | refl => exact Nat.le_refl _
  | tail _ hstep ih =>
    rcases hstep with h | h
    · rw [h, length_pending_available]
      exact ih
    · rw [h]
      exact Nat.le_trans (length_pending_readTimeout _) ih

end Source

namespace Session

/-- `s'` holds the transport's source of `s` moved on by reads only. -/
def ReadsSource (s s' : Session) : Prop :=
  Relation.ReflTransGen Source.Reads s.transport.source s'.transport.source

instance : IsPreorder Session ReadsSource where
  refl _ := Relation.ReflTransGen.refl
  trans _ _ _ h₁ h₂ := h₁.trans h₂

theorem ReadsSource.of_source_eq {s s' : Session} (h : s'.transport.source = s.transport.source) :
    ReadsSource s s' := by
  unfold ReadsSource
  rw [h]

@[simp] theorem source_send (s : Session) (v : UInt8) :
    (s.send v).transport.source = s.transport.source := by
  unfold send
  split
  · rfl
  · split <;> rfl
  · rfl

@[simp] theorem source_sendAll (s : Session) (bytes : List UInt8) :
    (s.sendAll bytes).transport.source = s.transport.source := by
  induction bytes generalizing s with
  | nil => rfl
  | cons v bytes ih => exact (ih (s.send v)).trans (source_send s v)

/-- The flush after a command touches only the sink. -/
@[simp] theorem source_flush (s : Session) : s.flush.transport.source = s.transport.source := by
  unfold flush Transport.flush
  rcases s.transport.sink.flush with ⟨_, _⟩
  rfl

/-- The dispatcher leaves the source where the command left it. -/
theorem source_dispatch (s : Session) (code : UInt8) :
    (s.dispatch code).transport.source = ((Exec.topCommand code).exec s).2.transport.source := by
  unfold dispatch Exec.exec
  rcases (Exec.topCommand code).run.run s with ⟨r, s'⟩
  dsimp only
  rw [source_flush]
  split <;> rfl

end Session

namespace Exec

open Session

/-! ## A command reads its source and nothing more -/

theorem plain_readsSource : Plain ReadsSource where
  readByte s := by
    cases hin : s.frame.input with
    | transport =>
      rw [exec_readByte_transport hin]
      exact Relation.ReflTransGen.single (.inr rfl)
    | buffer rd =>
      rw [exec_readByte_buffer hin]
      exact refl_of ReadsSource s
  modifyStore _ s := refl_of ReadsSource s
  present _ s := refl_of ReadsSource s
  output s _ := refl_of ReadsSource s

theorem sendPacket_readsSource (code : UInt8) (data : Array UInt8) :
    Moves ReadsSource (sendPacket code data) := fun s =>
  ReadsSource.of_source_eq (by rw [exec_sendPacket, source_sendAll])

theorem generalPoll_readsSource : Moves ReadsSource generalPoll :=
  plain_readsSource.readByte.bind fun _ => (sendPacket_readsSource _ _).bind fun _ =>
    Moves.of_modify fun s => refl_of ReadsSource s

/-- A frame run on a buffer leaves the transport's source as it was. -/
theorem source_enter {nested : Frame} (hn : nested.input.IsBuffer) {body : Exec Unit}
    (hb : Moves Evolves body) (s : Session) :
    ((enter nested body).exec s).2.transport.source = s.transport.source := by
  rw [exec_enter]
  exact (hb { s with frame := nested }).source hn

theorem bufferCall_readsSource {run : Frame → Exec Unit}
    (hrun : ∀ id r o d, Moves ReadsSource (run (Frame.nested id r o d))) (id : BufferId) :
    Moves ReadsSource (bufferCall run id) := by
  intro s
  -- nothing, a rewind and a refused call leave the source; a call runs a frame
  rcases bufferCall_cases run id s with
    ⟨-, h⟩ | ⟨-, -, h⟩ | ⟨b, -, -, -, -, h⟩ | ⟨b, -, -, -, -, h⟩
  · rw [h]
    exact refl_of ReadsSource s
  · rw [h]
    exact ReadsSource.of_source_eq rfl
  · rw [h]
    exact refl_of ReadsSource s
  · rw [h]
    exact hrun _ _ _ _ s

/-- A top-level command moves the transport's source only by reading it. -/
theorem topCommand_readsSource (code : UInt8) : Moves ReadsSource (topCommand code) :=
  command_moves plain_readsSource
    (bufferCall_readsSource fun _ _ _ _ s => ReadsSource.of_source_eq
      (source_enter (Frame.isBuffer_nested _ _ _ _) (runFrame_evolves _) s))
    generalPoll_readsSource code

end Exec

namespace Session

theorem readsSource_dispatch (s : Session) (code : UInt8) :
    Relation.ReflTransGen Source.Reads s.transport.source (s.dispatch code).transport.source := by
  rw [source_dispatch]
  exact Exec.topCommand_readsSource code s

/-! ## One turn of either loop -/

/-- On a resident source the two loops agree on one turn: both stop where they are on an
empty queue, and otherwise both dispatch the code at its head with the rest queued. -/
theorem turn_of_resident {s : Session} (h : s.transport.source.Resident) :
    (s.transport.isClosed = true ∧ s.processNext = (false, s) ∧
      ∀ n, runWithin (n + 1) s = s) ∨
    ∃ code rest, s.transport.source = .queue (code :: rest) ∧
      s.processNext =
        (true, { s with transport := ⟨.queue rest, s.transport.sink⟩ }.dispatch code) ∧
      ∀ n, runWithin (n + 1) s =
        runWithin n ({ s with transport := ⟨.queue rest, s.transport.sink⟩ }.dispatch
          code) := by
  rcases s with ⟨store, ⟨src, sink⟩, screen, options, frame, initialised, aborts⟩
  cases src with
  | queue p =>
    cases p with
    | nil => exact .inl ⟨rfl, rfl, fun _ => rfl⟩
    | cons code rest => exact .inr ⟨code, rest, rfl, rfl, fun _ => rfl⟩
  | silent => exact .inl ⟨rfl, rfl, fun _ => rfl⟩
  | channel => exact h.elim

/-! ## The whole loops -/

/-- Given the same number of turns, the two loops leave a resident source's session
alike. -/
theorem processWithin_eq_runWithin (n : Nat) {s : Session} (h : s.transport.source.Resident) :
    processWithin n s = runWithin n s := by
  induction n generalizing s with
  | zero => rfl
  | succ n ih =>
    rcases turn_of_resident h with ⟨-, hp, hr⟩ | ⟨code, rest, -, hp, hr⟩
    · rw [processWithin, hp, hr]
    · rw [processWithin, hp, hr]
      -- the dispatched command reads its source, which so stays resident
      have hres : Source.Resident (.queue rest) := trivial
      exact ih (hres.reads
        (readsSource_dispatch { s with transport := ⟨.queue rest, s.transport.sink⟩ } code))

/-- With more turns than bytes waiting, the loop that runs until the transport closes ends
with a closed source. -/
theorem runWithin_closed (n : Nat) {s : Session} (h : s.transport.source.Resident)
    (hn : s.transport.source.pending.length < n) : (runWithin n s).transport.isClosed = true := by
  induction n generalizing s with
  | zero => exact absurd hn (Nat.not_lt_zero _)
  | succ n ih =>
    rcases turn_of_resident h with ⟨hclosed, -, hr⟩ | ⟨code, rest, hsrc, -, hr⟩
    · rw [hr]
      exact hclosed
    · rw [hr]
      have hreads := readsSource_dispatch
        { s with transport := ⟨.queue rest, s.transport.sink⟩ } code
      have hres : Source.Resident (.queue rest) := trivial
      refine ih (hres.reads hreads) ?_
      have hrest : rest.length < n := by
        rw [hsrc] at hn
        simpa [Source.pending] using hn
      exact Nat.lt_of_le_of_lt (Source.length_pending_reads hreads) hrest

end Session

/-- On a transport whose input sits in memory, a queue or a silent source, with any sink,
store, options and queued bytes, running until the transport closes leaves exactly the
session that running while bytes are waiting leaves: the same store, frame, general-poll
flag, remaining input, sink, screen calls, logged faults and flush count. Both stop on the
empty queue. -/
theorem run_eq_processAll (s : Session) (h : s.transport.source.Resident) :
    s.run = s.processAll ∧ s.run.transport.isClosed = true := by
  have hlen : s.transport.source.pending.length < s.backlog + 1 := by
    rcases s with ⟨store, ⟨src, sink⟩, screen, options, frame, initialised, aborts⟩
    cases src <;> simp [Session.backlog, Source.pending]
  exact ⟨(Session.processWithin_eq_runWithin _ h).symm, Session.runWithin_closed _ h hlen⟩

/-- Both loops over a queued plain code followed by a truncated buffered command. -/
theorem run_eq_processAll_truncated :
    let s := Session.create .ample (Transport.memory [0x41, 0x17, 0x00, 0xA0]) (.recorder #[]) {}
    s.transport.source.Resident ∧ s.run = s.processAll ∧ s.run.transport.isClosed = true :=
  ⟨trivial, run_eq_processAll _ trivial⟩

end Coprocessor
