import Mathlib
import Coprocessor.Proofs.Exec

/-!
# Commands by what they are made of

Most of what a command does is made of four things: reading a byte, changing the store,
handing a call to the screen and redirecting the frame's output. A relation that each of
them moves the session by (`Exec.Plain`) is moved by every command made only of them,
whatever bytes it reads: the reads of numbers and payloads, the write, clear and create of
a buffer, set-output, and the adjust command with its loops. The commands that call
buffers, and the video commands with their general poll, are moved by it as well, given
that the calls and the poll are (`Exec.command_moves`).

A fact about what commands change is then proved once for the four primitives, and apart
only for the calls and the decode loop, where relations differ.
-/

namespace Coprocessor

namespace Exec

/-- A relation that reading a byte, changing the store, handing a call to the screen and
redirecting the frame's output each move the session by. -/
structure Plain (R : Session → Session → Prop) : Prop where
  readByte : Moves R readByte
  modifyStore : ∀ g, Moves R (modifyStore g)
  present : ∀ c, Moves R (present c)
  output : ∀ (s : Session) o, R s { s with frame := { s.frame with output := o } }

section Plain

variable {R : Session → Session → Prop} [IsPreorder Session R] (hR : Plain R)
include hR

/-! ## Reading -/

theorem readWord_moves : Moves R readWord :=
  hR.readByte.bind fun _ => hR.readByte.bind fun _ => Moves.of_pure _

theorem readOffset_moves (wide : Bool) : Moves R (readOffset wide) := by
  unfold readOffset readTriple
  split
  · exact hR.readByte.bind fun _ => hR.readByte.bind fun _ =>
      hR.readByte.bind fun _ => Moves.of_pure _
  · exact (readWord_moves hR).bind fun _ => Moves.of_pure _

theorem readInto_moves (n : Nat) (acc : Array UInt8) : Moves R (readInto acc n) := by
  induction n generalizing acc with
  | zero => exact Moves.of_pure _
  | succ n ih => exact hR.readByte.bind fun b => ih (acc.push b)

theorem readBytes_moves (n : Nat) : Moves R (readBytes n) := readInto_moves hR n #[]

theorem discard_moves (n : Nat) : Moves R (discard n) := by
  induction n with
  | zero => exact Moves.of_pure _
  | succ n ih => exact hR.readByte.bind fun _ => ih

/-! ## Buffered commands that call nothing -/

theorem bufferWrite_moves (id : BufferId) : Moves R (bufferWrite id) := by
  unfold bufferWrite
  repeat' first
    | with_reducible exact readWord_moves hR
    | with_reducible exact discard_moves hR _
    | with_reducible exact readBytes_moves hR _
    | with_reducible exact hR.modifyStore _
    | with_reducible exact Moves.of_check _
    | with_reducible exact Moves.of_store
    | with_reducible exact Moves.of_allocator
    | with_reducible exact Moves.of_fail _
    | refine Moves.within _ ?_
    | refine Moves.bind ?_ fun _ => ?_
    | split

omit [IsPreorder Session R] in
theorem bufferClear_moves (id : BufferId) : Moves R (bufferClear id) := hR.modifyStore _

theorem bufferCreate_moves (id : BufferId) : Moves R (bufferCreate id) :=
  (Moves.within _ (readWord_moves hR)).bind fun _ => Moves.of_allocator.bind fun _ =>
    (Moves.of_check _).bind fun _ => hR.modifyStore _

theorem setOutput_moves (id : BufferId) : Moves R (setOutput id) := by
  unfold setOutput
  refine Moves.frame_bind fun s => ?_
  rw [exec_store_bind]
  -- every way through either redirects the frame's output or stops with nothing changed
  split
  · exact hR.output s _
  · exact hR.output s _
  · split
    · exact hR.output s _
    · split <;> exact refl_of R s

/-! ## The adjust command -/

theorem adjustLookup_moves {α : Type} (pending : Nat) (r : Except Fault α) :
    Moves R (adjustLookup pending r) := by
  unfold adjustLookup
  split
  · exact Moves.of_pure _
  · exact (Moves.within _ (discard_moves hR _)).bind fun _ => Moves.of_fail _

theorem nextOperand_moves (source : OperandSource) (i pending : Nat) :
    Moves R (nextOperand source i pending) := by
  unfold nextOperand
  split
  · exact Moves.of_pure _
  · exact (Moves.within _ hR.readByte).bind fun _ => Moves.of_pure _
  · exact Moves.of_store.bind fun _ => (adjustLookup_moves hR _ _).bind fun _ => Moves.of_pure _

theorem adjustSteps_moves (op : AdjustOp) (cmd : AdjustCommand) (id : BufferId)
    (offset : Nat) (source : OperandSource) (single : UInt8) (i k : Nat) (value carry : UInt8)
    (pending : Nat) :
    Moves R (adjustSteps op cmd id offset source single i k value carry pending) := by
  induction k generalizing i value carry pending with
  | zero => exact Moves.of_pure _
  | succ k ih =>
    unfold adjustSteps
    dsimp only
    -- one step reads its operand and stores its result, whatever the run flags; the rest
    -- of the run is the induction hypothesis
    repeat' first
      | with_reducible exact ih _ _ _ _
      | with_reducible exact nextOperand_moves hR _ _ _
      | with_reducible exact adjustLookup_moves hR _ _
      | with_reducible exact hR.modifyStore _
      | with_reducible exact Moves.of_store
      | with_reducible exact Moves.of_pure _
      | refine Moves.bind ?_ fun _ => ?_
      | split

theorem adjustRun_moves (op : AdjustOp) (cmd : AdjustCommand) (id : BufferId)
    (offset count : Nat) (source : OperandSource) (pending : Nat) :
    Moves R (adjustRun op cmd id offset count source pending) := by
  unfold adjustRun
  dsimp only
  repeat' first
    | with_reducible exact adjustSteps_moves hR _ _ _ _ _ _ _ _ _ _ _
    | with_reducible exact nextOperand_moves hR _ _ _
    | with_reducible exact adjustLookup_moves hR _ _
    | with_reducible exact hR.modifyStore _
    | with_reducible exact Moves.of_store
    | with_reducible exact Moves.of_pure _
    | refine Moves.bind ?_ fun _ => ?_
    | split

theorem bufferAdjust_moves (id : BufferId) : Moves R (bufferAdjust id) := by
  unfold bufferAdjust
  dsimp only
  repeat' first
    | with_reducible exact hR.readByte
    | with_reducible exact readWord_moves hR
    | with_reducible exact readOffset_moves hR _
    | with_reducible exact discard_moves hR _
    | with_reducible exact adjustRun_moves hR _ _ _ _ _ _ _
    | with_reducible exact Moves.of_pure _
    | refine Moves.within _ ?_
    | refine Moves.bind ?_ fun _ => ?_
    | split

/-! ## Commands that call buffers or answer the poll -/

section Calls

variable {run : Frame → Exec Unit} (hcall : ∀ id, Moves R (bufferCall run id))
include hcall

theorem bufferConditional_moves (id : BufferId) : Moves R (bufferConditional run id) := by
  unfold bufferConditional
  dsimp only
  -- the operands are read first, the lookups change nothing, and the call is a call
  repeat' first
    | with_reducible exact hR.readByte
    | with_reducible exact readWord_moves hR
    | with_reducible exact readOffset_moves hR _
    | with_reducible exact hcall _
    | with_reducible exact Moves.of_store
    | with_reducible exact Moves.of_ofExcept _
    | with_reducible exact Moves.of_pure _
    | refine Moves.within _ ?_
    | refine Moves.bind ?_ fun _ => ?_
    | split

theorem buffered_moves : Moves R (buffered run) := by
  unfold buffered
  refine (readWord_moves hR).bind fun w => hR.readByte.bind fun sub => ?_
  split
  · exact bufferWrite_moves hR _
  · exact hcall _
  · exact bufferClear_moves hR _
  · exact bufferCreate_moves hR _
  · exact setOutput_moves hR _
  · exact bufferAdjust_moves hR _
  · exact bufferConditional_moves hR hcall _
  · exact Moves.of_pure _

variable (hpoll : Moves R generalPoll)
include hpoll

theorem video_moves : Moves R (video run) :=
  hR.readByte.bind fun _ => Moves.ite hpoll (Moves.ite (buffered_moves hR hcall) (Moves.of_pure _))

theorem system_moves : Moves R (system run) := by
  unfold system
  refine hR.readByte.bind fun mode => Moves.ite (video_moves hR hcall hpoll) ?_
  exact Moves.ite ((readBytes_moves hR _).bind fun _ => hR.present _)
    (Moves.ite ((readBytes_moves hR _).bind fun _ => hR.present _) (hR.present _))

/-- Every command moves the session by a relation that its primitives, its calls and the
general poll move it by. -/
theorem command_moves (code : UInt8) : Moves R (command run code) :=
  Moves.ite (system_moves hR hcall hpoll) ((readBytes_moves hR _).bind fun _ => hR.present _)

end Calls

end Plain

end Exec

end Coprocessor
