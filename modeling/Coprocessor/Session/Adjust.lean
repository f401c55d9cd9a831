import Coprocessor.Adjust
import Coprocessor.Session.Basic

/-!
# Adjusting buffer bytes

An adjust command applies a byte operation to bytes of a buffer. Without the run flags,
one target byte is adjusted by one operand. A run of targets adjusts `count` consecutive
bytes; a run of operands takes `count` consecutive operands and, unless the targets run
too, folds them all into the one target. The carry of add-with-carry ripples from step to
step and the last carry is stored after the last target, at `offset + count`.

Operands are immediate bytes of the command stream, bytes of an operand buffer, or zero
for the operations that take none. A failed lookup stops the command; the bytes already
stored stay stored, and the immediate operand bytes not yet read are skipped, so that the
stream stays in step.
-/

namespace Coprocessor

/-- Where an adjust command takes its operands from. -/
inductive OperandSource
  | none
  | immediate
  | buffer (id : BufferId) (offset : Nat)
  deriving DecidableEq, Repr

namespace Exec

/-- Takes the value of a store lookup made by an adjust command. When the lookup fails,
the `pending` immediate operand bytes are skipped and the command stops with the fault. -/
def adjustLookup {α : Type} (pending : Nat) (r : Except Fault α) : Exec α :=
  match r with
  | .ok a => pure a
  | .error f => do
    within .adjust (discard pending)
    fail (f.during .adjust)

/-- The operand at step `i`, and the immediate operand bytes still unread after it. -/
def nextOperand (source : OperandSource) (i pending : Nat) : Exec (UInt8 × Nat) :=
  match source with
  | .none => pure (0, pending)
  | .immediate => do
    let b ← within .adjust readByte
    pure (b, pending - 1)
  | .buffer id offset => do
    let b ← adjustLookup pending ((← store).getByte id (offset + i))
    pure (b, pending)

/-- The steps of an adjust command from step `i`, with `k` steps left. It carries the
value, the carry and the count of unread immediate operand bytes, and gives them back
at the end. -/
def adjustSteps (op : AdjustOp) (cmd : AdjustCommand) (id : BufferId) (offset : Nat)
    (source : OperandSource) (single : UInt8) :
    Nat → Nat → UInt8 → UInt8 → Nat → Exec (UInt8 × UInt8 × Nat)
  | _, 0, value, carry, pending => pure (value, carry, pending)
  | i, k + 1, value, carry, pending => do
    let value ← if cmd.multiTarget then adjustLookup pending ((← store).getByte id (offset + i))
      else pure value
    let (operand, pending) ← if cmd.multiOperand then nextOperand source i pending
      else pure (single, pending)
    let (value, carry) := op.apply value operand carry
    if cmd.multiTarget then
      let loc ← adjustLookup pending ((← store).locate id (offset + i))
      modifyStore (·.poke loc value)
    adjustSteps op cmd id offset source single (i + 1) k value carry pending

/-- Runs a decoded adjust operation over `count` steps, with `pending` immediate operand
bytes to read, and gives the count still unread at the end. -/
def adjustRun (op : AdjustOp) (cmd : AdjustCommand) (id : BufferId) (offset count : Nat)
    (source : OperandSource) (pending : Nat) : Exec Nat := do
  let value ← if cmd.multiTarget then pure 0
    else adjustLookup pending ((← store).getByte id offset)
  let (single, pending) ← if cmd.hasOperand && !cmd.multiOperand then nextOperand source 0 pending
    else pure (0, pending)
  let (value, carry, pending) ← adjustSteps op cmd id offset source single 0 count value 0 pending
  if !cmd.multiTarget then
    let loc ← adjustLookup pending ((← store).locate id offset)
    modifyStore (·.poke loc value)
  if op = .addCarry then
    let loc ← adjustLookup pending ((← store).locate id (offset + count))
    modifyStore (·.poke loc carry)
  pure pending

/-- Decodes and runs an adjust command on a buffer. -/
def bufferAdjust (id : BufferId) : Exec Unit := do
  let cmd := AdjustCommand.ofByte (← within .adjust readByte)
  let offset ← within .adjust (readOffset cmd.wide)
  let count ← if cmd.hasCount then within .adjust (readOffset cmd.wide) else pure 1
  let source ← if !cmd.hasOperand then pure OperandSource.none
    else if cmd.bufferOperand then do
      let opId ← within .adjust readWord
      let opOffset ← within .adjust (readOffset cmd.wide)
      pure (OperandSource.buffer ⟨opId⟩ opOffset)
    else pure OperandSource.immediate
  let pending := if source = .immediate then (if cmd.multiOperand then count else 1) else 0
  let pending ← match cmd.op? with
    | some op => adjustRun op cmd id offset count source pending
    | none => pure pending
  within .adjust (discard pending)

end Exec

end Coprocessor
