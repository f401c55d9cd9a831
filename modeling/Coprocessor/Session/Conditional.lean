import Coprocessor.Condition
import Coprocessor.Session.Buffered

/-!
# Conditional calls

A conditional call reads a comparator, a byte of a buffer to test and an operand, and
calls a buffer exactly as the call command does when the comparison holds. The operand is
a byte of an operand buffer, an immediate byte of the stream, or zero for the existence
tests. The operand buffer is looked up only when the comparator takes an operand, and an
unknown comparator does nothing once its bytes are read.
-/

namespace Coprocessor

namespace Exec

/-- Decodes a conditional call and calls the buffer when the comparison holds. -/
def bufferConditional (run : Frame → Exec Unit) (id : BufferId) : Exec Unit := do
  let cmd := ConditionCommand.ofByte (← within .conditional readByte)
  let checkId : BufferId := ⟨← within .conditional readWord⟩
  let offset ← within .conditional (readOffset cmd.wide)
  let operandAt ← if cmd.bufferOperand then do
      let opId ← within .conditional readWord
      let opOffset ← within .conditional (readOffset cmd.wide)
      pure (some ((⟨opId⟩ : BufferId), opOffset))
    else pure none
  let immediate ← if cmd.hasImmediate then within .conditional readByte else pure 0
  match cmd.comparator? with
  | none => pure ()
  | some c =>
    let source ← within .conditional (ofExcept ((← store).getByte checkId offset))
    let operand ← match operandAt with
      | some (opId, opOffset) =>
        if c.hasOperand then within .conditional (ofExcept ((← store).getByte opId opOffset))
        else pure immediate
      | none => pure immediate
    if c.test source operand then bufferCall run id

end Exec

end Coprocessor
