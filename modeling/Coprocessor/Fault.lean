import Coprocessor.BufferId

/-!
# Faults

A fault names the operation that failed and its cause. Its message is
"<operation> failed; <cause>", built from one text per operation and per cause. Only a
call depth overflow ends a whole command chain; every other fault is recoverable, and the
decode loop carries on with the next command.
-/

namespace Coprocessor

/-- The operation during which a fault arose. -/
inductive Operation
  | unknown
  | read
  | write
  | bufferWrite
  | call
  | clear
  | create
  | setOutput
  | adjust
  | conditional
  | lookup
  deriving DecidableEq, Repr

/-- How an operation is named in a fault message. -/
def Operation.describe : Operation → String
  | .unknown => "unknown operation"
  | .read => "read from input"
  | .write => "write to output"
  | .bufferWrite => "buffer write"
  | .call => "buffer call"
  | .clear => "buffer clear"
  | .create => "buffer create"
  | .setOutput => "set output"
  | .adjust => "buffer adjust"
  | .conditional => "conditional call"
  | .lookup => "buffer lookup"

/-- Why an operation failed. Ids are named by their raw value. -/
inductive Cause
  | timeout
  | endOfStream
  | closed
  | notFound (id : BufferId)
  | outOfRange (id : BufferId) (offset : Nat)
  | reserved (id : BufferId)
  | alreadyExists (id : BufferId)
  | readOnly (id : BufferId)
  | allocation (size : Nat)
  | depthExceeded (limit : Nat)
  deriving DecidableEq, Repr

/-- How a cause is named in a fault message. -/
def Cause.describe : Cause → String
  | .timeout => "timed out waiting for input"
  | .endOfStream => "premature end-of-stream"
  | .closed => "transport closed"
  | .notFound id => "buffer " ++ toString id.raw.toNat ++ " not found"
  | .outOfRange id offset =>
    "offset " ++ toString offset ++ " is out of range for buffer " ++ toString id.raw.toNat
  | .reserved id => "buffer id " ++ toString id.raw.toNat ++ " is reserved"
  | .alreadyExists id => "buffer " ++ toString id.raw.toNat ++ " already exists"
  | .readOnly id => "buffer " ++ toString id.raw.toNat ++ " is not writable"
  | .allocation size => "could not allocate " ++ toString size ++ " bytes"
  | .depthExceeded limit => "call depth exceeded the limit of " ++ toString limit

/-- Only a call depth overflow stops the command chain it arises in. -/
def Cause.isRecoverable : Cause → Bool
  | .depthExceeded _ => false
  | _ => true

/-- A lookup failure: the buffer is missing or the offset lies past its end. -/
def Cause.isLookupFailure : Cause → Bool
  | .notFound _ => true
  | .outOfRange _ _ => true
  | _ => false

/-- A failed operation and its cause. -/
structure Fault where
  operation : Operation
  cause : Cause
  deriving DecidableEq, Repr

namespace Fault

/-- The text of a fault: the operation, then the cause. -/
def message (f : Fault) : String :=
  f.operation.describe ++ " failed; " ++ f.cause.describe

/-- Whether the decode loop may carry on after this fault. -/
def isRecoverable (f : Fault) : Bool :=
  f.cause.isRecoverable

/-- The same cause, charged to another operation. -/
def during (f : Fault) (operation : Operation) : Fault :=
  { f with operation }

end Fault

/-- Charges the fault of a failed result to another operation. -/
def chargeTo {α : Type} (operation : Operation) (r : Except Fault α) : Except Fault α :=
  match r with
  | .ok a => .ok a
  | .error f => .error (f.during operation)

end Coprocessor
