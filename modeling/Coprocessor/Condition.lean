/-!
# Conditions

A conditional call compares a byte of a buffer with an operand and calls a buffer when the
comparison holds. Its command byte holds the comparator in the low four bits, a flag for
24-bit offsets and a flag for an operand fetched from a buffer.

"Exists" means non-zero, and the logical comparators read any non-zero byte as true.
-/

namespace Coprocessor

/-- The ten comparators. -/
inductive Comparator
  | exists_
  | notExists
  | equal
  | notEqual
  | less
  | greater
  | lessEqual
  | greaterEqual
  | and
  | or
  deriving DecidableEq, Repr

namespace Comparator

/-- Decodes a comparator code; codes from 10 on name no comparator. -/
def ofCode? (code : UInt8) : Option Comparator :=
  match code.toNat with
  | 0 => some .exists_
  | 1 => some .notExists
  | 2 => some .equal
  | 3 => some .notEqual
  | 4 => some .less
  | 5 => some .greater
  | 6 => some .lessEqual
  | 7 => some .greaterEqual
  | 8 => some .and
  | 9 => some .or
  | _ => none

/-- The name of a comparator. -/
def name : Comparator → String
  | .exists_ => "EXISTS"
  | .notExists => "NOT_EXISTS"
  | .equal => "=="
  | .notEqual => "!="
  | .less => "<"
  | .greater => ">"
  | .lessEqual => "<="
  | .greaterEqual => ">="
  | .and => "&&"
  | .or => "||"

/-- The two existence tests read no operand; all others do. -/
def hasOperand : Comparator → Bool
  | .exists_ => false
  | .notExists => false
  | _ => true

/-- Tests a source byte against an operand. -/
def test (c : Comparator) (source operand : UInt8) : Bool :=
  match c with
  | .exists_ => source != 0
  | .notExists => source == 0
  | .equal => source == operand
  | .notEqual => source != operand
  | .less => decide (source < operand)
  | .greater => decide (source > operand)
  | .lessEqual => decide (source ≤ operand)
  | .greaterEqual => decide (source ≥ operand)
  | .and => source != 0 && operand != 0
  | .or => source != 0 || operand != 0

end Comparator

/-- The decoded command byte of a conditional call. -/
structure ConditionCommand where
  wide : Bool
  bufferOperand : Bool
  code : UInt8
  deriving DecidableEq, Repr

namespace ConditionCommand

/-- Splits a command byte into its flags and its comparator code. -/
def ofByte (b : UInt8) : ConditionCommand where
  wide := b &&& 0x10 != 0
  bufferOperand := b &&& 0x20 != 0
  code := b &&& 0x0F

/-- An immediate operand byte follows unless the operand comes from a buffer or the code
is an existence test; undefined codes take one too. -/
def hasImmediate (c : ConditionCommand) : Bool := !c.bufferOperand && c.code > 1

/-- The comparator of the command, if its code names one. -/
def comparator? (c : ConditionCommand) : Option Comparator := Comparator.ofCode? c.code

end ConditionCommand

end Coprocessor
