/-!
# Byte adjustments

An adjust command changes bytes of a buffer in place by one of eight byte operations.
Its command byte holds the operation in the low four bits and four flags above them:
24-bit offsets, an operand fetched from a buffer, a run of targets and a run of operands.

`AdjustOp.apply` takes a source byte, an operand and a carry in, and gives the result and
the carry out. Only add-with-carry reads or makes a carry, so a run of add-with-carry
steps adds little-endian numbers byte by byte.
-/

namespace Coprocessor

/-- The eight byte operations. -/
inductive AdjustOp
  | not
  | neg
  | set
  | add
  | addCarry
  | and
  | or
  | xor
  deriving DecidableEq, Repr

namespace AdjustOp

/-- Decodes an operation code; codes from 8 on name no operation. -/
def ofCode? (code : UInt8) : Option AdjustOp :=
  match code.toNat with
  | 0 => some .not
  | 1 => some .neg
  | 2 => some .set
  | 3 => some .add
  | 4 => some .addCarry
  | 5 => some .and
  | 6 => some .or
  | 7 => some .xor
  | _ => Option.none

/-- The name of an operation. -/
def name : AdjustOp → String
  | .not => "NOT"
  | .neg => "NEG"
  | .set => "SET"
  | .add => "ADD"
  | .addCarry => "ADD_CARRY"
  | .and => "AND"
  | .or => "OR"
  | .xor => "XOR"

/-- Applies an operation to a source byte, giving the result and the carry out. Sums wrap
modulo 256; add-with-carry adds the carry in and gives the ninth bit as carry out. -/
def apply (op : AdjustOp) (source operand carry : UInt8) : UInt8 × UInt8 :=
  match op with
  | .not => (~~~source, 0)
  | .neg => (0 - source, 0)
  | .set => (operand, 0)
  | .add => (source + operand, 0)
  | .addCarry =>
    let sum := source.toNat + operand.toNat + carry.toNat
    (UInt8.ofNat sum, UInt8.ofNat (sum / 256))
  | .and => (source &&& operand, 0)
  | .or => (source ||| operand, 0)
  | .xor => (source ^^^ operand, 0)

end AdjustOp

/-- The decoded command byte of an adjust command. -/
structure AdjustCommand where
  wide : Bool
  bufferOperand : Bool
  multiTarget : Bool
  multiOperand : Bool
  code : UInt8
  deriving DecidableEq, Repr

namespace AdjustCommand

/-- Splits a command byte into its flags and its operation code. -/
def ofByte (b : UInt8) : AdjustCommand where
  wide := b &&& 0x10 != 0
  bufferOperand := b &&& 0x20 != 0
  multiTarget := b &&& 0x40 != 0
  multiOperand := b &&& 0x80 != 0
  code := b &&& 0x0F

/-- Every code past negation takes an operand, the undefined codes too. -/
def hasOperand (c : AdjustCommand) : Bool := c.code > 1

/-- A count follows the offset when either run flag is set. -/
def hasCount (c : AdjustCommand) : Bool := c.multiTarget || c.multiOperand

/-- The operation of the command, if its code names one. -/
def op? (c : AdjustCommand) : Option AdjustOp := AdjustOp.ofCode? c.code

end AdjustCommand

end Coprocessor
