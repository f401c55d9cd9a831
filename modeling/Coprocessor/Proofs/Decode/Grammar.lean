import Mathlib
import Coprocessor.BufferId
import Coprocessor.Code

/-!
# The command grammar

The bytes of one command of the stream, after its code, as a decision on the bytes seen so
far: a `Shape` is either finished or takes a number of bytes and goes on as they say.
`Shape.size?` gives how many bytes of a stream the shape takes, or `none` when the stream
ends first.

`Grammar.command c` is the grammar of the command with code `c`:

* a plain code takes its fixed number of argument bytes;
* the system code `0x17` takes a mode byte `m`: one more byte for `m = 0x01`, none for
  `2 ≤ m < 0x20`, eight for `m ≥ 0x20`, and for `m = 0x00` a video byte `v`;
* the general poll `v = 0x80` takes one byte; a buffered command `v = 0xA0` takes a 16-bit
  id and a sub-command byte `s`, and then: for `s = 0`, a 16-bit length and that many
  bytes; for `s = 3`, two bytes; for `s = 5`, an adjust command; for `s = 6`, a
  conditional call; for any other `s`, and any other `v`, nothing more.

Numbers in the stream are little-endian. The grammar is written from the command set
alone; the decoder's framing theorem compares the two.
-/

namespace Coprocessor

/-- How the bytes of a command go on: finished, or take `n` bytes and go on as they say. -/
inductive Shape
  | done
  | take (n : Nat) (next : List UInt8 → Shape)

namespace Shape

/-- Takes `n` bytes whose values do not matter. -/
def skip (n : Nat) (next : Shape) : Shape := take n fun _ => next

/-- Takes one byte and goes on as it says. -/
def byte (next : UInt8 → Shape) : Shape := take 1 fun bs => next (bs.headD 0)

/-- The little-endian number a run of bytes spells. -/
def number (bs : List UInt8) : Nat := bs.foldr (fun b acc => b.toNat + 256 * acc) 0

/-- How many bytes of a stream the shape takes, or `none` when the stream ends first. -/
def size? : Shape → List UInt8 → Option Nat
  | done, _ => some 0
  | take n next, bs =>
    if n ≤ bs.length then ((next (bs.take n)).size? (bs.drop n)).map (n + ·) else none

@[simp] theorem size?_done (bs : List UInt8) : done.size? bs = some 0 := rfl

theorem size?_take_of_le {n : Nat} {next : List UInt8 → Shape} {bs : List UInt8}
    (h : n ≤ bs.length) :
    (take n next).size? bs = ((next (bs.take n)).size? (bs.drop n)).map (n + ·) := by
  simp [size?, h]

theorem size?_take_of_lt {n : Nat} {next : List UInt8 → Shape} {bs : List UInt8}
    (h : bs.length < n) : (take n next).size? bs = none := by
  simp [size?, Nat.not_le.mpr h]

theorem number_pair (lo hi : UInt8) : number [lo, hi] = lo.toNat + 256 * hi.toNat := by
  simp [number]

theorem number_triple (lo mid hi : UInt8) :
    number [lo, mid, hi] = lo.toNat + mid.toNat * 256 + hi.toNat * 65536 := by
  simp [number]
  omega

end Shape

namespace Grammar

open Shape

/-- The width of an offset: three bytes with the flag `0x10`, two without. -/
def width (b : UInt8) : Nat := if b &&& 0x10 ≠ 0 then 3 else 2

/-- The operands of an adjust command with command byte `b`, after its offset and its
count: only an operation past `0x01` takes any, from a buffer named by an id and an offset
with the flag `0x20`, else `count` immediate bytes with the flag `0x80`, else one. -/
def adjustOperands (b : UInt8) (count : Nat) : Shape :=
  if b &&& 0x0F > 1 then
    if b &&& 0x20 ≠ 0 then skip (2 + width b) done
    else if b &&& 0x80 ≠ 0 then skip count done
    else skip 1 done
  else done

/-- An adjust command after its command byte `b`: an offset, a count when either run flag
`0xC0` is set, then the operands. Without a count the operand run flag is clear, so the
count given to the operands is never used. -/
def adjust (b : UInt8) : Shape :=
  skip (width b)
    (if b &&& 0xC0 ≠ 0 then take (width b) fun count => adjustOperands b (number count)
     else adjustOperands b 0)

/-- A conditional call after its command byte `b`: the id and offset of the byte to test,
then an operand buffer's id and offset with the flag `0x20`, else one immediate byte for a
comparator past `0x01`. -/
def conditional (b : UInt8) : Shape :=
  skip 2 <| skip (width b) <|
    if b &&& 0x20 ≠ 0 then skip (2 + width b) done
    else if b &&& 0x0F > 1 then skip 1 done
    else done

/-- A buffered command after its id, given its sub-command byte. -/
def buffered (sub : UInt8) : Shape :=
  match sub.toNat with
  | 0 => take 2 fun len => skip (number len) done
  | 3 => skip 2 done
  | 5 => byte adjust
  | 6 => byte conditional
  | _ => done

/-- A video command after its byte `v`. -/
def video (v : UInt8) : Shape :=
  if v = 0x80 then skip 1 done
  else if v = 0xA0 then skip 2 (byte buffered)
  else done

/-- A system command after its mode byte `m`. -/
def system (m : UInt8) : Shape :=
  if m = 0x01 then skip 1 done
  else if m = 0x00 then byte video
  else if m < 0x20 then done
  else skip 8 done

/-- The bytes of a command after its code. -/
def command (c : UInt8) : Shape :=
  if c = 0x17 then byte system else skip (Code.argLength c) done

/-- The command calls the buffer `id`: a buffered call (`s = 1`) or conditional call
(`s = 6`) whose id bytes spell `id`. -/
def CallsOwn (id : BufferId) (c : UInt8) (bs : List UInt8) : Prop :=
  c = 0x17 ∧ ∃ lo hi sub rest, bs = 0x00 :: 0xA0 :: lo :: hi :: sub :: rest ∧
    id.raw.toNat = number [lo, hi] ∧ (sub = 1 ∨ sub = 6)

example : (command 0x17).size? [0x00, 0xA0, 0x01, 0x00, 0x00, 0x03, 0x00, 1, 2, 3, 0x16] =
    some 10 := by decide

example : (command 0x17).size? [0x00, 0xA0, 0x01, 0x00, 0x05, 0xC2, 0x04, 0x00, 0x02, 0x00,
    9, 9, 0x16] = some 12 := by decide

end Grammar

end Coprocessor
