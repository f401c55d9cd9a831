/-!
# Command codes

The byte codes of the command stream. A plain code other than the system code carries a
fixed number of argument bytes; the system code `0x17` opens a mode byte, and mode `0`
opens the video commands, among them the general poll and the buffered commands.
-/

namespace Coprocessor

namespace Code

/-- The system code, which opens a mode byte. -/
def system : UInt8 := 0x17

/-- The system mode of the video commands. -/
def videoMode : UInt8 := 0x00

/-- The system mode of cursor control, which takes one byte. -/
def cursorMode : UInt8 := 0x01

/-- From this mode on, a system command takes eight bytes, a character definition. -/
def firstGlyphMode : UInt8 := 0x20

/-- The number of bytes a character definition takes. -/
def glyphLength : Nat := 8

/-- The video command of the general poll. -/
def generalPoll : UInt8 := 0x80

/-- The video command that opens a buffered command. -/
def buffered : UInt8 := 0xA0

/-- The packet code of the answer to the general poll. -/
def pollPacket : UInt8 := 0x00

/-- How many argument bytes a plain code takes. -/
def argLength (code : UInt8) : Nat :=
  match code.toNat with
  | 0x11 => 1
  | 0x12 => 2
  | 0x13 => 5
  | 0x16 => 1
  | 0x18 => 8
  | 0x19 => 5
  | 0x1C => 4
  | 0x1D => 4
  | 0x1F => 2
  | _ => 0

end Code

end Coprocessor
