/-!
# Screens

A session hands every rendering command to a screen: a plain code with its argument
bytes, or a system command with its mode and argument bytes. A recording screen keeps the
calls in order; a blank screen ignores them.
-/

namespace Coprocessor

/-- One rendering command. -/
inductive ScreenCall
  | vdu (code : UInt8) (args : Array UInt8)
  | sys (mode : UInt8) (args : Array UInt8)
  deriving DecidableEq, Repr

/-- A screen. -/
inductive Screen
  | recorder (calls : Array ScreenCall)
  | blank
  deriving DecidableEq, Repr

namespace Screen

/-- Hands a call to the screen. -/
def present (s : Screen) (call : ScreenCall) : Screen :=
  match s with
  | .recorder calls => .recorder (calls.push call)
  | .blank => .blank

/-- Takes the calls recorded so far, leaving none. -/
def take : Screen → Array ScreenCall × Screen
  | .recorder calls => (calls, .recorder #[])
  | .blank => (#[], .blank)

end Screen

end Coprocessor
