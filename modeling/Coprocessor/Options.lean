/-!
# Session options

The options of a session that the command stream depends on: how deeply buffer calls may
nest, and an optional limit on the bytes the buffer store may hold.
-/

namespace Coprocessor

/-- Session options. The defaults allow 32 nested calls and set no memory limit. -/
structure Options where
  maxCallDepth : Nat := 32
  memoryLimit : Option Nat := none
  deriving DecidableEq, Repr

namespace Options

/-- The default options. -/
def standard : Options := {}

/-- The options with another call depth limit. -/
def withMaxCallDepth (o : Options) (depth : Nat) : Options := { o with maxCallDepth := depth }

/-- The options with another memory limit, or none. -/
def withMemoryLimit (o : Options) (limit : Option Nat) : Options := { o with memoryLimit := limit }

end Options

end Coprocessor
