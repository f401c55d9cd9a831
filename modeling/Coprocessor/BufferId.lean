/-!
# Buffer ids

A buffer is named by a 16-bit id. Two values are reserved and never name a stored buffer:
`0` names the default, the output a frame started with, and `0xFFFF` names no buffer at
all. Every other value names a buffer of the store.

The main facts here say that the three kinds partition the ids and that an id is reserved
exactly when it is not of the buffer kind.
-/

namespace Coprocessor

/-- A 16-bit buffer id, kept as its raw value so that every value has one id. -/
structure BufferId where
  raw : UInt16
  deriving DecidableEq, Repr

namespace BufferId

/-- The id of the default output. -/
def default : BufferId := ⟨0⟩

/-- The id that names no buffer. -/
def none : BufferId := ⟨0xFFFF⟩

/-- The three kinds of id. -/
inductive Kind
  | default
  | none
  | buffer
  deriving DecidableEq, Repr

/-- The kind of an id: the two reserved values, then everything else. -/
def kind (id : BufferId) : Kind :=
  if id.raw = 0 then .default else if id.raw = 0xFFFF then .none else .buffer

/-- An id is reserved when it is the default or none. -/
def isReserved (id : BufferId) : Bool :=
  id.raw == 0 || id.raw == 0xFFFF

/-- The display name: "default", "none", or the decimal raw value. -/
def display (id : BufferId) : String :=
  match id.kind with
  | .default => "default"
  | .none => "none"
  | .buffer => toString id.raw.toNat

instance : LT BufferId := ⟨fun a b => a.raw.toNat < b.raw.toNat⟩

instance (a b : BufferId) : Decidable (a < b) :=
  inferInstanceAs (Decidable (a.raw.toNat < b.raw.toNat))

theorem isReserved_eq_false_iff (id : BufferId) :
    id.isReserved = false ↔ id.kind = .buffer := by
  unfold isReserved kind
  by_cases h0 : id.raw = 0 <;> by_cases h1 : id.raw = 0xFFFF <;> simp_all

theorem ext_raw {a b : BufferId} (h : a.raw = b.raw) : a = b := by
  cases a; cases b; simp_all

end BufferId

end Coprocessor
