import Mathlib
import Coprocessor.Adjust

/-!
# The reference run of an adjust command

An adjust command is a run of accesses: it reads bytes of its target, fetches operands and
stores bytes of its target. `refTrace` lists them in the order the command makes them, with
the values it stores, computed from the target's bytes as they stand when the command
starts and from the operand of each step:

* the carry starts at zero, and step `i` applies the operation to a value, the step's
  operand and the carry in, giving the result and the carry out;
* with a run of targets, step `i` reads byte `off + i` and stores its result there;
* without one, byte `off` is read once before the steps, its value is carried from step to
  step, and the last value is stored back at `off` after them, so that an operation without
  operand is applied `count` times;
* add-with-carry then stores the last carry at `off + count`, last of all, over whatever was
  stored there before.

The writes of the trace, made in order on the target's bytes, give the bytes the command
leaves (`applyWrites`).
-/

namespace Coprocessor

/-- One access of an adjust command: a target byte read, an operand fetched, or a target byte
stored. -/
inductive AdjustAccess
  | read (pos : Nat)
  | operand (i : Nat)
  | write (pos : Nat) (value : UInt8)
  deriving DecidableEq, Repr

namespace AdjustAccess

/-- The position and value of a write. -/
def write? : AdjustAccess → Option (Nat × UInt8)
  | .write pos value => some (pos, value)
  | _ => none

/-- Whether the access fetches an operand. -/
def isOperand : AdjustAccess → Bool
  | .operand _ => true
  | _ => false

/-- The writes of a run of accesses, in order. -/
def writes (tr : List AdjustAccess) : List (Nat × UInt8) := tr.filterMap write?

/-- How many operands a run of accesses fetches. -/
def fetches (tr : List AdjustAccess) : Nat := tr.countP isOperand

@[simp] theorem writes_nil : writes [] = [] := rfl

@[simp] theorem writes_append (tr tr' : List AdjustAccess) :
    writes (tr ++ tr') = writes tr ++ writes tr' := List.filterMap_append

@[simp] theorem writes_read (pos : Nat) (tr : List AdjustAccess) :
    writes (.read pos :: tr) = writes tr := rfl

@[simp] theorem writes_operand (i : Nat) (tr : List AdjustAccess) :
    writes (.operand i :: tr) = writes tr := rfl

@[simp] theorem writes_write (pos : Nat) (value : UInt8) (tr : List AdjustAccess) :
    writes (.write pos value :: tr) = (pos, value) :: writes tr := rfl

@[simp] theorem writes_ite (c : Prop) [Decidable c] (tr tr' : List AdjustAccess) :
    writes (if c then tr else tr') = if c then writes tr else writes tr' := apply_ite _ _ _ _

@[simp] theorem fetches_nil : fetches [] = 0 := rfl

@[simp] theorem fetches_append (tr tr' : List AdjustAccess) :
    fetches (tr ++ tr') = fetches tr + fetches tr' := List.countP_append

@[simp] theorem fetches_read (pos : Nat) (tr : List AdjustAccess) :
    fetches (.read pos :: tr) = fetches tr :=
  List.countP_cons_of_neg (by simp [isOperand])

@[simp] theorem fetches_operand (i : Nat) (tr : List AdjustAccess) :
    fetches (.operand i :: tr) = fetches tr + 1 :=
  List.countP_cons_of_pos (by simp [isOperand])

@[simp] theorem fetches_write (pos : Nat) (value : UInt8) (tr : List AdjustAccess) :
    fetches (.write pos value :: tr) = fetches tr :=
  List.countP_cons_of_neg (by simp [isOperand])

@[simp] theorem fetches_ite (c : Prop) [Decidable c] (tr tr' : List AdjustAccess) :
    fetches (if c then tr else tr') = if c then fetches tr else fetches tr' := apply_ite _ _ _ _

end AdjustAccess

/-- Bytes with writes made on them in order; a write past the end changes nothing. -/
def applyWrites (bytes : List UInt8) (ws : List (Nat × UInt8)) : List UInt8 :=
  ws.foldl (fun bs w => bs.set w.1 w.2) bytes

@[simp] theorem applyWrites_nil (bytes : List UInt8) : applyWrites bytes [] = bytes := rfl

@[simp] theorem applyWrites_cons (bytes : List UInt8) (w : Nat × UInt8) (ws : List (Nat × UInt8)) :
    applyWrites bytes (w :: ws) = applyWrites (bytes.set w.1 w.2) ws := rfl

@[simp] theorem length_applyWrites (bytes : List UInt8) (ws : List (Nat × UInt8)) :
    (applyWrites bytes ws).length = bytes.length := by
  induction ws generalizing bytes with
  | nil => rfl
  | cons w ws ih =>
    simp only [applyWrites, List.foldl_cons] at ih ⊢
    rw [ih, List.length_set]

/-- A position that no write names keeps its byte. -/
theorem getElem?_applyWrites_of_forall_ne (bytes : List UInt8) {ws : List (Nat × UInt8)}
    {pos : Nat} (h : ∀ w ∈ ws, w.1 ≠ pos) : (applyWrites bytes ws)[pos]? = bytes[pos]? := by
  induction ws generalizing bytes with
  | nil => rfl
  | cons w ws ih =>
    simp only [List.mem_cons, forall_eq_or_imp] at h
    simp only [applyWrites, List.foldl_cons] at ih ⊢
    rw [ih _ h.2, List.getElem?_set_ne h.1]

/-- Writes to distinct positions: a write to a position inside the bytes leaves its value
there. -/
theorem getElem?_applyWrites_of_mem (bytes : List UInt8) {ws : List (Nat × UInt8)}
    (hnd : (ws.map Prod.fst).Nodup) {pos : Nat} {value : UInt8} (hmem : (pos, value) ∈ ws)
    (hpos : pos < bytes.length) : (applyWrites bytes ws)[pos]? = some value := by
  induction ws generalizing bytes with
  | nil => simp at hmem
  | cons w ws ih =>
    rw [List.map_cons, List.nodup_cons] at hnd
    rw [applyWrites_cons]
    rcases List.mem_cons.mp hmem with rfl | hmem
    · -- no later write names the position, so the value set here stands
      have hne : ∀ w ∈ ws, w.1 ≠ pos := by
        rintro w hw rfl
        have hmem : w.1 ∈ ws.map Prod.fst := List.mem_map_of_mem hw
        exact hnd.1 hmem
      rw [getElem?_applyWrites_of_forall_ne _ hne, List.getElem?_set_self hpos]
    · exact ih _ hnd.2 hmem (by rwa [List.length_set])

/-- Writes to distinct positions inside the bytes leave, position by position, the values
written. -/
theorem map_getD_applyWrites (bytes : List UInt8) {ws : List (Nat × UInt8)}
    (hnd : (ws.map Prod.fst).Nodup) (hin : ∀ w ∈ ws, w.1 < bytes.length) :
    (ws.map Prod.fst).map ((applyWrites bytes ws).getD · 0) = ws.map Prod.snd := by
  rw [List.map_map]
  refine List.map_congr_left fun w hw => ?_
  simp [List.getD_eq_getElem?_getD, getElem?_applyWrites_of_mem bytes hnd hw (hin w hw)]

namespace AdjustCommand

/-- How many operands a command over `count` steps fetches: `count` with a run of operands,
else one when its operation takes one. -/
def operandFetches (c : AdjustCommand) (count : Nat) : Nat :=
  if c.multiOperand then count else if c.hasOperand then 1 else 0

/-- The operand of step `i`, from the operands fetched, `os`: zero when the operation takes
none, the `i`-th with a run of operands, else the one operand. -/
def operandAt (c : AdjustCommand) (os : Nat → UInt8) (i : Nat) : UInt8 :=
  if c.hasOperand then (if c.multiOperand then os i else os 0) else 0

/-- The target positions a command over `count` steps stores to. -/
def writtenPositions (c : AdjustCommand) (op : AdjustOp) (off count : Nat) : List Nat :=
  (if c.multiTarget then (List.range count).map (off + ·) else [off]) ++
    (if op = .addCarry then [off + count] else [])

end AdjustCommand

/-- The reference run of the steps from `i`, `k` of them, with value `x` and carry `carry`
carried in: the accesses they make, and the value and carry they carry out. `B` gives the
target's bytes as they stand at the start, `o` the operand of each step. -/
def refSteps (op : AdjustOp) (c : AdjustCommand) (off : Nat) (B o : Nat → UInt8) :
    Nat → Nat → UInt8 → UInt8 → List AdjustAccess × UInt8 × UInt8
  | _, 0, x, carry => ([], x, carry)
  | i, k + 1, x, carry =>
    let x := if c.multiTarget then B (off + i) else x
    let r := op.apply x (o i) carry
    let rest := refSteps op c off B o (i + 1) k r.1 r.2
    ((if c.multiTarget then [.read (off + i)] else []) ++
      (if c.multiOperand then [.operand i] else []) ++
      (if c.multiTarget then [.write (off + i) r.1] else []) ++ rest.1, rest.2)

/-- The reference run of a whole command over `count` steps: the accesses it makes, in order. -/
def refTrace (op : AdjustOp) (c : AdjustCommand) (off count : Nat) (B o : Nat → UInt8) :
    List AdjustAccess :=
  let run := refSteps op c off B o 0 count (if c.multiTarget then 0 else B off) 0
  (if c.multiTarget then [] else [.read off]) ++
    (if c.hasOperand && !c.multiOperand then [.operand 0] else []) ++ run.1 ++
    (if !c.multiTarget then [.write off run.2.1] else []) ++
    (if op = .addCarry then [.write (off + count) run.2.2] else [])

/-! ## What the reference run touches -/

section Touches

variable {op : AdjustOp} {c : AdjustCommand} {off : Nat} {B o : Nat → UInt8}

/-- The steps from `i` fetch operands only with a run of operands, and only those from `i` on. -/
theorem lt_of_operand_mem_refSteps {k j : Nat} : ∀ {i : Nat} {x carry : UInt8},
    .operand j ∈ (refSteps op c off B o i k x carry).1 →
      c.multiOperand = true ∧ i ≤ j ∧ j < i + k := by
  induction k with
  | zero => simp [refSteps]
  | succ k ih =>
    intro i x carry h
    simp only [refSteps, List.mem_append, List.mem_ite_nil_right, List.mem_singleton,
      reduceCtorEq, and_false, false_or, or_false, AdjustAccess.operand.injEq] at h
    rcases h with ⟨hmo, rfl⟩ | hrest
    · exact ⟨hmo, Nat.le_refl _, by omega⟩
    · obtain ⟨hmo, hle, hlt⟩ := ih hrest
      exact ⟨hmo, by omega, by omega⟩

/-- The steps from `i` read only with a run of targets, and only the bytes from `off + i` on. -/
theorem lt_of_read_mem_refSteps {k p : Nat} : ∀ {i : Nat} {x carry : UInt8},
    .read p ∈ (refSteps op c off B o i k x carry).1 →
      c.multiTarget = true ∧ off + i ≤ p ∧ p < off + i + k := by
  induction k with
  | zero => simp [refSteps]
  | succ k ih =>
    intro i x carry h
    simp only [refSteps, List.mem_append, List.mem_ite_nil_right, List.mem_singleton,
      reduceCtorEq, and_false, or_false, AdjustAccess.read.injEq] at h
    rcases h with ⟨hmt, rfl⟩ | hrest
    · exact ⟨hmt, Nat.le_refl _, by omega⟩
    · obtain ⟨hmt, hle, hlt⟩ := ih hrest
      exact ⟨hmt, by omega, by omega⟩

/-- The steps from `i` write only with a run of targets, and only the bytes from `off + i` on. -/
theorem lt_of_mem_writes_refSteps {k : Nat} {w : Nat × UInt8} : ∀ {i : Nat} {x carry : UInt8},
    w ∈ AdjustAccess.writes (refSteps op c off B o i k x carry).1 →
      c.multiTarget = true ∧ off + i ≤ w.1 ∧ w.1 < off + i + k := by
  induction k with
  | zero => simp [refSteps]
  | succ k ih =>
    intro i x carry h
    simp only [refSteps, AdjustAccess.writes_append, AdjustAccess.writes_ite,
      AdjustAccess.writes_read, AdjustAccess.writes_operand, AdjustAccess.writes_write,
      AdjustAccess.writes_nil, ite_self, List.nil_append, List.mem_append, List.mem_ite_nil_right,
      List.mem_singleton] at h
    rcases h with ⟨hmt, rfl⟩ | hrest
    · exact ⟨hmt, Nat.le_refl _, by simp⟩
    · obtain ⟨hmt, hle, hlt⟩ := ih hrest
      exact ⟨hmt, by omega, by omega⟩

/-- A whole run fetches exactly the operands the command counts. -/
theorem lt_operandFetches_of_mem_refTrace {count j : Nat}
    (h : .operand j ∈ refTrace op c off count B o) : j < c.operandFetches count := by
  simp only [refTrace, List.mem_append, List.mem_ite_nil_left, List.mem_ite_nil_right,
    List.mem_singleton, reduceCtorEq, and_false, false_or, or_false,
    AdjustAccess.operand.injEq] at h
  unfold AdjustCommand.operandFetches
  rcases h with ⟨hop, rfl⟩ | h
  · simp only [Bool.and_eq_true, Bool.not_eq_true'] at hop
    simp [hop.1, hop.2]
  · obtain ⟨hmo, -, hlt⟩ := lt_of_operand_mem_refSteps h
    simpa [hmo] using hlt

/-- A whole run writes only the positions the command stores to. -/
theorem mem_writtenPositions_of_mem_writes {count : Nat} {w : Nat × UInt8}
    (h : w ∈ AdjustAccess.writes (refTrace op c off count B o)) :
    w.1 ∈ c.writtenPositions op off count := by
  simp only [refTrace, AdjustAccess.writes_append, AdjustAccess.writes_ite,
    AdjustAccess.writes_read, AdjustAccess.writes_write, AdjustAccess.writes_operand,
    AdjustAccess.writes_nil, ite_self, List.nil_append, List.mem_append, List.mem_ite_nil_right,
    List.mem_singleton] at h
  unfold AdjustCommand.writtenPositions
  rcases h with (h | ⟨hmt, rfl⟩) | ⟨hac, rfl⟩
  · obtain ⟨hmt, hle, hlt⟩ := lt_of_mem_writes_refSteps h
    simp only [hmt, if_true, List.mem_append, List.mem_map, List.mem_range]
    exact .inl ⟨w.1 - off, by omega, by omega⟩
  · simp_all
  · simp [hac]

/-- A whole run reads only positions it also stores to. -/
theorem mem_writtenPositions_of_read_mem {count p : Nat}
    (h : .read p ∈ refTrace op c off count B o) : p ∈ c.writtenPositions op off count := by
  simp only [refTrace, List.mem_append, List.mem_ite_nil_left, List.mem_ite_nil_right,
    List.mem_singleton, reduceCtorEq, and_false, or_false, AdjustAccess.read.injEq] at h
  unfold AdjustCommand.writtenPositions
  rcases h with ⟨hmt, rfl⟩ | h
  · simp [hmt]
  · obtain ⟨hmt, hle, hlt⟩ := lt_of_read_mem_refSteps h
    simp only [hmt, if_true, List.mem_append, List.mem_map, List.mem_range]
    exact .inl ⟨p - off, by omega, by omega⟩

end Touches

end Coprocessor
