import Mathlib
import Coprocessor.Proofs.Adjust.Simulation

/-!
# The adjust command from its first byte

`bufferAdjust` reads a header before it runs the operation: the command byte, the target
offset, the count when a run flag is set, and the operand buffer's id and offset when the
operands come from a buffer. `bufferAdjust_eq` splits the command into these reads and
`adjustTail`, what it does with them. `AdjustCommand.headerOffset`, `headerCount` and
`headerSource` decode a header from its bytes, and `bufferAdjust_header` shows that the
command reads exactly those bytes, changes nothing else, and runs the tail on what they
say. With `adjustTail_follows_reference` this gives the meaning of the whole command.
-/

namespace Coprocessor

namespace AdjustCommand

/-- The width of the command's offsets and count: three bytes when wide, two otherwise. -/
def width (c : AdjustCommand) : Nat := if c.wide then 3 else 2

/-- The bytes the count takes: none without a run flag. -/
def countWidth (c : AdjustCommand) : Nat := if c.hasCount then c.width else 0

/-- The bytes that name an operand buffer and the offset in it: none unless the operands
come from a buffer. -/
def sourceWidth (c : AdjustCommand) : Nat :=
  if c.hasOperand && c.bufferOperand then 2 + c.width else 0

/-- The length of the header after the command byte. -/
def headerLength (c : AdjustCommand) : Nat := c.width + c.countWidth + c.sourceWidth

/-- Where the operands come from, given the bytes that name an operand buffer: nowhere for an
operation without operand, the buffer they name with the buffer flag, else the input. -/
def sourceOf (c : AdjustCommand) (bs : List UInt8) : OperandSource :=
  if !c.hasOperand then .none
  else if c.bufferOperand then
    .buffer ⟨UInt16.ofNat (Shape.number (bs.take 2))⟩ (Shape.number (bs.drop 2))
  else .immediate

/-- The target offset a header gives. -/
def headerOffset (c : AdjustCommand) (hdr : List UInt8) : Nat := Shape.number (hdr.take c.width)

/-- The count a header gives: one without a run flag. -/
def headerCount (c : AdjustCommand) (hdr : List UInt8) : Nat :=
  if c.hasCount then Shape.number ((hdr.drop c.width).take c.countWidth) else 1

/-- Where the operands come from, as a header gives it. -/
def headerSource (c : AdjustCommand) (hdr : List UInt8) : OperandSource :=
  c.sourceOf ((hdr.drop c.width).drop c.countWidth)

end AdjustCommand

namespace Exec

variable {α : Type}

/-- The count of an adjust command: read when a run flag is set, else one. -/
def adjustCount (cmd : AdjustCommand) : Exec Nat :=
  if cmd.hasCount then within .adjust (readOffset cmd.wide) else pure 1

/-- Where the operands of an adjust command come from, reading the operand buffer's id and
offset when they come from a buffer. -/
def adjustSource (cmd : AdjustCommand) : Exec OperandSource :=
  if !cmd.hasOperand then pure .none
  else if cmd.bufferOperand then do
    let opId ← within .adjust readWord
    let opOffset ← within .adjust (readOffset cmd.wide)
    pure (.buffer ⟨opId⟩ opOffset)
  else pure .immediate

/-- What an adjust command does once its header is read: the operation, if its code names
one, then the skip of the immediates still owed. -/
def adjustTail (id : BufferId) (cmd : AdjustCommand) (offset count : Nat)
    (source : OperandSource) : Exec Unit := do
  let pending := if source = .immediate then (if cmd.multiOperand then count else 1) else 0
  let pending ← match cmd.op? with
    | some op => adjustRun op cmd id offset count source pending
    | none => pure pending
  within .adjust (discard pending)

/-- An adjust command reads its command byte, its offset, its count and its operand source,
then runs the tail on them. -/
theorem bufferAdjust_eq (id : BufferId) :
    bufferAdjust id = (within .adjust readByte >>= fun b =>
      within .adjust (readOffset (AdjustCommand.ofByte b).wide) >>= fun offset =>
      adjustCount (AdjustCommand.ofByte b) >>= fun count =>
      adjustSource (AdjustCommand.ofByte b) >>= fun source =>
      adjustTail id (AdjustCommand.ofByte b) offset count source) := by
  unfold bufferAdjust
  refine congrArg (within .adjust readByte >>= ·) (funext fun b => ?_)
  refine congrArg (within .adjust (readOffset (AdjustCommand.ofByte b).wide) >>= ·)
    (funext fun offset => ?_)
  unfold adjustCount adjustSource adjustTail
  -- the join points of the command are the tail's; the flags settle the reads between
  cases (AdjustCommand.ofByte b).op? <;>
  by_cases hc : (AdjustCommand.ofByte b).hasCount = true <;>
  by_cases ho : (AdjustCommand.ofByte b).hasOperand = true <;>
  by_cases hb : (AdjustCommand.ofByte b).bufferOperand = true <;>
  simp only [hc, ho, hb, if_true, if_false, Bool.not_true, Bool.not_false, Bool.false_eq_true,
    bind_assoc, pure_bind, reduceCtorEq, ite_self]

/-- A part that takes `n` bytes and keeps the store, started with the bytes `bs` and more
waiting, gives its value of `bs` and leaves the rest waiting. -/
theorem Yields.exec_append {n : Nat} {v : List UInt8 → α} {x : Exec α} (hx : Yields n v x)
    (hsame : Moves Session.SameStore x) {s : Session} {bs rest : List UInt8}
    (hp : s.pending = bs ++ rest) (hlen : bs.length = n) :
    ∃ s', x.exec s = (.ok (v bs), s') ∧ s.Took n s' ∧ s'.pending = rest ∧
      s'.store = s.store := by
  have hn : n ≤ s.left := by simp [Session.left, hp, hlen]
  obtain ⟨s', hexec, htook, hrest⟩ := (hx s).1 hn
  have hstore : s'.store = s.store := by
    have := hsame s
    rwa [hexec] at this
  refine ⟨s', ?_, htook, ?_, hstore⟩
  · rw [hexec, hp, List.take_left' hlen]
  · rw [hrest, hp, List.drop_left' hlen]

theorem adjustCount_yields (cmd : AdjustCommand) :
    Yields cmd.countWidth (fun bs => if cmd.hasCount then Shape.number bs else 1)
      (adjustCount cmd) := by
  unfold adjustCount AdjustCommand.countWidth AdjustCommand.width
  cases cmd.hasCount
  · simpa using Yields.of_pure (1 : Nat)
  · simpa using (readOffset_yields cmd.wide).within .adjust

theorem adjustSource_yields (cmd : AdjustCommand) :
    Yields cmd.sourceWidth cmd.sourceOf (adjustSource cmd) := by
  unfold adjustSource AdjustCommand.sourceWidth AdjustCommand.sourceOf
  cases cmd.hasOperand
  · simpa using Yields.of_pure OperandSource.none
  · cases cmd.bufferOperand
    · simpa using Yields.of_pure OperandSource.immediate
    · -- the operand buffer's id, then its offset
      have h := (readWord_yields.within .adjust).bind fun opId =>
        ((readOffset_yields cmd.wide).within .adjust).bind fun opOffset =>
          Yields.of_pure (OperandSource.buffer ⟨opId⟩ opOffset)
      simp only [Nat.add_zero] at h
      refine h.congr fun bs hbs => ?_
      -- the offset bytes are all that follow the id
      have hrest : List.take (if cmd.wide = true then 3 else 2) (bs.drop 2) = bs.drop 2 :=
        List.take_of_length_le (by simp [hbs])
      simp [hrest]

theorem adjustCount_sameStore (cmd : AdjustCommand) : Moves Session.SameStore (adjustCount cmd) :=
  Moves.ite (Moves.within _ (readOffset_sameStore _)) (Moves.of_pure _)

theorem adjustSource_sameStore (cmd : AdjustCommand) : Moves Session.SameStore (adjustSource cmd) :=
  Moves.ite (Moves.of_pure _) (Moves.ite ((Moves.within _ readWord_sameStore).bind fun _ =>
    (Moves.within _ (readOffset_sameStore _)).bind fun _ => Moves.of_pure _) (Moves.of_pure _))

/-- An adjust command started on its command byte `b` and a header of the length `b` asks
for reads exactly these bytes, changes nothing, and runs the tail on what they say. -/
theorem bufferAdjust_header (id : BufferId) {s : Session} {b : UInt8} {hdr rest : List UInt8}
    (hlen : hdr.length = (AdjustCommand.ofByte b).headerLength)
    (hp : s.pending = b :: (hdr ++ rest)) :
    ∃ s₀, s.Took (1 + hdr.length) s₀ ∧ s₀.store = s.store ∧ s₀.pending = rest ∧
      (bufferAdjust id).exec s = (adjustTail id (AdjustCommand.ofByte b)
        ((AdjustCommand.ofByte b).headerOffset hdr) ((AdjustCommand.ofByte b).headerCount hdr)
        ((AdjustCommand.ofByte b).headerSource hdr)).exec s₀ := by
  set cmd := AdjustCommand.ofByte b
  have hw : cmd.width ≤ hdr.length := by simp only [hlen, AdjustCommand.headerLength]; omega
  have hcw : cmd.countWidth ≤ (hdr.drop cmd.width).length := by
    simp only [List.length_drop, hlen, AdjustCommand.headerLength]; omega
  -- the command byte, the offset, the count and the operand source, one after another
  obtain ⟨s₁, h₁, t₁, p₁, st₁⟩ := (readByte_yields.within .adjust).exec_append
    (Moves.within _ readByte_sameStore) (show s.pending = [b] ++ (hdr ++ rest) from hp) rfl
  obtain ⟨s₂, h₂, t₂, p₂, st₂⟩ := ((readOffset_yields cmd.wide).within .adjust).exec_append
    (Moves.within _ (readOffset_sameStore _))
    (show s₁.pending = hdr.take cmd.width ++ (hdr.drop cmd.width ++ rest) by
      rw [p₁, ← List.append_assoc, List.take_append_drop])
    (by rw [List.length_take, Nat.min_eq_left hw]; rfl)
  obtain ⟨s₃, h₃, t₃, p₃, st₃⟩ := (adjustCount_yields cmd).exec_append (adjustCount_sameStore cmd)
    (show s₂.pending = (hdr.drop cmd.width).take cmd.countWidth ++
        ((hdr.drop cmd.width).drop cmd.countWidth ++ rest) by
      rw [p₂, ← List.append_assoc, List.take_append_drop])
    (by rw [List.length_take, Nat.min_eq_left hcw])
  obtain ⟨s₄, h₄, t₄, p₄, st₄⟩ := (adjustSource_yields cmd).exec_append
    (adjustSource_sameStore cmd) p₃
    (by simp only [List.length_drop, hlen, AdjustCommand.headerLength]; omega)
  refine ⟨s₄, ?_, by rw [st₄, st₃, st₂, st₁], p₄, ?_⟩
  · have htook := ((t₁.trans t₂).trans t₃).trans t₄
    rwa [hlen, AdjustCommand.headerLength, ← Nat.add_assoc, ← Nat.add_assoc]
  · rw [bufferAdjust_eq, exec_bind_of_ok h₁]
    simp only [List.headD_cons]
    rw [exec_bind_of_ok h₂, exec_bind_of_ok h₃, exec_bind_of_ok h₄]
    rfl

/-- With an operation named, the tail runs it and skips the immediates still owed. -/
theorem adjustTail_of_op {cmd : AdjustCommand} {op : AdjustOp} (hop : cmd.op? = some op)
    (id : BufferId) (offset count : Nat) (source : OperandSource) :
    adjustTail id cmd offset count source =
      (adjustRun op cmd id offset count source
        (if source = .immediate then (if cmd.multiOperand then count else 1) else 0) >>= fun q =>
          within .adjust (discard q)) := by
  unfold adjustTail
  rw [hop]

/-- A header's operand source is none for an operation without operand. -/
theorem headerSource_of_hasOperand {cmd : AdjustCommand} (h : cmd.hasOperand = false)
    (hdr : List UInt8) : cmd.headerSource hdr = .none := by
  simp [AdjustCommand.headerSource, AdjustCommand.sourceOf, h]

end Exec

open Exec AdjustAccess in
/-- An adjust command with command byte `b`, whose code names the operation `op`, started on
`b`, a header of the length `b` asks for, and `rest`, reads the header and stands at a session
`s₀` with `rest` waiting. From there, when no operand lies on a byte it stores to, it makes
the writes of its reference run over the offset and count of the header, with the target's
bytes as the command found them and the operands as `s₀` holds them: all of them, ending
well, when every access succeeds, and those before the first failing access, stopping there,
when one fails. No other byte of any buffer changes. -/
theorem adjust_follows_reference (id : BufferId) (s : Session) (hnd : s.store.cells.Nodup)
    (b : UInt8) (op : AdjustOp) (hop : (AdjustCommand.ofByte b).op? = some op)
    (hdr rest : List UInt8) (hlen : hdr.length = (AdjustCommand.ofByte b).headerLength)
    (hp : s.pending = b :: (hdr ++ rest)) :
    ∃ s₀, s.Took (1 + hdr.length) s₀ ∧ s₀.store = s.store ∧ s₀.pending = rest ∧
      let cmd := AdjustCommand.ofByte b
      let off := cmd.headerOffset hdr
      let count := cmd.headerCount hdr
      let source := cmd.headerSource hdr
      let tr := refTrace op cmd off count (s.store.byteOrZero id) (cmd.operandAt (s₀.operand source))
      OperandsClear s₀ id source (cmd.operandFetches count) (cmd.writtenPositions op off count) →
      (tr.all (s₀.accessOk id source) = true →
        ∃ s', (bufferAdjust id).exec s = (.ok (), s') ∧
          s'.store = s.store.setAll id (writes tr) ∧
          ∀ y, s'.store.bytesOf y =
            if y = id then applyWrites (s.store.bytesOf id) (writes tr) else s.store.bytesOf y) ∧
      (tr.all (s₀.accessOk id source) = false →
        ∃ e s', (bufferAdjust id).exec s = (.error e, s') ∧
          s'.store = s.store.setAll id (writes (tr.takeWhile (s₀.accessOk id source))) ∧
          ∀ y, s'.store.bytesOf y =
            if y = id then applyWrites (s.store.bytesOf id) (writes (tr.takeWhile (s₀.accessOk id source)))
            else s.store.bytesOf y) := by
  obtain ⟨s₀, htook, hstore, hrest, hexec⟩ := bufferAdjust_header id hlen hp
  refine ⟨s₀, htook, hstore, hrest, ?_⟩
  dsimp only
  intro hclear
  have hsrc : (AdjustCommand.ofByte b).hasOperand = false → _ :=
    fun h => headerSource_of_hasOperand h hdr
  obtain ⟨hok, herr, hbytes⟩ := adjustTail_follows_reference s₀ (hstore ▸ hnd) op
    (AdjustCommand.ofByte b) id _ _ _ hsrc hclear
  rw [hstore] at hok herr hbytes
  rw [hexec, adjustTail_of_op hop]
  refine ⟨fun h => ?_, fun h => ?_⟩
  · obtain ⟨s', hx, hst⟩ := hok h
    exact ⟨s', hx, hst, fun y => by rw [hst, hbytes]⟩
  · obtain ⟨e, s', hx, hst⟩ := herr h
    exact ⟨e, s', hx, hst, fun y => by rw [hst, hbytes]⟩


/-- A session with buffer 1 holding the bytes 5, 6, and waiting on the input a command that
adds the immediates 7, 1 to them, one to each. -/
def adjustExample : Session :=
  { Session.create .ample (Transport.memory [0xC3, 0, 0, 2, 0, 7, 1]) (.recorder #[]) {} with
    store := (Store.withLimit none).addCell ⟨1⟩ #[5, 6] none }

open Exec AdjustAccess in
/-- Adding the immediates 7, 1 to buffer 1's bytes 5, 6, with a run of targets and a run of
operands: the immediates lie on no heap byte, every access succeeds, and the command makes
the writes of its reference run, which leave 12, 7. -/
theorem adjust_follows_reference_add :
    (adjustExample.store.cells.Nodup ∧ (AdjustCommand.ofByte 0xC3).op? = some .add ∧
      (AdjustCommand.ofByte 0xC3).multiTarget = true ∧
      (AdjustCommand.ofByte 0xC3).multiOperand = true ∧
      ([0, 0, 2, 0] : List UInt8).length = (AdjustCommand.ofByte 0xC3).headerLength ∧
      adjustExample.pending = 0xC3 :: ([0, 0, 2, 0] ++ [7, 1])) ∧
    ∃ s₀, adjustExample.Took (1 + ([0, 0, 2, 0] : List UInt8).length) s₀ ∧
      s₀.store = adjustExample.store ∧ s₀.pending = [7, 1] ∧
      let cmd := AdjustCommand.ofByte 0xC3
      let off := cmd.headerOffset [0, 0, 2, 0]
      let count := cmd.headerCount [0, 0, 2, 0]
      let source := cmd.headerSource [0, 0, 2, 0]
      let tr := refTrace .add cmd off count (adjustExample.store.byteOrZero ⟨1⟩)
        (cmd.operandAt (s₀.operand source))
      OperandsClear s₀ ⟨1⟩ source (cmd.operandFetches count) (cmd.writtenPositions .add off count) ∧
      tr.all (s₀.accessOk ⟨1⟩ source) = true ∧
      ∃ s', (bufferAdjust ⟨1⟩).exec adjustExample = (.ok (), s') ∧
        s'.store = adjustExample.store.setAll ⟨1⟩ (writes tr) ∧
        (∀ y, s'.store.bytesOf y = if y = ⟨1⟩ then
          applyWrites (adjustExample.store.bytesOf ⟨1⟩) (writes tr)
          else adjustExample.store.bytesOf y) ∧
        s'.store.bytesOf ⟨1⟩ = [12, 7] := by
  obtain ⟨s₀, htook, hstore, hrest, hrun⟩ := adjust_follows_reference ⟨1⟩ adjustExample
    (by decide) 0xC3 .add (by decide) [0, 0, 2, 0] [7, 1] (by decide) (by decide)
  refine ⟨⟨by decide, by decide, by decide, by decide, by decide, by decide⟩, s₀, htook, hstore,
    hrest, ?_⟩
  dsimp only at hrun ⊢
  -- after the header the session holds the store and the two immediates, as `after` does
  let after : Session := { adjustExample with transport := Transport.memory [7, 1] }
  have hsrc : (AdjustCommand.ofByte 0xC3).headerSource [0, 0, 2, 0] = .immediate := rfl
  have hoperand : s₀.operand = after.operand := Session.operand_congr hstore hrest
  have haccess : s₀.accessOk = after.accessOk := Session.accessOk_congr hstore hrest
  have hclear : OperandsClear s₀ ⟨1⟩ ((AdjustCommand.ofByte 0xC3).headerSource [0, 0, 2, 0])
      ((AdjustCommand.ofByte 0xC3).operandFetches
        ((AdjustCommand.ofByte 0xC3).headerCount [0, 0, 2, 0]))
      ((AdjustCommand.ofByte 0xC3).writtenPositions .add
        ((AdjustCommand.ofByte 0xC3).headerOffset [0, 0, 2, 0])
        ((AdjustCommand.ofByte 0xC3).headerCount [0, 0, 2, 0])) := by
    rw [hsrc]
    exact operandsClear_of_transport (htook.input_transport rfl) _ _
  have hall : (refTrace .add (AdjustCommand.ofByte 0xC3)
      ((AdjustCommand.ofByte 0xC3).headerOffset [0, 0, 2, 0])
      ((AdjustCommand.ofByte 0xC3).headerCount [0, 0, 2, 0]) (adjustExample.store.byteOrZero ⟨1⟩)
      ((AdjustCommand.ofByte 0xC3).operandAt
        (s₀.operand ((AdjustCommand.ofByte 0xC3).headerSource [0, 0, 2, 0])))).all
      (s₀.accessOk ⟨1⟩ ((AdjustCommand.ofByte 0xC3).headerSource [0, 0, 2, 0])) = true := by
    rw [hoperand, haccess]
    decide
  obtain ⟨s', hx, hst, hbytes⟩ := (hrun hclear).1 hall
  refine ⟨hclear, hall, s', hx, hst, hbytes, ?_⟩
  rw [hbytes, if_pos rfl, hoperand]
  decide

end Coprocessor
