import Mathlib
import Coprocessor.Proofs.Exec
import Coprocessor.Proofs.Store.Steps

/-!
# What a command may change

A command runs in one frame of the session and changes much of it, but not everything.
`Session.Evolves s s'` collects what stays:

* the frame is still the same frame (`Frame.Kept`): the same input, over the same snapshot
  when it reads a buffer, the same buffer id, depth and original output; only its place in
  the input and its current output move;
* a frame that reads a buffer leaves the transport's input alone;
* the store moves by its own operations only (`Store.Steps`);
* the options and the allocator never change.

Every command moves the session so, given that the frames it calls do (`command_evolves`),
and then the decode loop does too (`runFrame_evolves`), which closes the knot: every
top-level command moves the session so (`topCommand_evolves`). A nested run also hands
back the frame it was called from as it was (`exec_enter`).
-/

namespace Coprocessor

namespace Input

/-- The same input, perhaps at another place in it: both the transport, or readers over
one snapshot. -/
def Same : Input → Input → Prop
  | .transport, .transport => True
  | .buffer r, .buffer r' => r'.cells = r.cells
  | _, _ => False

/-- The input is a buffer's reader. -/
def IsBuffer : Input → Prop
  | .buffer _ => True
  | .transport => False

theorem Same.refl (i : Input) : i.Same i := by
  cases i <;> simp [Same]

theorem Same.trans {i₁ i₂ i₃ : Input} (h₁ : i₁.Same i₂) (h₂ : i₂.Same i₃) : i₁.Same i₃ := by
  cases i₁ <;> cases i₂ <;> cases i₃ <;> simp_all [Same]

theorem Same.isBuffer {i i' : Input} (h : i.Same i') (hb : i.IsBuffer) : i'.IsBuffer := by
  cases i <;> cases i' <;> simp_all [Same, IsBuffer]

end Input

theorem Reader.cells_read (h : Heap) (r : Reader) : (r.read h).2.cells = r.cells := by
  unfold Reader.read
  split
  · split <;> rfl
  · rfl

namespace Frame

/-- `f'` is the frame `f`, perhaps further on in its input or sending elsewhere. -/
structure Kept (f f' : Frame) : Prop where
  input : f.input.Same f'.input
  id : f'.id = f.id
  depth : f'.depth = f.depth
  originalOutput : f'.originalOutput = f.originalOutput

theorem Kept.refl (f : Frame) : f.Kept f := ⟨Input.Same.refl _, rfl, rfl, rfl⟩

theorem Kept.trans {f₁ f₂ f₃ : Frame} (h₁ : f₁.Kept f₂) (h₂ : f₂.Kept f₃) : f₁.Kept f₃ :=
  ⟨h₁.input.trans h₂.input, h₂.id.trans h₁.id, h₂.depth.trans h₁.depth,
    h₂.originalOutput.trans h₁.originalOutput⟩

theorem kept_rewind (f : Frame) : f.Kept f.rewind := by
  unfold rewind
  split
  · rename_i r hr
    exact ⟨by simp [hr, Input.Same, Reader.rewind], rfl, rfl, rfl⟩
  · exact Kept.refl f

theorem isBuffer_nested (id : BufferId) (r : Reader) (o : Output) (d : Nat) :
    (nested id r o d).input.IsBuffer := trivial

theorem kept_setOutput (f : Frame) (o : Output) : f.Kept { f with output := o } :=
  ⟨Input.Same.refl _, rfl, rfl, rfl⟩

end Frame

namespace Session

/-- What a command may change about the session it runs in; see the module comment. -/
structure Evolves (s s' : Session) : Prop where
  frame : s.frame.Kept s'.frame
  source : s.frame.input.IsBuffer → s'.transport.source = s.transport.source
  store : Store.Steps s.store s'.store
  options : s'.options = s.options
  allocator : s'.allocator = s.allocator

theorem Evolves.refl (s : Session) : Evolves s s :=
  ⟨Frame.Kept.refl _, fun _ => rfl, Relation.ReflTransGen.refl, rfl, rfl⟩

theorem Evolves.trans {s₁ s₂ s₃ : Session} (h₁ : Evolves s₁ s₂) (h₂ : Evolves s₂ s₃) :
    Evolves s₁ s₃ where
  frame := h₁.frame.trans h₂.frame
  source hb := (h₂.source (h₁.frame.input.isBuffer hb)).trans (h₁.source hb)
  store := h₁.store.trans h₂.store
  options := h₂.options.trans h₁.options
  allocator := h₂.allocator.trans h₁.allocator

instance : IsPreorder Session Evolves where
  refl := Evolves.refl
  trans _ _ _ := Evolves.trans

/-- An update that leaves the frame, the transport's input, the store, the options and the
allocator alone. -/
theorem Evolves.of_eq {s s' : Session} (hf : s'.frame = s.frame)
    (hsrc : s'.transport.source = s.transport.source) (hst : s'.store = s.store)
    (ho : s'.options = s.options) (ha : s'.allocator = s.allocator) : Evolves s s' where
  frame := hf ▸ Frame.Kept.refl _
  source _ := hsrc
  store := hst ▸ Relation.ReflTransGen.refl
  options := ho
  allocator := ha

/-- A frame on the transport may move the transport as it likes. -/
theorem Evolves.of_transport {s : Session} (hin : s.frame.input = .transport) (t : Transport) :
    Evolves s { s with transport := t } where
  frame := Frame.Kept.refl _
  source hb := by rw [hin] at hb; exact hb.elim
  store := Relation.ReflTransGen.refl
  options := rfl
  allocator := rfl

theorem Evolves.of_steps {s : Session} {st : Store} (h : Store.Steps s.store st) :
    Evolves s { s with store := st } :=
  ⟨Frame.Kept.refl _, fun _ => rfl, h, rfl, rfl⟩

theorem Evolves.of_step {s : Session} {st : Store} (h : Store.Step s.store st) :
    Evolves s { s with store := st } :=
  of_steps (Relation.ReflTransGen.single h)

theorem Evolves.of_kept {s : Session} {f : Frame} (h : s.frame.Kept f) :
    Evolves s { s with frame := f } where
  frame := h
  source _ := rfl
  store := Relation.ReflTransGen.refl
  options := rfl
  allocator := rfl

end Session

theorem Transport.source_write (t : Transport) (v : UInt8) : (t.write v).2.source = t.source := rfl

namespace Exec

open Session

/-! ## Reading and writing -/

theorem readByte_evolves : Moves Evolves readByte := by
  intro s
  cases hin : s.frame.input with
  | transport =>
    rw [exec_readByte_transport hin]
    exact Evolves.of_transport hin _
  | buffer rd =>
    rw [exec_readByte_buffer hin]
    refine Evolves.of_kept ⟨?_, rfl, rfl, rfl⟩
    simp [hin, Input.Same, Reader.cells_read]

theorem inputAvailable_evolves : Moves Evolves inputAvailable := by
  intro s
  cases hin : s.frame.input with
  | transport =>
    rw [exec_inputAvailable_transport hin]
    exact Evolves.of_transport hin _
  | buffer rd =>
    rw [exec_inputAvailable_buffer hin]
    exact Evolves.refl s

theorem readWord_evolves : Moves Evolves readWord :=
  readByte_evolves.bind fun _ => readByte_evolves.bind fun _ => Moves.of_pure _

theorem readOffset_evolves (wide : Bool) : Moves Evolves (readOffset wide) := by
  unfold readOffset readTriple
  split
  · exact readByte_evolves.bind fun _ => readByte_evolves.bind fun _ =>
      readByte_evolves.bind fun _ => Moves.of_pure _
  · exact readWord_evolves.bind fun _ => Moves.of_pure _

theorem readInto_evolves (n : Nat) (acc : Array UInt8) : Moves Evolves (readInto acc n) := by
  induction n generalizing acc with
  | zero => exact Moves.of_pure _
  | succ n ih => exact readByte_evolves.bind fun b => ih (acc.push b)

theorem readBytes_evolves (n : Nat) : Moves Evolves (readBytes n) := readInto_evolves n #[]

theorem discard_evolves (n : Nat) : Moves Evolves (discard n) := by
  induction n with
  | zero => exact Moves.of_pure _
  | succ n ih => exact readByte_evolves.bind fun _ => ih

theorem writeByte_evolves (v : UInt8) : Moves Evolves (writeByte v) := by
  unfold writeByte
  refine Moves.frame_bind fun s => ?_
  split
  · exact Evolves.of_eq rfl (Transport.source_write _ _) rfl rfl rfl
  · rw [exec_store_bind]
    split
    · rename_i id _ _ p hp
      -- the slot was just found in this store, so writing there is the store's own write
      have hw : s.store.writeOutput id v = .ok (true, s.store.putOutput id p v) := by
        rw [Store.writeOutput, hp]
        rfl
      exact Evolves.of_step (Store.Step.writeOutput id v true hw)
    · exact Evolves.refl s
  · exact Evolves.refl s

theorem sendPacket_evolves (code : UInt8) (data : Array UInt8) :
    Moves Evolves (sendPacket code data) := by
  unfold sendPacket
  refine (writeByte_evolves _).bind fun _ => (writeByte_evolves _).bind fun _ => ?_
  rw [← Array.forIn_toList]
  exact (Moves.forIn fun b _ => (writeByte_evolves b).bind fun _ => Moves.of_pure _).bind
    fun _ => Moves.of_pure _

theorem present_evolves (c : ScreenCall) : Moves Evolves (present c) :=
  Moves.of_modify fun _ => Evolves.of_eq rfl rfl rfl rfl rfl

theorem logAbort_evolves (f : Fault) : Moves Evolves (logAbort f) :=
  Moves.of_modify fun _ => Evolves.of_eq rfl rfl rfl rfl rfl

/-! ## Buffered commands -/

theorem bufferWrite_evolves (id : BufferId) : Moves Evolves (bufferWrite id) := by
  unfold bufferWrite
  refine (Moves.within _ readWord_evolves).bind fun len => ?_
  have refused : Moves Evolves (within .bufferWrite (discard len.toNat) >>= fun _ =>
      (fail ⟨.bufferWrite, .allocation len.toNat⟩ : Exec Unit)) :=
    (Moves.within _ (discard_evolves _)).bind fun _ => Moves.of_fail _
  split
  · exact Moves.within _ (discard_evolves _)
  · refine Moves.store_bind fun s => ?_
    split
    · refine (Moves.of_allocator.bind fun a => ?_) s
      split
      · refine (Moves.within _ (readBytes_evolves _)).bind fun data =>
          Moves.check_bind fun s' u hc => ?_
        -- the check just passed on this store, so the append is the store's own append
        have happ : s'.store.append a id (.readOnly data) =
            .ok (s'.store.appendReadOnly id data) := by
          simp [Store.append, NewSegment.length, hc]
        exact Evolves.of_step (Store.Step.append a id _ happ)
      · exact refused
    · exact refused s

theorem bufferCall_evolves {run : Frame → Exec Unit}
    (hrun : ∀ id r o d, Moves Evolves (run (Frame.nested id r o d))) (id : BufferId) :
    Moves Evolves (bufferCall run id) := by
  unfold bufferCall
  refine Moves.frame_bind fun s => ?_
  split
  · exact Evolves.refl s
  · split
    · exact Evolves.of_kept (Frame.kept_rewind _)
    · rw [exec_get_bind]
      split
      · exact Evolves.refl s
      · dsimp only
        split
        · exact Evolves.refl s
        · exact hrun _ _ _ _ s

theorem bufferClear_evolves (id : BufferId) : Moves Evolves (bufferClear id) := by
  unfold bufferClear
  refine Moves.of_modify fun s => Evolves.of_step ?_
  split
  · exact Store.Step.clearAll _
  · exact Store.Step.clear _ _

theorem bufferCreate_evolves (id : BufferId) : Moves Evolves (bufferCreate id) := by
  unfold bufferCreate
  refine (Moves.within _ readWord_evolves).bind fun size =>
    Moves.of_allocator.bind fun a => Moves.check_bind fun s u hc => ?_
  have hcreate : s.store.createWritable a id size.toNat =
      .ok (s.store.createZeroed a id size.toNat) := by
    simp [Store.createWritable, hc]
  exact Evolves.of_step (Store.Step.create a id _ hcreate)

theorem setOutput_evolves (id : BufferId) : Moves Evolves (setOutput id) := by
  unfold setOutput
  refine Moves.frame_bind fun s => ?_
  rw [exec_store_bind]
  split
  · exact Evolves.of_kept (Frame.kept_setOutput _ _)
  · exact Evolves.of_kept (Frame.kept_setOutput _ _)
  · split
    · exact Evolves.of_kept (Frame.kept_setOutput _ _)
    · split <;> exact Evolves.refl s

/-! ## Adjusting bytes -/

theorem adjustLookup_evolves {α : Type} (pending : Nat) (r : Except Fault α) :
    Moves Evolves (adjustLookup pending r) := by
  unfold adjustLookup
  split
  · exact Moves.of_pure _
  · exact (Moves.within _ (discard_evolves _)).bind fun _ => Moves.of_fail _

/-- Storing an adjusted byte where the store has just located it is the store's own
setting of a byte. -/
theorem poke_evolves {β : Type} (pending : Nat) (id : BufferId) (offset : Nat) (v : UInt8)
    {k : Unit → Exec β} (hk : ∀ u, Moves Evolves (k u)) :
    Moves Evolves (store >>= fun st => adjustLookup pending (st.locate id offset) >>= fun loc =>
      modifyStore (·.poke loc v) >>= k) := by
  intro s
  rw [exec_store_bind]
  cases hl : s.store.locate id offset with
  | error f =>
    -- the lookup failed: the bytes still pending are skipped and nothing is stored
    simp only [adjustLookup, bind_assoc, fail_bind]
    exact ((Moves.within _ (discard_evolves _)).bind fun _ => Moves.of_fail _) s
  | ok loc =>
    have hset : s.store.setByte id offset v = .ok (s.store.poke loc v) := by
      rw [Store.setByte, hl]
      rfl
    simp only [adjustLookup, exec_bind, exec_pure, exec_modifyStore]
    exact (Evolves.of_step (Store.Step.setByte id offset v hset)).trans (hk () _)

theorem nextOperand_evolves (source : OperandSource) (i pending : Nat) :
    Moves Evolves (nextOperand source i pending) := by
  unfold nextOperand
  split
  · exact Moves.of_pure _
  · exact (Moves.within _ readByte_evolves).bind fun _ => Moves.of_pure _
  · exact Moves.store_bind fun s =>
      ((adjustLookup_evolves _ _).bind fun _ => Moves.of_pure _) s

theorem adjustSteps_evolves (op : AdjustOp) (cmd : AdjustCommand) (id : BufferId)
    (offset : Nat) (source : OperandSource) (single : UInt8) (i k : Nat) (value carry : UInt8)
    (pending : Nat) :
    Moves Evolves (adjustSteps op cmd id offset source single i k value carry pending) := by
  induction k generalizing i value carry pending with
  | zero => exact Moves.of_pure _
  | succ k ih =>
    unfold adjustSteps
    dsimp only
    -- a run of targets reads each target and stores each result in place; otherwise the
    -- value is carried along to the next step
    split
    · refine Moves.store_bind fun s => ((adjustLookup_evolves _ _).bind fun v => ?_) s
      split
      · exact (nextOperand_evolves _ _ _).bind fun _ => poke_evolves _ _ _ _ fun _ => ih _ _ _ _
      · exact (Moves.of_pure _).bind fun _ => poke_evolves _ _ _ _ fun _ => ih _ _ _ _
    · refine (Moves.of_pure _).bind fun v => ?_
      split
      · exact (nextOperand_evolves _ _ _).bind fun _ => ih _ _ _ _
      · exact (Moves.of_pure _).bind fun _ => ih _ _ _ _

theorem adjustRun_evolves (op : AdjustOp) (cmd : AdjustCommand) (id : BufferId)
    (offset count : Nat) (source : OperandSource) (pending : Nat) :
    Moves Evolves (adjustRun op cmd id offset count source pending) := by
  unfold adjustRun
  dsimp only
  -- the target byte: read up front unless the targets run
  split
  all_goals first
    | refine (Moves.of_pure _).bind fun value => ?_
    | refine Moves.store_bind fun s => ((adjustLookup_evolves _ _).bind fun value => ?_) s
  -- the single operand, read up front unless the operands run
  all_goals split
  all_goals first
    | refine (nextOperand_evolves _ _ _).bind fun x => ?_
    | refine (Moves.of_pure _).bind fun x => ?_
  all_goals refine (adjustSteps_evolves _ _ _ _ _ _ _ _ _ _ _).bind fun y => ?_
  -- the single result, then the last carry, each stored in place
  all_goals
    have hcarry : ∀ c p, Moves Evolves (if op = .addCarry then
        (store >>= fun st => adjustLookup p (st.locate id (offset + count)) >>= fun loc =>
          modifyStore (·.poke loc c) >>= fun _ => pure p) else pure p) := by
      intro c p
      split
      · exact poke_evolves _ _ _ _ fun _ => Moves.of_pure _
      · exact Moves.of_pure _
    split
    · exact poke_evolves _ _ _ _ fun _ => hcarry _ _
    · exact hcarry _ _

theorem bufferAdjust_evolves (id : BufferId) : Moves Evolves (bufferAdjust id) := by
  unfold bufferAdjust
  dsimp only
  -- each read, the run of the operation and the skip of what is left move the session so,
  -- whichever fields the command byte sets
  repeat' first
    | with_reducible exact readByte_evolves
    | with_reducible exact readWord_evolves
    | with_reducible exact readOffset_evolves _
    | with_reducible exact discard_evolves _
    | with_reducible exact adjustRun_evolves _ _ _ _ _ _ _
    | with_reducible exact Moves.of_pure _
    | refine Moves.within _ ?_
    | refine Moves.bind ?_ fun _ => ?_
    | split

/-! ## Calls -/

theorem bufferConditional_evolves {run : Frame → Exec Unit}
    (hrun : ∀ id r o d, Moves Evolves (run (Frame.nested id r o d))) (id : BufferId) :
    Moves Evolves (bufferConditional run id) := by
  unfold bufferConditional
  dsimp only
  -- the operands are read first; the lookups change nothing, and the call is a call
  repeat' first
    | with_reducible exact readByte_evolves
    | with_reducible exact readWord_evolves
    | with_reducible exact readOffset_evolves _
    | with_reducible exact bufferCall_evolves hrun _
    | with_reducible exact Moves.of_store
    | with_reducible exact Moves.of_ofExcept _
    | with_reducible exact Moves.of_pure _
    | refine Moves.within _ ?_
    | refine Moves.bind ?_ fun _ => ?_
    | split

section Decode

variable {run : Frame → Exec Unit}
  (hrun : ∀ id r o d, Moves Evolves (run (Frame.nested id r o d)))
include hrun

theorem buffered_evolves : Moves Evolves (buffered run) := by
  unfold buffered
  refine readWord_evolves.bind fun w => readByte_evolves.bind fun sub => ?_
  split
  · exact bufferWrite_evolves _
  · exact bufferCall_evolves hrun _
  · exact bufferClear_evolves _
  · exact bufferCreate_evolves _
  · exact setOutput_evolves _
  · exact bufferAdjust_evolves _
  · exact bufferConditional_evolves hrun _
  · exact Moves.of_pure _

theorem video_evolves : Moves Evolves (video run) := by
  unfold video generalPoll
  refine readByte_evolves.bind fun c => Moves.ite ?_ (Moves.ite (buffered_evolves hrun)
    (Moves.of_pure _))
  exact readByte_evolves.bind fun _ => (sendPacket_evolves _ _).bind fun _ =>
    Moves.of_modify fun _ => Evolves.of_eq rfl rfl rfl rfl rfl

theorem system_evolves : Moves Evolves (system run) := by
  unfold system
  refine readByte_evolves.bind fun mode => Moves.ite (video_evolves hrun) ?_
  exact Moves.ite ((readBytes_evolves _).bind fun _ => present_evolves _)
    (Moves.ite ((readBytes_evolves _).bind fun _ => present_evolves _) (present_evolves _))

/-- Every command moves the session as a command may, given that the frames it calls do. -/
theorem command_evolves (code : UInt8) : Moves Evolves (command run code) := by
  unfold command
  exact Moves.ite (system_evolves hrun) ((readBytes_evolves _).bind fun _ => present_evolves _)

end Decode

/-! ## The decode loop -/

/-- A nested run ends in the frame it was called from, whether it finished or stopped. -/
theorem exec_enter (nested : Frame) (body : Exec Unit) (s : Session) :
    (enter nested body).exec s =
      ((body.exec { s with frame := nested }).1,
        { (body.exec { s with frame := nested }).2 with frame := s.frame }) := by
  unfold enter
  rw [exec_frame_bind, exec_bind, exec_setFrame]
  dsimp only
  rw [exec_bind, exec_tryCatch]
  rcases body.exec { s with frame := nested } with ⟨_ | _, s'⟩ <;> rfl

theorem enter_evolves {nested : Frame} (hn : nested.input.IsBuffer) {body : Exec Unit}
    (hb : Moves Evolves body) : Moves Evolves (enter nested body) := by
  intro s
  rw [exec_enter]
  have h := hb { s with frame := nested }
  exact ⟨Frame.Kept.refl _, fun _ => h.source hn, h.store, h.options, h.allocator⟩

theorem recover_evolves (e : Interrupt) : Moves Evolves (recover e) := by
  unfold recover
  split
  · exact Moves.ite (logAbort_evolves _) (Moves.of_throw _)
  · exact Moves.of_throw _

/-- Every run of the decode loop moves the session as a command may. -/
theorem runFrame_evolves (n : Nat) : Moves Evolves (runFrame n) := by
  induction n with
  | zero => exact Moves.of_throw _
  | succ n ih =>
    unfold runFrame
    refine inputAvailable_evolves.bind fun ready => Moves.ite ?_ (Moves.of_pure _)
    -- the frames a command calls are run by the loop itself, with one step less
    have hcall : ∀ id r o d, Moves Evolves (enter (Frame.nested id r o d) (runFrame n)) :=
      fun _ _ _ _ => enter_evolves (Frame.isBuffer_nested _ _ _ _) ih
    exact readByte_evolves.bind fun code =>
      ((command_evolves hcall code).tryCatch recover_evolves).bind fun _ => ih

theorem topCommand_evolves (code : UInt8) : Moves Evolves (topCommand code) :=
  command_evolves (fun _ _ _ _ => enter_evolves (Frame.isBuffer_nested _ _ _ _) (runFrame_evolves _))
    code

end Exec

end Coprocessor
