import Mathlib
import Coprocessor.Proofs.Session.Evolves
import Coprocessor.Proofs.Store.Invariant

/-!
# Nested calls and where faults stop

A call runs a stored buffer as a nested frame one level deeper than its caller, and only
while the depth limit allows it; a call of the frame's own buffer only rewinds the frame
(`bufferCall_cases`).

A fault stops the command it arises in. The decode loop of the frame that ran the command
logs a recoverable fault and goes on with the next byte, so no enclosing frame sees it. A
call past the depth limit is not recoverable: it stops every enclosing frame where it
stands, with nothing read or run after it, and reaches the top level unchanged, where the
dispatcher logs it once.

The exits of each part are tracked with `Exits`:

* `Recoverable` — a part that calls nothing stops only with a recoverable fault;
* `StopsAt run` — a command stops with a recoverable fault, exactly where a frame it ran
  with `run` stopped, or where the depth check refused a call;
* `Unwound` — the decode loop of a nested frame stops only when the step budget runs out,
  or with the depth fault, in a state that differs from the one the call was refused in
  by the frame alone (`runFrame_unwound`).
-/

namespace Coprocessor

/-- A fault the decode loop logs and carries on after. -/
def Interrupt.IsRecoverable : Interrupt → Prop
  | .fault f => f.isRecoverable = true
  | .outOfFuel => False

@[simp] theorem Interrupt.isRecoverable_fault (f : Fault) :
    (Interrupt.fault f).IsRecoverable ↔ f.isRecoverable = true := Iff.rfl

@[simp] theorem Fault.isRecoverable_during (f : Fault) (op : Operation) :
    (f.during op).isRecoverable = f.isRecoverable := rfl

/-! ## The faults of the transport and of the store -/

theorem Source.readTimeout_recoverable {src : Source} {f : Fault}
    (h : src.readTimeout.1 = .error f) : f.isRecoverable = true := by
  unfold Source.readTimeout at h
  -- a channel with an empty slot leaves it to the receive, which is a second split
  split at h <;> (try split at h) <;> cases h <;> rfl

theorem Transport.readTimeout_recoverable {t : Transport} {f : Fault}
    (h : t.readTimeout.1 = .error f) : f.isRecoverable = true := by
  unfold Transport.readTimeout at h
  rcases hr : t.source.readTimeout with ⟨r, src⟩
  rw [hr] at h
  exact Source.readTimeout_recoverable (hr ▸ h)

theorem Except.bind_eq_error {ε α β : Type} {x : Except ε α} {f : α → Except ε β} {e : ε}
    (h : (x >>= f) = .error e) : x = .error e ∨ ∃ a, x = .ok a ∧ f a = .error e := by
  cases x with
  | error e' =>
    have hx : (Except.error e' >>= f) = Except.error e' := rfl
    rw [hx] at h
    cases h
    exact .inl rfl
  | ok a => exact .inr ⟨a, rfl, h⟩

theorem chargeTo_recoverable {α : Type} {op : Operation} {r : Except Fault α} {f : Fault}
    (hr : ∀ f', r = .error f' → f'.isRecoverable = true) (h : chargeTo op r = .error f) :
    f.isRecoverable = true := by
  unfold chargeTo at h
  cases r with
  | ok a => cases h
  | error f' =>
    cases h
    exact hr f' rfl

namespace Store

variable {st : Store} {f : Fault}

theorem checkId_recoverable {op : Operation} {id : BufferId} (h : checkId op id = .error f) :
    f.isRecoverable = true := by
  unfold checkId at h
  split at h <;> cases h
  rfl

theorem checkCapacity_recoverable {len : Nat} (h : st.checkCapacity len = .error f) :
    f.isRecoverable = true := by
  unfold checkCapacity at h
  repeat' split at h
  all_goals cases h
  rfl

theorem getByte_recoverable {id : BufferId} {offset : Nat} (h : st.getByte id offset = .error f) :
    f.isRecoverable = true := by
  unfold getByte at h
  repeat' split at h
  all_goals cases h
  all_goals rfl

theorem locate_recoverable {id : BufferId} {offset : Nat} (h : st.locate id offset = .error f) :
    f.isRecoverable = true := by
  unfold locate at h
  repeat' split at h
  all_goals cases h
  all_goals rfl

theorem checkAppend_recoverable {op : Operation} {id : BufferId} {len : Nat}
    (h : st.checkAppend op id len = .error f) : f.isRecoverable = true := by
  unfold checkAppend at h
  rcases Except.bind_eq_error h with h | ⟨_, -, h⟩
  · exact checkId_recoverable h
  · exact chargeTo_recoverable (fun _ => checkCapacity_recoverable) h

theorem checkCreate_recoverable {a : Allocator} {id : BufferId} {len : Nat}
    (h : st.checkCreate a id len = .error f) : f.isRecoverable = true := by
  unfold checkCreate at h
  -- the id check, the check that the id is free, the capacity and the allocation
  rcases Except.bind_eq_error h with h | ⟨_, -, h⟩
  · exact checkId_recoverable h
  dsimp only at h
  split at h
  · cases h
    rfl
  rcases Except.bind_eq_error h with h | ⟨_, -, h⟩
  · exact chargeTo_recoverable (fun _ => checkCapacity_recoverable) h
  · split at h <;> cases h
    rfl

end Store

namespace Exec

open Session

/-- The exits of a part that calls nothing: recoverable faults. -/
def Recoverable (e : Interrupt) (_ : Session) : Prop := e.IsRecoverable

theorem Exits.within_recoverable {α : Type} (op : Operation) {x : Exec α}
    (hx : Exits Recoverable x) : Exits Recoverable (Exec.within op x) :=
  Exits.within op hx (fun _ _ h => h) fun _ h => h

/-! ## Reading and writing stop only recoverably -/

theorem readByte_recoverable : Exits Recoverable readByte := by
  intro s e s' h
  cases hin : s.frame.input with
  | transport =>
    rw [exec_readByte_transport hin] at h
    cases hr : s.transport.readTimeout.1 with
    | ok v =>
      rw [hr] at h
      cases h
    | error f =>
      rw [hr] at h
      cases h
      exact Transport.readTimeout_recoverable hr
  | buffer rd =>
    rw [exec_readByte_buffer hin] at h
    -- past the end of the snapshot the read fails with an end of stream
    cases hr : (rd.read s.store.heap).1 with
    | some v =>
      rw [hr] at h
      cases h
    | none =>
      rw [hr] at h
      cases h
      rfl

theorem readWord_recoverable : Exits Recoverable readWord :=
  readByte_recoverable.bind fun _ => readByte_recoverable.bind fun _ => Exits.of_pure _

theorem readOffset_recoverable (wide : Bool) : Exits Recoverable (readOffset wide) := by
  unfold readOffset readTriple
  split
  · exact readByte_recoverable.bind fun _ => readByte_recoverable.bind fun _ =>
      readByte_recoverable.bind fun _ => Exits.of_pure _
  · exact readWord_recoverable.bind fun _ => Exits.of_pure _

theorem readInto_recoverable (n : Nat) (acc : Array UInt8) :
    Exits Recoverable (readInto acc n) := by
  induction n generalizing acc with
  | zero => exact Exits.of_pure _
  | succ n ih => exact readByte_recoverable.bind fun b => ih (acc.push b)

theorem readBytes_recoverable (n : Nat) : Exits Recoverable (readBytes n) :=
  readInto_recoverable n #[]

theorem discard_recoverable (n : Nat) : Exits Recoverable (discard n) := by
  induction n with
  | zero => exact Exits.of_pure _
  | succ n ih => exact readByte_recoverable.bind fun _ => ih

variable {E : Interrupt → Session → Prop}

theorem writeByte_exits (v : UInt8) : Exits E (writeByte v) := by
  unfold writeByte
  refine Exits.of_frame.bind fun f => ?_
  split
  · exact Exits.of_modify _
  · refine Exits.of_store.bind fun st => ?_
    split
    · exact Exits.of_modify _
    · exact Exits.of_pure _
  · exact Exits.of_pure _

theorem sendPacket_exits (code : UInt8) (data : Array UInt8) : Exits E (sendPacket code data) := by
  unfold sendPacket
  refine (writeByte_exits _).bind fun _ => (writeByte_exits _).bind fun _ => ?_
  rw [← Array.forIn_toList]
  exact (Exits.forIn fun b _ => (writeByte_exits b).bind fun _ => Exits.of_pure _).bind
    fun _ => Exits.of_pure _

/-! ## Commands that call nothing stop only recoverably -/

theorem bufferWrite_recoverable (id : BufferId) : Exits Recoverable (bufferWrite id) := by
  unfold bufferWrite
  refine (Exits.within_recoverable _ readWord_recoverable).bind fun len => ?_
  -- no room or no block: the payload is skipped and the write fails with an allocation fault
  have refused : Exits Recoverable (within .bufferWrite (discard len.toNat) >>= fun _ =>
      (fail ⟨.bufferWrite, .allocation len.toNat⟩ : Exec Unit)) :=
    (Exits.within_recoverable _ (discard_recoverable _)).bind fun _ => Exits.of_fail fun _ => rfl
  split
  · exact Exits.within_recoverable _ (discard_recoverable _)
  · refine Exits.of_store.bind fun st => ?_
    split
    · refine Exits.of_allocator.bind fun a => ?_
      split
      · exact (Exits.within_recoverable _ (readBytes_recoverable _)).bind fun _ =>
          (Exits.of_check fun _ _ h => Store.checkAppend_recoverable h).bind fun _ =>
            Exits.of_modify _
      · exact refused
    · exact refused

theorem bufferCreate_recoverable (id : BufferId) : Exits Recoverable (bufferCreate id) :=
  (Exits.within_recoverable _ readWord_recoverable).bind fun _ => Exits.of_allocator.bind fun _ =>
    (Exits.of_check fun _ _ h => Store.checkCreate_recoverable h).bind fun _ => Exits.of_modify _

theorem setOutput_recoverable (id : BufferId) : Exits Recoverable (setOutput id) := by
  unfold setOutput
  refine Exits.of_frame.bind fun f => Exits.of_store.bind fun st => ?_
  split
  · exact Exits.of_modify _
  · exact Exits.of_modify _
  · split
    · exact Exits.of_modify _
    · split <;> exact Exits.of_fail fun _ => rfl

theorem adjustLookup_recoverable {α : Type} (pending : Nat) {r : Except Fault α}
    (hr : ∀ f, r = .error f → f.isRecoverable = true) :
    Exits Recoverable (adjustLookup pending r) := by
  unfold adjustLookup
  cases r with
  | ok a => exact Exits.of_pure _
  | error f =>
    -- the pending operand bytes are skipped, then the lookup's fault stops the command
    exact (Exits.within_recoverable _ (discard_recoverable _)).bind fun _ =>
      Exits.of_fail fun _ => (hr f rfl : f.isRecoverable = true)

/-- The lookups an adjust command makes fail only with lookup faults. -/
theorem getByte_lookup_recoverable (pending : Nat) (id : BufferId) (offset : Nat) :
    Exits Recoverable (store >>= fun st => adjustLookup pending (st.getByte id offset)) :=
  Exits.of_store.bind fun _ => adjustLookup_recoverable pending fun _ h =>
    Store.getByte_recoverable h

theorem nextOperand_recoverable (source : OperandSource) (i pending : Nat) :
    Exits Recoverable (nextOperand source i pending) := by
  unfold nextOperand
  split
  · exact Exits.of_pure _
  · exact (Exits.within_recoverable _ readByte_recoverable).bind fun _ => Exits.of_pure _
  · exact (getByte_lookup_recoverable _ _ _).bind fun _ => Exits.of_pure _

theorem adjustSteps_recoverable (op : AdjustOp) (cmd : AdjustCommand) (id : BufferId)
    (offset : Nat) (source : OperandSource) (single : UInt8) (i k : Nat) (value carry : UInt8)
    (pending : Nat) :
    Exits Recoverable (adjustSteps op cmd id offset source single i k value carry pending) := by
  induction k generalizing i value carry pending with
  | zero => exact Exits.of_pure _
  | succ k ih =>
    unfold adjustSteps
    dsimp only
    repeat' first
      | with_reducible exact ih _ _ _ _
      | with_reducible exact Exits.of_store
      | with_reducible exact adjustLookup_recoverable _ fun _ h => Store.getByte_recoverable h
      | with_reducible exact adjustLookup_recoverable _ fun _ h => Store.locate_recoverable h
      | with_reducible exact nextOperand_recoverable _ _ _
      | exact Exits.of_modify _
      | with_reducible exact Exits.of_pure _
      | with_reducible refine Exits.bind ?_ fun _ => ?_
      | split

theorem adjustRun_recoverable (op : AdjustOp) (cmd : AdjustCommand) (id : BufferId)
    (offset count : Nat) (source : OperandSource) (pending : Nat) :
    Exits Recoverable (adjustRun op cmd id offset count source pending) := by
  unfold adjustRun
  dsimp only
  repeat' first
    | with_reducible exact adjustSteps_recoverable _ _ _ _ _ _ _ _ _ _ _
    | with_reducible exact Exits.of_store
    | with_reducible exact adjustLookup_recoverable _ fun _ h => Store.getByte_recoverable h
    | with_reducible exact adjustLookup_recoverable _ fun _ h => Store.locate_recoverable h
    | with_reducible exact nextOperand_recoverable _ _ _
    | exact Exits.of_modify _
    | with_reducible exact Exits.of_pure _
    | with_reducible refine Exits.bind ?_ fun _ => ?_
    | split

theorem bufferAdjust_recoverable (id : BufferId) : Exits Recoverable (bufferAdjust id) := by
  unfold bufferAdjust
  dsimp only
  repeat' first
    | with_reducible exact readByte_recoverable
    | with_reducible exact readWord_recoverable
    | with_reducible exact readOffset_recoverable _
    | with_reducible exact discard_recoverable _
    | with_reducible exact adjustRun_recoverable _ _ _ _ _ _ _
    | with_reducible exact Exits.of_pure _
    | with_reducible refine Exits.within_recoverable _ ?_
    | with_reducible refine Exits.bind ?_ fun _ => ?_
    | split

/-! ## Calls -/

/-- What a call does: nothing, for no buffer or a missing one; a rewind, for the frame's own
buffer; a depth fault, one level past the limit; and otherwise it runs the stored buffer
as a frame one level deeper than its caller, sending where the caller sends. -/
theorem bufferCall_cases (run : Frame → Exec Unit) (id : BufferId) (s : Session) :
    ((id = BufferId.none ∨ (id ≠ s.frame.id ∧ s.store.find? id = none)) ∧
        (bufferCall run id).exec s = (.ok (), s)) ∨
    (id ≠ BufferId.none ∧ id = s.frame.id ∧
        (bufferCall run id).exec s = (.ok (), { s with frame := s.frame.rewind })) ∨
    (∃ b, id ≠ BufferId.none ∧ id ≠ s.frame.id ∧ s.store.find? id = some b ∧
        s.options.maxCallDepth < s.frame.depth + 1 ∧
        (bufferCall run id).exec s =
          (.error (.fault ⟨.call, .depthExceeded s.options.maxCallDepth⟩), s)) ∨
    (∃ b, id ≠ BufferId.none ∧ id ≠ s.frame.id ∧ s.store.find? id = some b ∧
        s.frame.depth + 1 ≤ s.options.maxCallDepth ∧
        (bufferCall run id).exec s =
          (run (Frame.nested id (Reader.ofBuffer b) s.frame.output (s.frame.depth + 1))).exec s) := by
  unfold bufferCall
  rw [exec_frame_bind]
  by_cases hnone : id = BufferId.none
  · rw [if_pos hnone]
    exact .inl ⟨.inl hnone, rfl⟩
  rw [if_neg hnone]
  by_cases hself : id = s.frame.id
  · rw [if_pos hself]
    exact .inr (.inl ⟨hnone, hself, rfl⟩)
  rw [if_neg hself, exec_get_bind]
  cases hf : s.store.find? id with
  | none => exact .inl ⟨.inr ⟨hself, rfl⟩, rfl⟩
  | some b =>
    dsimp only
    by_cases hdepth : s.frame.depth + 1 > s.options.maxCallDepth
    · rw [if_pos hdepth]
      exact .inr (.inr (.inl ⟨b, hnone, hself, rfl, hdepth, rfl⟩))
    · rw [if_neg hdepth]
      exact .inr (.inr (.inr ⟨b, hnone, hself, rfl, Nat.le_of_not_gt hdepth, rfl⟩))

/-- Only the last branch of a call runs a frame: the call either does the same whatever
`run` is, or runs the stored buffer one level deeper, within the limit. -/
theorem bufferCall_calls (run : Frame → Exec Unit) (id : BufferId) (s : Session) :
    (∀ run' : Frame → Exec Unit, (bufferCall run' id).exec s = (bufferCall run id).exec s) ∨
    ∃ b, s.store.find? id = some b ∧ s.frame.depth + 1 ≤ s.options.maxCallDepth ∧
      (bufferCall run id).exec s =
        (run (Frame.nested id (Reader.ofBuffer b) s.frame.output (s.frame.depth + 1))).exec s := by
  unfold bufferCall
  simp only [exec_frame_bind]
  by_cases hnone : id = BufferId.none
  · refine .inl fun run' => ?_
    simp only [hnone, ite_true]
  by_cases hself : id = s.frame.id
  · refine .inl fun run' => ?_
    simp only [hself, ite_true]
  simp only [hnone, hself, ite_false, exec_get_bind]
  cases hf : s.store.find? id with
  | none => exact .inl fun _ => rfl
  | some b =>
    dsimp only
    by_cases hdepth : s.frame.depth + 1 > s.options.maxCallDepth
    · refine .inl fun run' => ?_
      simp only [hdepth, ite_true]
    · refine .inr ⟨b, rfl, Nat.le_of_not_gt hdepth, ?_⟩
      simp only [hdepth, ite_false]

/-- A call of the frame's own buffer starts the frame again and nothing else. -/
theorem bufferCall_self (run : Frame → Exec Unit) {s : Session} (hn : s.frame.id ≠ BufferId.none) :
    (bufferCall run s.frame.id).exec s = (.ok (), { s with frame := s.frame.rewind }) := by
  unfold bufferCall
  rw [exec_frame_bind, if_neg hn, if_pos rfl]
  rfl

/-- How a command may stop, given the frames it runs with `run`: with a recoverable fault;
exactly where a nested frame it ran stopped; or where the depth check refused a call, in
the very state it refused it in. -/
def StopsAt (run : Frame → Exec Unit) (e : Interrupt) (s' : Session) : Prop :=
  e.IsRecoverable ∨
    (∃ s₀ id r o d, (run (Frame.nested id r o d)).exec s₀ = (.error e, s')) ∨
    (e = .fault ⟨.call, .depthExceeded s'.options.maxCallDepth⟩ ∧
      s'.options.maxCallDepth < s'.frame.depth + 1)

section Decode

variable {run : Frame → Exec Unit}

theorem Exits.stopsAt {α : Type} {x : Exec α} (hx : Exits Recoverable x) :
    Exits (StopsAt run) x :=
  hx.mono fun _ _ h => .inl h

theorem bufferCall_stopsAt (id : BufferId) : Exits (StopsAt run) (bufferCall run id) := by
  intro s e s' h
  rcases bufferCall_cases run id s with ⟨-, hc⟩ | ⟨-, -, hc⟩ | ⟨_, -, -, -, hd, hc⟩ |
      ⟨b, -, -, -, -, hc⟩
  · rw [hc] at h
    cases h
  · rw [hc] at h
    cases h
  · -- refused: the fault stands in the state the call started from
    rw [hc] at h
    cases h
    exact .inr (.inr ⟨rfl, hd⟩)
  · rw [hc] at h
    exact .inr (.inl ⟨s, _, _, _, _, h⟩)

theorem bufferConditional_stopsAt (id : BufferId) :
    Exits (StopsAt run) (bufferConditional run id) := by
  unfold bufferConditional
  dsimp only
  -- the operands and the lookups stop only recoverably; the call is the last thing done
  have hlookup : ∀ r : Except Fault UInt8, (∀ f, r = .error f → f.isRecoverable = true) →
      Exits (StopsAt run) (Exec.within .conditional (ofExcept r)) := fun _ hr =>
    Exits.stopsAt (Exits.within_recoverable _ (Exits.of_ofExcept fun f h _ => hr f h))
  repeat' first
    | with_reducible exact bufferCall_stopsAt id
    | with_reducible exact Exits.stopsAt (Exits.within_recoverable _ readByte_recoverable)
    | with_reducible exact Exits.stopsAt (Exits.within_recoverable _ readWord_recoverable)
    | with_reducible exact Exits.stopsAt (Exits.within_recoverable _ (readOffset_recoverable _))
    | with_reducible exact hlookup _ fun _ h => Store.getByte_recoverable h
    | with_reducible exact Exits.of_store
    | with_reducible exact Exits.of_pure _
    | with_reducible refine Exits.bind ?_ fun _ => ?_
    | split

theorem buffered_stopsAt : Exits (StopsAt run) (buffered run) := by
  unfold buffered
  refine (Exits.stopsAt readWord_recoverable).bind fun _ =>
    (Exits.stopsAt readByte_recoverable).bind fun sub => ?_
  split
  · exact Exits.stopsAt (bufferWrite_recoverable _)
  · exact bufferCall_stopsAt _
  · exact Exits.of_modify _
  · exact Exits.stopsAt (bufferCreate_recoverable _)
  · exact Exits.stopsAt (setOutput_recoverable _)
  · exact Exits.stopsAt (bufferAdjust_recoverable _)
  · exact bufferConditional_stopsAt _
  · exact Exits.of_pure _

theorem video_stopsAt : Exits (StopsAt run) (video run) := by
  unfold video generalPoll
  refine (Exits.stopsAt readByte_recoverable).bind fun c => Exits.ite ?_ (Exits.ite
    buffered_stopsAt (Exits.of_pure _))
  exact (Exits.stopsAt readByte_recoverable).bind fun _ => (sendPacket_exits _ _).bind fun _ =>
    Exits.of_modify _

theorem system_stopsAt : Exits (StopsAt run) (system run) := by
  unfold system
  refine (Exits.stopsAt readByte_recoverable).bind fun mode => Exits.ite video_stopsAt ?_
  exact Exits.ite ((Exits.stopsAt (readBytes_recoverable _)).bind fun _ => Exits.of_modify _)
    (Exits.ite ((Exits.stopsAt (readBytes_recoverable _)).bind fun _ => Exits.of_modify _)
      (Exits.of_modify _))

/-- A command stops with a recoverable fault, or exactly where a call it made stopped. -/
theorem command_stopsAt (code : UInt8) : Exits (StopsAt run) (command run code) := by
  unfold command
  exact Exits.ite system_stopsAt
    ((Exits.stopsAt (readBytes_recoverable _)).bind fun _ => Exits.of_modify _)

end Decode

/-! ## The decode loop of a nested frame -/

/-- How the decode loop of a nested frame may stop: the step budget ran out, or a depth
check refused a call in a state `s₀` from which the end state differs in the frame alone,
so that nothing was read, run, stored or logged after the refusal. -/
def Unwound (e : Interrupt) (s' : Session) : Prop :=
  e = .outOfFuel ∨ ∃ s₀ : Session, e = .fault ⟨.call, .depthExceeded s₀.options.maxCallDepth⟩ ∧
    s₀.options.maxCallDepth < s₀.frame.depth + 1 ∧ s' = { s₀ with frame := s'.frame }

theorem Unwound.with_frame {e : Interrupt} {s' : Session} (h : Unwound e s') (fr : Frame) :
    Unwound e { s' with frame := fr } := by
  rcases h with h | ⟨s₀, he, hd, hs⟩
  · exact .inl h
  · exact .inr ⟨s₀, he, hd, by rw [hs]⟩

theorem Unwound.not_recoverable {e : Interrupt} {s' : Session} (h : Unwound e s') :
    ¬e.IsRecoverable := by
  rcases h with rfl | ⟨s₀, rfl, -, -⟩
  · exact id
  · simp [Fault.isRecoverable, Cause.isRecoverable]

theorem exec_recover_of_recoverable {f : Fault} (hf : f.isRecoverable = true) (s : Session) :
    (recover (.fault f)).exec s = (.ok (), s.logAbort f) := by
  simp only [recover, hf, ite_true, exec_logAbort]

theorem exec_recover_of_not {e : Interrupt} (he : ¬e.IsRecoverable) (s : Session) :
    (recover e).exec s = (.error e, s) := by
  cases e with
  | fault f =>
    have hf : f.isRecoverable = false := by simpa using he
    simp only [recover, hf, Bool.false_eq_true, ite_false, exec_throw]
  | outOfFuel => rfl

/-- A nested frame with a byte left reads it. -/
theorem readByte_available {s : Session} {r : Reader} (hin : s.frame.input = .buffer r)
    (hav : r.available s.store.heap = true) :
    ∃ code s₁, readByte.exec s = (.ok code, s₁) ∧
      s₁.frame.input = .buffer { r with position := r.position + 1 } := by
  rw [exec_readByte_buffer hin, Reader.read_eq]
  have hlt := (Reader.available_iff _ _).mp hav
  rw [List.getElem?_eq_getElem hlt]
  exact ⟨_, _, rfl, rfl⟩

theorem runFrame_unavailable {n : Nat} {s : Session} {r : Reader}
    (hin : s.frame.input = .buffer r) (hav : r.available s.store.heap = false) :
    (runFrame (n + 1)).exec s = (.ok (), s) := by
  rw [runFrame, exec_bind, exec_inputAvailable_buffer hin]
  simp only [hav, Bool.false_eq_true, ite_false, exec_pure]

/-- One turn of the decode loop: the code byte, then the command, its fault handed to
`recover`, then the rest of the loop. -/
theorem runFrame_step {n : Nat} {s s₁ : Session} {r : Reader} {code : UInt8}
    (hin : s.frame.input = .buffer r) (hav : r.available s.store.heap = true)
    (hread : readByte.exec s = (.ok code, s₁)) :
    (runFrame (n + 1)).exec s =
      (tryCatch (command (fun nested => enter nested (runFrame n)) code) recover >>= fun _ =>
        runFrame n).exec s₁ := by
  rw [runFrame, exec_bind, exec_inputAvailable_buffer hin]
  simp only [hav, ite_true]
  rw [exec_bind, hread]

section Loop

variable {n : Nat}
  (ih : ∀ s e s', s.frame.input.IsBuffer → (runFrame n).exec s = (.error e, s') → Unwound e s')
include ih

/-- A nested run hands back its caller's frame and stops as its loop did. -/
theorem enter_unwound {nested : Frame} (hn : nested.input.IsBuffer) {s₀ : Session}
    {e : Interrupt} {s' : Session} (h : (enter nested (runFrame n)).exec s₀ = (.error e, s')) :
    Unwound e s' := by
  rw [exec_enter] at h
  obtain ⟨h₁, h₂⟩ := Prod.mk.inj h
  have hbody := ih _ e _ hn (Prod.ext h₁ rfl)
  rw [← h₂]
  exact hbody.with_frame s₀.frame

/-- A command of a nested frame stops recoverably, or as the loop of a frame it called
did, or where its own call was refused. -/
theorem command_unwound (code : UInt8) {s : Session} {e : Interrupt} {s' : Session}
    (h : (command (fun nested => enter nested (runFrame n)) code).exec s = (.error e, s')) :
    e.IsRecoverable ∨ Unwound e s' := by
  rcases command_stopsAt code s e s' h with hrec | ⟨s₀, id, r, o, d, hrun⟩ | ⟨he, hd⟩
  · exact .inl hrec
  · exact .inr (enter_unwound ih (Frame.isBuffer_nested id r o d) hrun)
  · exact .inr (.inr ⟨s', he, hd, rfl⟩)

end Loop

/-- The decode loop of a nested frame stops only when the budget runs out, or unwinding
from a refused call with nothing done after it. The induction is on the budget: each turn
either goes on, after a command that ended or whose fault was logged, or stops where its
command stopped. -/
theorem runFrame_unwound (n : Nat) :
    ∀ s e s', s.frame.input.IsBuffer → (runFrame n).exec s = (.error e, s') → Unwound e s' := by
  induction n with
  | zero =>
    intro s e s' _ h
    rw [runFrame, exec_throw] at h
    cases h
    exact .inl rfl
  | succ n ih =>
    intro s e s' hbuf h
    obtain ⟨r, hin⟩ : ∃ r, s.frame.input = .buffer r := by
      cases hi : s.frame.input with
      | transport =>
        rw [hi] at hbuf
        exact hbuf.elim
      | buffer r => exact ⟨r, rfl⟩
    cases hav : r.available s.store.heap with
    | false =>
      rw [runFrame_unavailable hin hav] at h
      cases h
    | true =>
      obtain ⟨code, s₁, hread, hin₁⟩ := readByte_available hin hav
      rw [runFrame_step hin hav hread] at h
      rcases exec_bind_eq_error h with htc | ⟨_, s₂, htc, hrest⟩
      · -- the command stopped, and `recover` did not swallow its exit
        rw [exec_tryCatch] at htc
        rcases hx : (command (fun nested => enter nested (runFrame n)) code).exec s₁
            with ⟨_ | _, s₂⟩
        · rename_i e₀
          rw [hx] at htc
          dsimp only at htc
          rcases command_unwound ih code hx with hrec | hunw
          · cases e₀ with
            | fault f =>
              rw [exec_recover_of_recoverable hrec] at htc
              cases htc
            | outOfFuel => exact hrec.elim
          · rw [exec_recover_of_not hunw.not_recoverable] at htc
            cases htc
            exact hunw
        · rw [hx] at htc
          cases htc
      · -- the turn ended, so the rest of the loop runs in the same nested frame
        have hrun : ∀ id r o d, Moves Evolves (enter (Frame.nested id r o d) (runFrame n)) :=
          fun _ _ _ _ => enter_evolves (Frame.isBuffer_nested _ _ _ _) (runFrame_evolves n)
        have hmove := ((@command_evolves (fun nested => enter nested (runFrame n)) hrun
          code).tryCatch recover_evolves) s₁
        rw [htc] at hmove
        have hbuf₁ : s₁.frame.input.IsBuffer := by
          rw [hin₁]
          trivial
        exact ih s₂ e s' (hmove.frame.input.isBuffer hbuf₁) hrest

/-! ## What escapes a call, and what the loop does with a fault -/

/-- A nested run stops only when the budget runs out, or with the depth fault of the
session's own limit. -/
theorem enter_exits (n : Nat) {nested : Frame} (hn : nested.input.IsBuffer) {s : Session}
    {e : Interrupt} {s' : Session} (h : (enter nested (runFrame n)).exec s = (.error e, s')) :
    e = .outOfFuel ∨ e = .fault ⟨.call, .depthExceeded s.options.maxCallDepth⟩ := by
  rcases enter_unwound (runFrame_unwound n) hn h with he | ⟨s₀, he, -, hs⟩
  · exact .inl he
  · -- the options never change, so the limit is the caller's
    have hopt : s'.options = s.options := by
      have := (enter_evolves hn (runFrame_evolves n) s).options
      rwa [h] at this
    have hopt₀ : s'.options = s₀.options := by
      rw [hs]
    exact .inr (by rw [he, ← hopt₀, hopt])

theorem bufferCall_exits (n : Nat) (id : BufferId) {s : Session} {e : Interrupt} {s' : Session}
    (h : (bufferCall (fun nested => enter nested (runFrame n)) id).exec s = (.error e, s')) :
    e = .outOfFuel ∨ e = .fault ⟨.call, .depthExceeded s.options.maxCallDepth⟩ := by
  rcases bufferCall_cases (fun nested => enter nested (runFrame n)) id s with ⟨-, hc⟩ |
      ⟨-, -, hc⟩ | ⟨_, -, -, -, -, hc⟩ | ⟨_, -, -, -, -, hc⟩ <;> rw [hc] at h
  · cases h
  · cases h
  · cases h
    exact .inr rfl
  · exact enter_exits n (Frame.isBuffer_nested _ _ _ _) h

section Turn

variable {n : Nat} {s s₁ s₂ : Session} {r : Reader} {code : UInt8}
  (hin : s.frame.input = .buffer r) (hav : r.available s.store.heap = true)
  (hread : readByte.exec s = (.ok code, s₁))
include hin hav hread

/-- A recoverable fault of a command is logged by the loop of the frame that ran it, which
goes on with its next byte. -/
theorem runFrame_logs {f : Fault}
    (hcmd : (command (fun nested => enter nested (runFrame n)) code).exec s₁ =
      (.error (.fault f), s₂)) (hf : f.isRecoverable = true) :
    (runFrame (n + 1)).exec s = (runFrame n).exec (s₂.logAbort f) := by
  rw [runFrame_step hin hav hread, exec_bind, exec_tryCatch, hcmd]
  dsimp only
  rw [exec_recover_of_recoverable hf]

/-- Any other exit of a command ends the loop at once, in the state the command left. -/
theorem runFrame_stops {e : Interrupt}
    (hcmd : (command (fun nested => enter nested (runFrame n)) code).exec s₁ = (.error e, s₂))
    (he : ¬e.IsRecoverable) :
    (runFrame (n + 1)).exec s = (.error e, s₂) := by
  rw [runFrame_step hin hav hread, exec_bind, exec_tryCatch, hcmd]
  dsimp only
  rw [exec_recover_of_not he]

end Turn

end Exec

namespace Session

/-- The dispatcher logs the fault that stopped a top-level command, once. -/
theorem dispatch_of_fault {s s' : Session} {code : UInt8} {f : Fault}
    (h : (Exec.topCommand code).exec s = (.error (.fault f), s')) :
    s.dispatch code = (s'.logAbort f).flush := by
  have h' : (Exec.topCommand code).run.run s = (.error (.fault f), s') := h
  unfold dispatch
  rw [h']

/-- The dispatcher hands back the frame the top-level command ended in. -/
theorem dispatch_frame (s : Session) (code : UInt8) :
    (s.dispatch code).frame = ((Exec.topCommand code).exec s).2.frame := by
  unfold dispatch flush Exec.exec
  rcases (Exec.topCommand code).run.run s with ⟨r, s'⟩
  dsimp only
  split <;> rfl

end Session

namespace Store

theorem Inv.kind_of_find? {st : Store} (hi : st.Inv) {id : BufferId} {b : Buffer}
    (hf : st.find? id = some b) : id.kind = .buffer := by
  rw [← BufferId.isReserved_eq_false_iff]
  cases hr : id.isReserved
  · rfl
  · rw [hi.reserved id hr] at hf
    cases hf

end Store

open Exec in
/-- Calls nest and faults stay where they belong. A call runs a frame only for a stored
buffer of a non-reserved id, one level deeper than its caller and within the limit; a call
of the frame's own buffer only rewinds it. A nested run stops only with the depth fault
(or when the step budget, which stands for a run that never returns, runs out). A
recoverable fault is logged by the loop of the frame whose command raised it, which goes
on with its next byte; any other exit ends that loop at once, in the state the command
left. An unrecoverable exit of a command, at any depth, is the depth fault raised by a
refused call, with nothing but the frame changed since; the dispatcher logs the fault
that reaches it once and gives back the frame it was given, at the same depth, with the same
id and original output. -/
theorem nesting_and_containment :
    (∀ (run : Frame → Exec Unit) (id : BufferId) (s : Session), s.store.Inv →
      (∀ run' : Frame → Exec Unit, (bufferCall run' id).exec s = (bufferCall run id).exec s) ∨
      ∃ b, s.store.find? id = some b ∧ id.kind = .buffer ∧
        s.frame.depth + 1 ≤ s.options.maxCallDepth ∧
        (bufferCall run id).exec s =
          (run (Frame.nested id (Reader.ofBuffer b) s.frame.output (s.frame.depth + 1))).exec s) ∧
    (∀ (run : Frame → Exec Unit) (s : Session), s.frame.id ≠ BufferId.none →
      (bufferCall run s.frame.id).exec s = (.ok (), { s with frame := s.frame.rewind }) ∧
        s.frame.rewind.depth = s.frame.depth) ∧
    (∀ (n : Nat) (nested : Frame), nested.input.IsBuffer → ∀ s e s',
      (enter nested (runFrame n)).exec s = (.error e, s') →
        e = .outOfFuel ∨ e = .fault ⟨.call, .depthExceeded s.options.maxCallDepth⟩) ∧
    (∀ (n : Nat) id s e s',
      (bufferCall (fun nested => enter nested (runFrame n)) id).exec s = (.error e, s') →
        e = .outOfFuel ∨ e = .fault ⟨.call, .depthExceeded s.options.maxCallDepth⟩) ∧
    (∀ (n : Nat) (s : Session) r code s₁ f s₂, s.frame.input = .buffer r →
      r.available s.store.heap = true → readByte.exec s = (.ok code, s₁) →
      (command (fun nested => enter nested (runFrame n)) code).exec s₁ = (.error (.fault f), s₂) →
      f.isRecoverable = true → (runFrame (n + 1)).exec s = (runFrame n).exec (s₂.logAbort f)) ∧
    (∀ (n : Nat) (s : Session) r code s₁ e s₂, s.frame.input = .buffer r →
      r.available s.store.heap = true → readByte.exec s = (.ok code, s₁) →
      (command (fun nested => enter nested (runFrame n)) code).exec s₁ = (.error e, s₂) →
      ¬e.IsRecoverable → (runFrame (n + 1)).exec s = (.error e, s₂)) ∧
    (∀ (n : Nat) code s e s',
      (command (fun nested => enter nested (runFrame n)) code).exec s = (.error e, s') →
        e.IsRecoverable ∨ Unwound e s') ∧
    (∀ (s : Session) code f s', (topCommand code).exec s = (.error (.fault f), s') →
      s.dispatch code = (s'.logAbort f).flush) ∧
    (∀ (s : Session) code, (s.dispatch code).frame.depth = s.frame.depth ∧
      (s.dispatch code).frame.id = s.frame.id ∧
      (s.dispatch code).frame.originalOutput = s.frame.originalOutput) := by
  refine ⟨?calls, ?self, ?nested, ?call, ?logs, ?stops, ?unwinds, ?dispatch, ?top⟩
  case calls =>
    intro run id s hi
    refine (bufferCall_calls run id s).imp_right fun ⟨b, hf, hd, hrun⟩ => ?_
    exact ⟨b, hf, hi.kind_of_find? hf, hd, hrun⟩
  case self =>
    intro run s hn
    exact ⟨bufferCall_self run hn, (Frame.kept_rewind s.frame).depth⟩
  case nested => exact fun n _ hn _ _ _ h => enter_exits n hn h
  case call => exact fun n id _ _ _ h => bufferCall_exits n id h
  case logs => exact fun _ _ _ _ _ _ _ hin hav hread hcmd hf => runFrame_logs hin hav hread hcmd hf
  case stops => exact fun _ _ _ _ _ _ _ hin hav hread hcmd he => runFrame_stops hin hav hread hcmd he
  case unwinds => exact fun n code _ _ _ h => command_unwound (runFrame_unwound n) code h
  case dispatch => exact fun _ _ _ _ h => Session.dispatch_of_fault h
  case top =>
    intro s code
    -- the dispatcher hands back the frame the top-level command kept
    have hkept := (topCommand_evolves code s).frame
    rw [Session.dispatch_frame]
    exact ⟨hkept.depth, hkept.id, hkept.originalOutput⟩

end Coprocessor
