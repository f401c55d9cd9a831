import Mathlib
import Coprocessor.Proofs.Decode.Input

/-!
# A conditional call is a guarded call

A conditional call first reads all its bytes: the command byte, the id and offset of the
byte to test, an operand buffer's id and offset when the command names one, and an
immediate byte when the comparator takes one from the stream (`Exec.readConditionCall`).
Reading changes nothing but the input (`Session.OnlyRead`). What it does next depends on
the store alone (`ConditionCall.perform`):

* an undefined comparator, codes 10 to 15, does nothing;
* the byte to test is looked up, and a failed lookup stops the command with that fault;
* the operand is a byte of the operand buffer, the immediate byte, or `0` for the
  existence tests, which look no operand buffer up (`ConditionCall.operand`); a failed
  lookup of it stops the command too;
* a comparison that fails does nothing, and one that holds is a call of the buffer, from
  the state the reads left.
-/

namespace Coprocessor

/-- A conditional call as read from the stream: the command, the id and offset of the byte
to test, the operand buffer's id and offset when the command names one, and the immediate
byte, `0` when none is read. -/
structure ConditionCall where
  cmd : ConditionCommand
  checkId : BufferId
  offset : Nat
  operandAt : Option (BufferId × Nat)
  immediate : UInt8

namespace ConditionCall

/-- The operand of the comparison: for a comparator code past `1`, the byte of the operand
buffer when the command names one, else the immediate byte; `0` for the existence tests,
which look nothing up. -/
def operand (q : ConditionCall) (st : Store) : Except Fault UInt8 :=
  if q.cmd.code > 1 then
    match q.operandAt with
    | some (opId, opOffset) => st.getByte opId opOffset
    | none => .ok q.immediate
  else .ok 0

/-- What a conditional call does once its bytes are read: the lookups, the comparison and,
when it holds, the call. -/
def perform (q : ConditionCall) (run : Frame → Exec Unit) (id : BufferId) : Exec Unit :=
  match q.cmd.comparator? with
  | none => pure ()
  | some c => do
    let source ← Exec.within .conditional (Exec.ofExcept ((← Exec.store).getByte q.checkId q.offset))
    let operand ← match q.operandAt with
      | some (opId, opOffset) =>
        if c.hasOperand then
          Exec.within .conditional (Exec.ofExcept ((← Exec.store).getByte opId opOffset))
        else pure q.immediate
      | none => pure q.immediate
    if c.test source operand then Exec.bufferCall run id

end ConditionCall

namespace Session

/-- `s'` is `s` with only the frame's input, or the transport's source, moved on. -/
def OnlyRead (s s' : Session) : Prop :=
  s' = { s with frame := { s.frame with input := s'.frame.input },
                transport := { s.transport with source := s'.transport.source } }

instance : IsPreorder Session OnlyRead where
  refl _ := rfl
  trans _ _ _ h₁ h₂ := by
    unfold OnlyRead at *
    rw [h₂, h₁]

theorem OnlyRead.store_eq {s s' : Session} (h : s.OnlyRead s') : s'.store = s.store := by
  rw [h]

end Session

namespace Exec

open Session

/-- Reads the bytes of a conditional call, up to the comparison. -/
def readConditionCall : Exec ConditionCall := do
  let cmd := ConditionCommand.ofByte (← within .conditional readByte)
  let checkId : BufferId := ⟨← within .conditional readWord⟩
  let offset ← within .conditional (readOffset cmd.wide)
  let operandAt ← if cmd.bufferOperand then do
      let opId ← within .conditional readWord
      let opOffset ← within .conditional (readOffset cmd.wide)
      pure (some ((⟨opId⟩ : BufferId), opOffset))
    else pure none
  let immediate ← if cmd.hasImmediate then within .conditional readByte else pure 0
  pure ⟨cmd, checkId, offset, operandAt, immediate⟩

/-- A conditional call reads its bytes, then performs the comparison and the call. -/
theorem bufferConditional_eq (run : Frame → Exec Unit) (id : BufferId) :
    bufferConditional run id = readConditionCall >>= fun q => q.perform run id := by
  unfold bufferConditional readConditionCall
  simp only [bind_assoc]
  refine congrArg (within .conditional readByte >>= ·) (funext fun b => ?_)
  refine congrArg (within .conditional readWord >>= ·) (funext fun w => ?_)
  refine congrArg (within .conditional (readOffset (ConditionCommand.ofByte b).wide) >>= ·)
    (funext fun offset => ?_)
  -- the flags settle which operand bytes are read; the comparator, what is done with them
  by_cases hb : (ConditionCommand.ofByte b).bufferOperand = true <;>
  by_cases hi : (ConditionCommand.ofByte b).hasImmediate = true <;>
  rcases hc : (ConditionCommand.ofByte b).comparator? with _ | c <;>
  simp only [hb, hi, hc, if_true, if_false, Bool.false_eq_true, bind_assoc, pure_bind,
    ConditionCall.perform]

/-! ## Reading moves only the input -/

theorem readByte_onlyRead : Moves OnlyRead readByte := by
  intro s
  cases hin : s.frame.input with
  | transport =>
    rw [exec_readByte_transport hin, Transport.readTimeout_eq]
    rfl
  | buffer rd =>
    rw [exec_readByte_buffer hin]
    rfl

theorem readWord_onlyRead : Moves OnlyRead readWord :=
  readByte_onlyRead.bind fun _ => readByte_onlyRead.bind fun _ => Moves.of_pure _

theorem readOffset_onlyRead (wide : Bool) : Moves OnlyRead (readOffset wide) := by
  unfold readOffset readTriple
  split
  · exact readByte_onlyRead.bind fun _ => readByte_onlyRead.bind fun _ =>
      readByte_onlyRead.bind fun _ => Moves.of_pure _
  · exact readWord_onlyRead.bind fun _ => Moves.of_pure _

theorem readConditionCall_onlyRead : Moves OnlyRead readConditionCall := by
  unfold readConditionCall
  dsimp only
  repeat' first
    | with_reducible exact readByte_onlyRead
    | with_reducible exact readWord_onlyRead
    | with_reducible exact readOffset_onlyRead _
    | with_reducible exact Moves.of_pure _
    | refine Moves.within _ ?_
    | refine Moves.bind ?_ fun _ => ?_
    | split

/-! ## What is read -/

/-- Every run of `x` that finishes gives a value that `P` accepts. -/
def Gives {α : Type} (P : α → Prop) (x : Exec α) : Prop :=
  ∀ s a s', x.exec s = (.ok a, s') → P a

theorem Gives.any {α : Type} (x : Exec α) : Gives (fun _ => True) x :=
  fun _ _ _ _ => trivial

theorem Gives.of_pure {α : Type} {P : α → Prop} {a : α} (h : P a) : Gives P (pure a) := by
  intro s a' s' he
  cases he
  exact h

theorem Gives.bind {α β : Type} {P : β → Prop} {x : Exec α} {f : α → Exec β} (Q : α → Prop)
    (hx : Gives Q x) (hf : ∀ a, Q a → Gives P (f a)) : Gives P (x >>= f) := by
  intro s b s₂ he
  obtain ⟨a, s₁, hx₁, hf₁⟩ := exec_bind_eq_ok he
  exact hf a (hx s a s₁ hx₁) s₁ b s₂ hf₁

/-- A conditional call names an operand buffer exactly when its command says so, and reads
an immediate byte only when it takes one. -/
theorem readConditionCall_gives :
    Gives (fun q : ConditionCall => q.operandAt.isSome = q.cmd.bufferOperand ∧
      (q.cmd.hasImmediate = false → q.immediate = 0)) readConditionCall := by
  unfold readConditionCall
  simp only [pure_bind]
  -- every way through the reads ends in a call whose fields agree with the flags that led there
  repeat' first
    | with_reducible refine Gives.of_pure ?_
    | refine Gives.bind _ (Gives.any _) fun _ _ => ?_
    | split
  all_goals simp_all [ConditionCommand.hasImmediate]

end Exec

/-! ## What follows the reads -/

namespace Comparator

/-- Codes from `10` on name no comparator. -/
theorem ofCode?_eq_none_iff (code : UInt8) : ofCode? code = none ↔ 10 ≤ code := by
  rw [UInt8.le_iff_toNat_le]
  unfold ofCode?
  split
  all_goals simp_all
  -- the codes past `9`
  omega

/-- The comparators that take an operand are those of codes past `1`. -/
theorem hasOperand_iff {code : UInt8} {c : Comparator} (h : ofCode? code = some c) :
    c.hasOperand = true ↔ 1 < code := by
  rw [UInt8.lt_iff_toNat_lt]
  unfold ofCode? at h
  split at h <;> cases h <;> simp_all [hasOperand]

end Comparator

namespace ConditionCall

/-- Whether the call is made: `false` for an undefined comparator, else the test of the byte
looked up against the operand, or the fault of a failed lookup. -/
def holds (q : ConditionCall) (st : Store) : Except Fault Bool :=
  match q.cmd.comparator? with
  | none => .ok false
  | some c =>
    match st.getByte q.checkId q.offset, q.operand st with
    | .error f, _ => .error f
    | .ok _, .error f => .error f
    | .ok source, .ok operand => .ok (c.test source operand)

/-- An undefined comparator never calls. -/
theorem holds_of_undefined {q : ConditionCall} (h : 10 ≤ q.cmd.code) (st : Store) :
    q.holds st = .ok false := by
  have hc : q.cmd.comparator? = none := (Comparator.ofCode?_eq_none_iff _).mpr h
  simp [holds, hc]

/-- With the fields a read gives, the comparator's own operand flag decides the lookup of the
operand buffer exactly as a code past `1` does. -/
theorem operand_eq {q : ConditionCall} {c : Comparator} (hc : q.cmd.comparator? = some c)
    (hat : q.operandAt.isSome = q.cmd.bufferOperand)
    (himm : q.cmd.hasImmediate = false → q.immediate = 0) (st : Store) :
    q.operand st = match q.operandAt with
      | some (opId, opOffset) => if c.hasOperand then st.getByte opId opOffset else .ok q.immediate
      | none => .ok q.immediate := by
  have hop : c.hasOperand = true ↔ 1 < q.cmd.code := Comparator.hasOperand_iff hc
  unfold operand
  rcases hq : q.operandAt with _ | ⟨opId, opOffset⟩
  · -- no operand buffer: the immediate byte, never read for the existence tests
    by_cases h : 1 < q.cmd.code
    · simp [h]
    · have h0 : q.immediate = 0 := himm (by simp [ConditionCommand.hasImmediate, h])
      simp [h, h0]
  · -- an operand buffer, and so no immediate byte
    have h0 : q.immediate = 0 := himm (by simp_all [ConditionCommand.hasImmediate])
    by_cases h : 1 < q.cmd.code
    · simp [h, hop.mpr h]
    · have hno : c.hasOperand = false := Bool.eq_false_iff.mpr fun h' => h (hop.mp h')
      simp [h, hno, h0]

/-- What a conditional call does after its reads, from the state they left. -/
theorem exec_perform {q : ConditionCall} (hat : q.operandAt.isSome = q.cmd.bufferOperand)
    (himm : q.cmd.hasImmediate = false → q.immediate = 0) (run : Frame → Exec Unit)
    (id : BufferId) (s : Session) :
    (q.perform run id).exec s = match q.holds s.store with
      | .error f => (.error (.fault (f.during .conditional)), s)
      | .ok false => (.ok (), s)
      | .ok true => (Exec.bufferCall run id).exec s := by
  unfold perform holds
  rcases hc : q.cmd.comparator? with _ | c
  · rfl
  · rw [operand_eq hc hat himm s.store]
    simp only [Exec.exec_bind, Exec.exec_store, Exec.exec_within, Exec.exec_ofExcept]
    rcases hsrc : s.store.getByte q.checkId q.offset with f | src
    · rfl
    · -- the operand: the immediate byte, or a lookup when the comparator takes one
      rcases hat' : q.operandAt with _ | ⟨opId, opOffset⟩ <;> dsimp only
      · rw [pure_bind]
        cases c.test src q.immediate <;> rfl
      · cases hop : c.hasOperand <;>
          simp only [Bool.false_eq_true, if_false, if_true, pure_bind, Exec.exec_bind,
            Exec.exec_store, Exec.exec_within, Exec.exec_ofExcept]
        · cases c.test src q.immediate <;> rfl
        · rcases s.store.getByte opId opOffset with g | v
          · rfl
          · dsimp only
            cases c.test src v <;> rfl

end ConditionCall

/-- A conditional call is a guarded call. Its reads change nothing but the input, and they
read an operand buffer exactly when the command names one and an immediate byte only when
the comparator takes one. What follows is decided by `ConditionCall.holds` on the store the
command started from: a failed lookup stops it with its fault, and a comparison that fails
or names no comparator does nothing more; one that holds is the call of the buffer, made by
the frame the reads left, with its own restart, missing-buffer and depth cases. -/
theorem conditional_call_is_guarded (run : Frame → Exec Unit) (id : BufferId) (s : Session) :
    match Exec.readConditionCall.exec s with
    | (.error e, s₁) => s.OnlyRead s₁ ∧ (Exec.bufferConditional run id).exec s = (.error e, s₁)
    | (.ok q, s₁) =>
      s.OnlyRead s₁ ∧ q.operandAt.isSome = q.cmd.bufferOperand ∧
        (q.cmd.hasImmediate = false → q.immediate = 0) ∧
        (Exec.bufferConditional run id).exec s = match q.holds s.store with
          | .error f => (.error (.fault (f.during .conditional)), s₁)
          | .ok false => (.ok (), s₁)
          | .ok true => (Exec.bufferCall run id).exec s₁ := by
  rw [Exec.bufferConditional_eq]
  rcases hr : Exec.readConditionCall.exec s with ⟨e | q, s₁⟩
  · exact ⟨Exec.readConditionCall_onlyRead.of_exec hr, Exec.exec_bind_of_error hr⟩
  · have hmoved := Exec.readConditionCall_onlyRead.of_exec hr
    obtain ⟨hat, himm⟩ := Exec.readConditionCall_gives s q s₁ hr
    refine ⟨hmoved, hat, himm, ?_⟩
    rw [Exec.exec_bind_of_ok hr, ConditionCall.exec_perform hat himm, hmoved.store_eq]

end Coprocessor
