import Mathlib
import Coprocessor.Store.Basic

/-!
# The memory limit at its boundary

The capacity check adds the byte count and the new length with a sum that stops at the
largest machine word, 2^64 - 1, and refuses when that sum passes the limit. Over the natural
numbers the refusal is: the limit lies below the true sum, and below the largest word
(`checkCapacity_of_limit`). Under every limit below the largest word the check is the plain
comparison of the true sum with the limit; a limit of the largest word itself refuses
nothing, however far past it the true sum goes (`capacity_check_passes_overflow`).

Appending to a non-reserved id and creating a free, non-reserved id fail for room exactly
when the check refuses, a create also when the allocator turns the length down, and
otherwise add exactly the new length to the count (`capacity_refusal_exact`).
-/

namespace Coprocessor

namespace Store

variable {st : Store} {L len : Nat} (a : Allocator)

/-- Under a limit, the check refuses exactly when the limit lies below the true sum and
below the largest word. -/
theorem checkCapacity_of_limit (hL : st.limit = some L) (len : Nat) :
    st.checkCapacity len =
      if L < st.used + len ∧ L < wordMax then .error ⟨.unknown, .allocation len⟩
      else .ok () := by
  unfold checkCapacity
  rw [hL]
  simp only [gt_iff_lt, Nat.lt_min]

theorem checkCapacity_of_unlimited (hL : st.limit = none) (len : Nat) :
    st.checkCapacity len = .ok () := by
  unfold checkCapacity
  rw [hL]

theorem checkId_of_not_reserved {id : BufferId} (hid : id.isReserved = false) (op : Operation) :
    checkId op id = .ok () := by
  simp [checkId, hid]

/-- A non-reserved id passes the checks of an append exactly when the length passes the
capacity check, whose fault is charged to the operation. -/
theorem checkAppend_of_not_reserved {id : BufferId} (hid : id.isReserved = false)
    (op : Operation) (len : Nat) :
    st.checkAppend op id len = chargeTo op (st.checkCapacity len) := by
  unfold checkAppend
  rw [checkId_of_not_reserved hid]
  rfl

@[simp] theorem used_appendReadOnly (st : Store) (id : BufferId) (bytes : Array UInt8) :
    (st.appendReadOnly id bytes).used = st.used + bytes.size := rfl

theorem used_createZeroed (st : Store) (id : BufferId) {len : Nat}
    (hcan : a.grants len = true) : (st.createZeroed a id len).used = st.used + len := by
  simp [createZeroed, Segment.zeroed?, hcan]

/-- Appending read-only bytes to a non-reserved id under a limit. -/
theorem append_readOnly_of_limit (hL : st.limit = some L) {id : BufferId}
    (hid : id.isReserved = false) (bytes : Array UInt8) :
    st.append a id (.readOnly bytes) =
      if L < st.used + bytes.size ∧ L < wordMax then
        .error ⟨.bufferWrite, .allocation bytes.size⟩
      else .ok (st.appendReadOnly id bytes) := by
  unfold append
  rw [checkAppend_of_not_reserved hid, checkCapacity_of_limit hL]
  by_cases hc : L < st.used + bytes.size ∧ L < wordMax
  · simp only [NewSegment.length, hc, and_self, if_true]
    rfl
  · simp only [NewSegment.length, hc, if_false]
    rfl

/-- Creating a free, non-reserved id under a limit: refused for room as the check says, or
by the allocator. -/
theorem createWritable_of_limit (hL : st.limit = some L) {id : BufferId}
    (hid : id.isReserved = false) (hfree : st.find? id = none) (len : Nat) :
    st.createWritable a id len =
      if (L < st.used + len ∧ L < wordMax) ∨ a.grants len = false then
        .error ⟨.create, .allocation len⟩
      else .ok (st.createZeroed a id len) := by
  have hnot : st.contains id = false := by
    simpa [contains, Table.contains, find?] using hfree
  unfold createWritable checkCreate
  rw [checkId_of_not_reserved hid, checkCapacity_of_limit hL]
  by_cases hc : L < st.used + len ∧ L < wordMax
  · simp only [hc, hnot, and_self, if_true, true_or]
    rfl
  · cases hcan : a.grants len
    · simp only [hc, hnot, if_false, or_true, if_true]
      rfl
    · simp only [hc, hnot, if_false]
      rfl

/-- The memory limit at its boundary. Under a limit `L`, the capacity check refuses a
length exactly when the count plus the length passes `L` and `L` lies below the largest
word. An append of bytes to a non-reserved id fails exactly then, and otherwise adds exactly
their number to the count; a create of a free, non-reserved id fails with an allocation
fault exactly then or when the allocator refuses the length, and otherwise adds exactly the
length to the count. -/
theorem capacity_refusal_exact (a : Allocator) (st : Store) (L : Nat) (hL : st.limit = some L)
    (id : BufferId) (hid : id.isReserved = false) (len : Nat) :
    (st.checkCapacity len = .error ⟨.unknown, .allocation len⟩ ↔
      L < st.used + len ∧ L < wordMax) ∧
    (st.checkCapacity len = .ok () ↔ ¬(L < st.used + len ∧ L < wordMax)) ∧
    (∀ bytes : Array UInt8, bytes.size = len →
      (st.append a id (.readOnly bytes) = .error ⟨.bufferWrite, .allocation len⟩ ↔
        L < st.used + len ∧ L < wordMax) ∧
      (¬(L < st.used + len ∧ L < wordMax) →
        ∃ st', st.append a id (.readOnly bytes) = .ok st' ∧ st'.used = st.used + len)) ∧
    (st.find? id = none →
      (st.createWritable a id len = .error ⟨.create, .allocation len⟩ ↔
        (L < st.used + len ∧ L < wordMax) ∨ a.grants len = false) ∧
      (¬(L < st.used + len ∧ L < wordMax) → a.grants len = true →
        ∃ st', st.createWritable a id len = .ok st' ∧ st'.used = st.used + len)) := by
  refine ⟨?check, ?pass, ?append, ?create⟩
  case check =>
    rw [checkCapacity_of_limit hL]
    split <;> simp_all
  case pass =>
    rw [checkCapacity_of_limit hL]
    split <;> simp_all
  case append =>
    rintro bytes rfl
    rw [append_readOnly_of_limit a hL hid]
    refine ⟨?_, fun hc => ⟨_, if_neg hc, used_appendReadOnly st id bytes⟩⟩
    split <;> simp_all
  case create =>
    intro hfree
    rw [createWritable_of_limit a hL hid hfree]
    refine ⟨?_, fun hc hcan => ⟨_, ?_, used_createZeroed a st id hcan⟩⟩
    · split <;> simp_all
    · rw [if_neg]
      simp [hc, hcan]

/-- The boundary theorem at a limit of eight, with three bytes held and six more asked
for of an allocator that grants up to four. -/
theorem capacity_refusal_exact_at_eight :
    ((Store.withLimit (some 8)).appendReadOnly ⟨1⟩ #[1, 2, 3]).limit = some 8 ∧
    BufferId.isReserved ⟨2⟩ = false ∧
    let a := Allocator.upTo 4 (by decide)
    let st := (Store.withLimit (some 8)).appendReadOnly ⟨1⟩ #[1, 2, 3]
    (st.checkCapacity 6 = .error ⟨.unknown, .allocation 6⟩ ↔
      8 < st.used + 6 ∧ 8 < wordMax) ∧
    (st.checkCapacity 6 = .ok () ↔ ¬(8 < st.used + 6 ∧ 8 < wordMax)) ∧
    (∀ bytes : Array UInt8, bytes.size = 6 →
      (st.append a ⟨2⟩ (.readOnly bytes) = .error ⟨.bufferWrite, .allocation 6⟩ ↔
        8 < st.used + 6 ∧ 8 < wordMax) ∧
      (¬(8 < st.used + 6 ∧ 8 < wordMax) →
        ∃ st', st.append a ⟨2⟩ (.readOnly bytes) = .ok st' ∧ st'.used = st.used + 6)) ∧
    (st.find? ⟨2⟩ = none →
      (st.createWritable a ⟨2⟩ 6 = .error ⟨.create, .allocation 6⟩ ↔
        (8 < st.used + 6 ∧ 8 < wordMax) ∨ a.grants 6 = false) ∧
      (¬(8 < st.used + 6 ∧ 8 < wordMax) → a.grants 6 = true →
        ∃ st', st.createWritable a ⟨2⟩ 6 = .ok st' ∧ st'.used = st.used + 6)) :=
  ⟨rfl, rfl, capacity_refusal_exact _ _ 8 rfl ⟨2⟩ rfl 6⟩

/-- At a limit of the largest word the check lets through a length that passes it: with
three bytes held, a length of 2^64 - 1 is taken, though three more than the limit. -/
theorem capacity_check_passes_overflow :
    ∃ st, (Store.withLimit (some wordMax)).append (Allocator.upTo 0 (by decide)) ⟨1⟩
        (.readOnly #[0xaa, 0xbb, 0xcc]) = .ok st ∧ wordMax < st.used + wordMax ∧ st.checkCapacity wordMax = .ok () := by
  have hL : (Store.withLimit (some wordMax)).limit = some wordMax := rfl
  refine ⟨(Store.withLimit (some wordMax)).appendReadOnly ⟨1⟩ #[0xaa, 0xbb, 0xcc], ?_, ?_,
    ?_⟩
  · rw [append_readOnly_of_limit _ hL rfl, if_neg (by simp)]
  · simp [withLimit]
  · rw [checkCapacity_of_limit rfl, if_neg (by simp)]

end Store

end Coprocessor
