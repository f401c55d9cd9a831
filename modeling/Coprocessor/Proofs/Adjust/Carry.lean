import Mathlib
import Coprocessor.Proofs.Adjust.Command

/-!
# Add with carry adds little-endian numbers

With a run of targets and a run of operands, add-with-carry over `count` steps adds two
little-endian numbers of `count` bytes: the target's bytes from `off`, and the operands.
Step `i` adds byte `off + i`, operand `i` and the carry in, stores the low byte of the sum at
`off + i` and carries the rest, which is never more than one; the last carry is stored at
`off + count`. Read as one little-endian number, the bytes from `off` to `off + count` then
hold the sum, and no other byte changes.

The argument is the one for a ripple-carry adder. One step turns value, operand and carry in
into a result and a carry out with `result + 256 * carry = value + operand + carry`
(`AdjustOp.addCarry_apply_toNat`). By induction over the steps, the bytes the steps store,
plus the last carry weighted by `256 ^ count`, are the two numbers plus the first carry
(`number_refSteps_addCarry`).
-/

namespace Coprocessor

open AdjustAccess

namespace Shape

@[simp] theorem number_nil : number [] = 0 := rfl

@[simp] theorem number_cons (b : UInt8) (bs : List UInt8) :
    number (b :: bs) = b.toNat + 256 * number bs := rfl

/-- `number` reads bytes as the digits of a number in base 256, the least significant first. -/
theorem number_eq_ofDigits (bs : List UInt8) :
    number bs = Nat.ofDigits 256 (bs.map UInt8.toNat) := by
  induction bs with
  | nil => rfl
  | cons b bs ih => rw [number_cons, ih, List.map_cons, Nat.ofDigits_cons]

theorem number_append (bs bs' : List UInt8) :
    number (bs ++ bs') = number bs + 256 ^ bs.length * number bs' := by
  rw [number_eq_ofDigits, number_eq_ofDigits, number_eq_ofDigits, List.map_append,
    Nat.ofDigits_append, List.length_map]

/-- The `k` values of `f` from `p` spell the sum of each value weighted by its power of 256. -/
theorem number_map_range' (f : Nat → UInt8) (p k : Nat) :
    number ((List.range' p k).map f) = ∑ i ∈ Finset.range k, (f (p + i)).toNat * 256 ^ i := by
  induction k generalizing p with
  | zero => rfl
  | succ k ih =>
    rw [List.range'_succ, List.map_cons, number_cons, ih, Finset.sum_range_succ', Finset.mul_sum]
    -- the values from `p + 1` weigh one power of 256 more than they do from `p`
    have hshift : ∀ i ∈ Finset.range k,
        256 * ((f (p + 1 + i)).toNat * 256 ^ i) = (f (p + (i + 1))).toNat * 256 ^ (i + 1) := by
      intro i _
      rw [show p + 1 + i = p + (i + 1) by omega, pow_succ]
      ring
    rw [Finset.sum_congr rfl hshift]
    simp only [Nat.add_zero, pow_zero, Nat.mul_one]
    omega

end Shape

open Shape

namespace AdjustOp

/-- One add-with-carry step: the result and 256 times the carry out make the value, the
operand and the carry in. -/
theorem addCarry_apply_toNat (x o c : UInt8) :
    (addCarry.apply x o c).1.toNat + 256 * (addCarry.apply x o c).2.toNat =
      x.toNat + o.toNat + c.toNat := by
  have hx := x.toNat_lt
  have ho := o.toNat_lt
  have hc := c.toNat_lt
  simp only [apply, UInt8.toNat_ofNat']
  omega

/-- A carry in of at most one gives a carry out of at most one. -/
theorem addCarry_carry_le_one (x o : UInt8) {c : UInt8} (hc : c.toNat ≤ 1) :
    (addCarry.apply x o c).2.toNat ≤ 1 := by
  have hstep := addCarry_apply_toNat x o c
  have hx := x.toNat_lt
  have ho := o.toNat_lt
  omega

end AdjustOp

namespace AdjustCommand

variable {c : AdjustCommand}

/-- Add-with-carry takes an operand. -/
theorem hasOperand_of_op?_eq_addCarry (h : c.op? = some .addCarry) : c.hasOperand = true := by
  unfold op? AdjustOp.ofCode? at h
  have h4 : c.code.toNat = 4 := by
    split at h <;> first | assumption | simp at h
  simp [hasOperand, UInt8.lt_iff_toNat_lt, h4]

/-- With a run of operands, each step fetches its own. -/
theorem operandFetches_of_multiOperand (hmo : c.multiOperand = true) (count : Nat) :
    c.operandFetches count = count := by
  simp [operandFetches, hmo]

theorem operandAt_of_multiOperand (hop : c.hasOperand = true) (hmo : c.multiOperand = true)
    (os : Nat → UInt8) : c.operandAt os = os := by
  funext i
  simp [operandAt, hop, hmo]

/-- With a run of targets, add-with-carry stores to `off`, …, `off + count`. -/
theorem writtenPositions_addCarry (hmt : c.multiTarget = true) (off count : Nat) :
    c.writtenPositions .addCarry off count = List.range' off (count + 1) := by
  simp [writtenPositions, hmt, List.range'_eq_map_range, List.range_succ]

end AdjustCommand

/-! ## The reference run of add-with-carry -/

section Reference

variable {c : AdjustCommand} {off : Nat} {B o : Nat → UInt8}

/-- One step with a run of targets: step `i` stores its result at `off + i`, and the steps
after it go on from its result and carry out. -/
theorem writes_refSteps_succ (hmt : c.multiTarget = true) (op : AdjustOp) (i k : Nat)
    (x carry : UInt8) :
    writes (refSteps op c off B o i (k + 1) x carry).1 =
      (off + i, (op.apply (B (off + i)) (o i) carry).1) ::
        writes (refSteps op c off B o (i + 1) k (op.apply (B (off + i)) (o i) carry).1
          (op.apply (B (off + i)) (o i) carry).2).1 := by
  simp [refSteps, hmt]

theorem refSteps_succ_snd (hmt : c.multiTarget = true) (op : AdjustOp) (i k : Nat)
    (x carry : UInt8) :
    (refSteps op c off B o i (k + 1) x carry).2 =
      (refSteps op c off B o (i + 1) k (op.apply (B (off + i)) (o i) carry).1
        (op.apply (B (off + i)) (o i) carry).2).2 := by
  simp [refSteps, hmt]

/-- With a run of targets, the steps from `i` store to `off + i`, `off + i + 1`, … in turn. -/
theorem positions_refSteps (hmt : c.multiTarget = true) (op : AdjustOp) (k : Nat) :
    ∀ (i : Nat) (x carry : UInt8),
      (writes (refSteps op c off B o i k x carry).1).map Prod.fst = List.range' (off + i) k := by
  induction k with
  | zero => intro i x carry; rfl
  | succ k ih =>
    intro i x carry
    rw [writes_refSteps_succ hmt, List.map_cons, ih, List.range'_succ, Nat.add_assoc]

/-- The carry chain: with a run of targets, the bytes the steps from `i` store, read as one
number, plus their last carry weighted by `256 ^ k`, are the target's bytes from `off + i`
plus the operands from `i`, each read as one number, plus the carry in. -/
theorem number_refSteps_addCarry (hmt : c.multiTarget = true) (k : Nat) :
    ∀ (i : Nat) (x carry : UInt8),
      number ((writes (refSteps .addCarry c off B o i k x carry).1).map Prod.snd) +
          256 ^ k * (refSteps .addCarry c off B o i k x carry).2.2.toNat =
        number ((List.range' (off + i) k).map B) + number ((List.range' i k).map o) +
          carry.toNat := by
  induction k with
  | zero => intro i x carry; simp [refSteps]
  | succ k ih =>
    intro i x carry
    -- step `i` adds byte `off + i`, operand `i` and the carry in; the steps after it go on
    -- with its carry out
    have hstep := AdjustOp.addCarry_apply_toNat (B (off + i)) (o i) carry
    have hrest := ih (i + 1) (AdjustOp.addCarry.apply (B (off + i)) (o i) carry).1
      (AdjustOp.addCarry.apply (B (off + i)) (o i) carry).2
    rw [← Nat.add_assoc] at hrest
    rw [writes_refSteps_succ hmt, refSteps_succ_snd hmt, List.map_cons, number_cons,
      List.range'_succ, List.range'_succ, List.map_cons, List.map_cons, number_cons, number_cons,
      pow_succ, Nat.mul_right_comm (256 ^ k) 256]
    dsimp only
    omega

/-- With a carry in of at most one, the steps end with a carry of at most one. -/
theorem carry_refSteps_addCarry_le_one (k : Nat) :
    ∀ (i : Nat) (x carry : UInt8), carry.toNat ≤ 1 →
      (refSteps .addCarry c off B o i k x carry).2.2.toNat ≤ 1 := by
  induction k with
  | zero => intro i x carry h; exact h
  | succ k ih =>
    intro i x carry h
    exact ih _ _ _ (AdjustOp.addCarry_carry_le_one _ _ h)

/-- With a run of targets, add-with-carry stores the results of its steps and then its last
carry at `off + count`. -/
theorem writes_refTrace_addCarry (hmt : c.multiTarget = true) (count : Nat) :
    writes (refTrace .addCarry c off count B o) =
      writes (refSteps .addCarry c off B o 0 count 0 0).1 ++
        [(off + count, (refSteps .addCarry c off B o 0 count 0 0).2.2)] := by
  simp [refTrace, hmt]

theorem positions_refTrace_addCarry (hmt : c.multiTarget = true) (count : Nat) :
    (writes (refTrace .addCarry c off count B o)).map Prod.fst = List.range' off (count + 1) := by
  rw [writes_refTrace_addCarry hmt, List.map_append, positions_refSteps hmt, List.range'_concat]
  simp

/-- With a run of targets, add-with-carry stores only from `off` to `off + count`. -/
theorem bounds_of_mem_writes_refTrace_addCarry (hmt : c.multiTarget = true) {count : Nat}
    {w : Nat × UInt8} (hw : w ∈ writes (refTrace .addCarry c off count B o)) :
    off ≤ w.1 ∧ w.1 < off + (count + 1) := by
  have hmem : w.1 ∈ List.range' off (count + 1) := by
    rw [← positions_refTrace_addCarry hmt count]
    exact List.mem_map_of_mem hw
  exact List.mem_range'_1.mp hmem

end Reference

/-! ## The bytes add-with-carry leaves -/

section Bytes

variable {c : AdjustCommand} {off count : Nat} {o : Nat → UInt8} {bytes : List UInt8}

/-- Bytes outside `off` … `off + count` keep their values. -/
theorem getElem?_applyWrites_refTrace_addCarry_of_outside (hmt : c.multiTarget = true)
    (B : Nat → UInt8) {p : Nat} (hp : p < off ∨ off + count < p) :
    (applyWrites bytes (writes (refTrace .addCarry c off count B o)))[p]? = bytes[p]? := by
  apply getElem?_applyWrites_of_forall_ne
  intro w hw
  have hbounds := bounds_of_mem_writes_refTrace_addCarry hmt hw
  omega

/-- The last carry lands at `off + count`. -/
theorem getElem?_applyWrites_refTrace_addCarry_last (hmt : c.multiTarget = true)
    (B : Nat → UInt8) (hroom : off + count < bytes.length) :
    (applyWrites bytes (writes (refTrace .addCarry c off count B o)))[off + count]? =
      some (refSteps .addCarry c off B o 0 count 0 0).2.2 := by
  apply getElem?_applyWrites_of_mem _ _ _ hroom
  · rw [positions_refTrace_addCarry hmt count]
    exact List.nodup_range'
  · rw [writes_refTrace_addCarry hmt]
    simp

/-- The values add-with-carry stores over a run of targets, read as one number, are the
target's `count` bytes from `off` plus the `count` operands, each read as one number. -/
theorem number_writes_refTrace_addCarry (hmt : c.multiTarget = true) (B : Nat → UInt8) :
    number ((writes (refTrace .addCarry c off count B o)).map Prod.snd) =
      number ((List.range' off count).map B) + number ((List.range' 0 count).map o) := by
  have hpos : (writes (refSteps .addCarry c off B o 0 count 0 0).1).map Prod.fst =
      List.range' (off + 0) count :=
    positions_refSteps hmt .addCarry count 0 0 0
  have hlen : (writes (refSteps .addCarry c off B o 0 count 0 0).1).length = count := by
    simpa using congrArg List.length hpos
  have hchain : number ((writes (refSteps .addCarry c off B o 0 count 0 0).1).map Prod.snd) +
      256 ^ count * (refSteps .addCarry c off B o 0 count 0 0).2.2.toNat =
        number ((List.range' (off + 0) count).map B) + number ((List.range' 0 count).map o) +
          (0 : UInt8).toNat :=
    number_refSteps_addCarry hmt count 0 0 0
  rw [writes_refTrace_addCarry hmt, List.map_append, number_append, List.length_map, hlen]
  simpa using hchain

/-- The window from `off` to `off + count` holds the values add-with-carry stores, its last
carry last. -/
theorem window_applyWrites_refTrace_addCarry (hmt : c.multiTarget = true) (B : Nat → UInt8)
    (hroom : off + count < bytes.length) :
    (List.range' off (count + 1)).map
        ((applyWrites bytes (writes (refTrace .addCarry c off count B o))).getD · 0) =
      (writes (refTrace .addCarry c off count B o)).map Prod.snd := by
  have hpos : (writes (refTrace .addCarry c off count B o)).map Prod.fst =
      List.range' off (count + 1) :=
    positions_refTrace_addCarry hmt count
  rw [← hpos]
  refine map_getD_applyWrites bytes (hpos ▸ List.nodup_range') fun w hw => ?_
  have hbounds := bounds_of_mem_writes_refTrace_addCarry hmt hw
  omega

/-- The bytes from `off` to `off + count` spell the sum of the target's `count` bytes from
`off` and the `count` operands. -/
theorem sum_applyWrites_refTrace_addCarry (hmt : c.multiTarget = true)
    (hroom : off + count < bytes.length) :
    ∑ i ∈ Finset.range (count + 1),
        ((applyWrites bytes (writes (refTrace .addCarry c off count (bytes.getD · 0) o))).getD
          (off + i) 0).toNat * 256 ^ i =
      ∑ i ∈ Finset.range count, (bytes.getD (off + i) 0).toNat * 256 ^ i +
        ∑ i ∈ Finset.range count, (o i).toNat * 256 ^ i := by
  have hwin := window_applyWrites_refTrace_addCarry (o := o) hmt (bytes.getD · 0) hroom
  -- read the window from `off` as one number, then as the values stored
  refine (number_map_range' ((applyWrites bytes
    (writes (refTrace .addCarry c off count (bytes.getD · 0) o))).getD · 0) off
      (count + 1)).symm.trans ?_
  rw [hwin, number_writes_refTrace_addCarry hmt, number_map_range', number_map_range']
  simp

end Bytes

/-! ## The command -/

/-- Every access of a reference run succeeds when every position it stores to lies in the
target and every operand it fetches is there. -/
theorem all_accessOk_refTrace {s₀ : Session} {id : BufferId} {source : OperandSource}
    {op : AdjustOp} {cmd : AdjustCommand} {off count : Nat} {B o : Nat → UInt8}
    (hpos : ∀ p ∈ cmd.writtenPositions op off count, p < (s₀.store.bytesOf id).length)
    (hops : ∀ i < cmd.operandFetches count, s₀.accessOk id source (.operand i) = true) :
    (refTrace op cmd off count B o).all (s₀.accessOk id source) = true := by
  rw [List.all_eq_true]
  -- a target access succeeds at every position the run stores to, and it reads no other
  have htarget : ∀ p ∈ cmd.writtenPositions op off count,
      (s₀.store.getByte id p).toOption.isSome = true := by
    intro p hp
    simp [Store.toOption_getByte_eq_bytesOf, hpos p hp]
  intro a ha
  cases a with
  | read p => exact htarget p (mem_writtenPositions_of_read_mem ha)
  | operand i => exact hops i (lt_operandFetches_of_mem_refTrace ha)
  | write p v =>
    exact htarget p (mem_writtenPositions_of_mem_writes (List.mem_filterMap.2 ⟨_, ha, rfl⟩))

open Exec in
/-- An add-with-carry adjust command with a run of targets and a run of operands adds two
little-endian numbers of `n` bytes, `n` the count of its header: the target's bytes from
`off`, the offset of its header, and the operands as the session `s₀` after the header holds
them. When byte `off + n` lies in the target, every operand is there and no operand lies on
a byte from `off` to `off + n`, the command ends well; the bytes from `off` to `off + n` then
spell the sum, every carry is at most one, the last carry lands at `off + n`, and no other
byte of any buffer changes. -/
theorem adjust_add_carry_adds_numbers (id : BufferId) (s : Session) (hnd : s.store.cells.Nodup)
    (b : UInt8) (hop : (AdjustCommand.ofByte b).op? = some .addCarry)
    (hmt : (AdjustCommand.ofByte b).multiTarget = true)
    (hmo : (AdjustCommand.ofByte b).multiOperand = true)
    (hdr rest : List UInt8) (hlen : hdr.length = (AdjustCommand.ofByte b).headerLength)
    (hp : s.pending = b :: (hdr ++ rest)) :
    ∃ s₀, s.Took (1 + hdr.length) s₀ ∧ s₀.store = s.store ∧ s₀.pending = rest ∧
      let cmd := AdjustCommand.ofByte b
      let off := cmd.headerOffset hdr
      let n := cmd.headerCount hdr
      let source := cmd.headerSource hdr
      let B := s.store.bytesOf id
      let o := s₀.operand source
      off + n < B.length →
      (∀ i < n, s₀.accessOk id source (.operand i) = true) →
      OperandsClear s₀ id source n (List.range' off (n + 1)) →
      ∃ s', (bufferAdjust id).exec s = (.ok (), s') ∧
        ∑ i ∈ Finset.range (n + 1), ((s'.store.bytesOf id).getD (off + i) 0).toNat * 256 ^ i =
          ∑ i ∈ Finset.range n, (B.getD (off + i) 0).toNat * 256 ^ i +
            ∑ i ∈ Finset.range n, (o i).toNat * 256 ^ i ∧
        (∀ i ≤ n, (refSteps .addCarry cmd off (s.store.byteOrZero id) o 0 i 0 0).2.2.toNat ≤ 1) ∧
        (s'.store.bytesOf id)[off + n]? =
          some (refSteps .addCarry cmd off (s.store.byteOrZero id) o 0 n 0 0).2.2 ∧
        (∀ p, p < off ∨ off + n < p → (s'.store.bytesOf id)[p]? = B[p]?) ∧
        ∀ y, y ≠ id → s'.store.bytesOf y = s.store.bytesOf y := by
  obtain ⟨s₀, htook, hstore, hrest, hexec⟩ := bufferAdjust_header id hlen hp
  refine ⟨s₀, htook, hstore, hrest, ?_⟩
  dsimp only
  have hsrc : (AdjustCommand.ofByte b).hasOperand = false →
      (AdjustCommand.ofByte b).headerSource hdr = .none :=
    fun h => headerSource_of_hasOperand h hdr
  rw [adjustTail_of_op hop] at hexec
  -- from here on only the command's flags and what its header says matter
  generalize (AdjustCommand.ofByte b).headerOffset hdr = off at hexec ⊢
  generalize (AdjustCommand.ofByte b).headerCount hdr = n at hexec ⊢
  generalize (AdjustCommand.ofByte b).headerSource hdr = source at hexec hsrc ⊢
  generalize AdjustCommand.ofByte b = cmd at hop hmt hmo hexec hsrc ⊢
  intro hroom hops hclear
  -- one operand per step, and the run stores to `off`, …, `off + n`
  have hat := cmd.operandAt_of_multiOperand (cmd.hasOperand_of_op?_eq_addCarry hop) hmo
    (s₀.operand source)
  have hfetch := cmd.operandFetches_of_multiOperand hmo n
  have hpos := cmd.writtenPositions_addCarry hmt off n
  obtain ⟨hok, -, hbytes⟩ := adjustTail_follows_reference s₀ (hstore ▸ hnd) .addCarry
    cmd id off n source hsrc (by rwa [hfetch, hpos])
  rw [hstore, hat] at hok
  rw [hstore] at hbytes
  have hall : (refTrace .addCarry cmd off n (s.store.byteOrZero id) (s₀.operand source)).all
      (s₀.accessOk id source) = true := by
    refine all_accessOk_refTrace (fun p hp => ?_) (by rwa [hfetch])
    rw [hpos, List.mem_range'_1] at hp
    rw [hstore]
    omega
  obtain ⟨s', hx, hst⟩ := hok hall
  have hB' := hbytes
    (writes (refTrace .addCarry cmd off n (s.store.byteOrZero id) (s₀.operand source))) id
  rw [if_pos rfl, ← hst] at hB'
  refine ⟨s', by rw [hexec]; exact hx, ?_, ?_, ?_, ?_, ?_⟩
  · rw [hB']
    exact sum_applyWrites_refTrace_addCarry hmt hroom
  · intro i _
    exact carry_refSteps_addCarry_le_one i 0 0 0 (by decide)
  · rw [hB']
    exact getElem?_applyWrites_refTrace_addCarry_last hmt _ hroom
  · intro p hp
    rw [hB']
    exact getElem?_applyWrites_refTrace_addCarry_of_outside hmt _ hp
  · intro y hy
    rw [hst, hbytes, if_neg hy]

/-- A session with buffer 1 holding the bytes 0xFF, 0xFF, 0, and waiting on the input a
command that adds the two immediates 1, 0 to its bytes 0 and 1 with carry. -/
def addCarryExample : Session :=
  { Session.create .ample (Transport.memory [0xC4, 0, 0, 2, 0, 1, 0]) (.recorder #[]) {} with
    store := (Store.withLimit none).addCell ⟨1⟩ #[0xFF, 0xFF, 0] none }

open Exec in
/-- Adding 1 to 0xFFFF with carry, over buffer 1's bytes 0xFF, 0xFF, 0: every premise holds,
the immediates being the two bytes left on the transport, and the command ends well with the
carry rippled through both bytes into the third. -/
theorem adjust_add_carry_adds_numbers_ripple :
    (addCarryExample.store.cells.Nodup ∧ (AdjustCommand.ofByte 0xC4).op? = some .addCarry ∧
      (AdjustCommand.ofByte 0xC4).multiTarget = true ∧
      (AdjustCommand.ofByte 0xC4).multiOperand = true ∧
      ([0, 0, 2, 0] : List UInt8).length = (AdjustCommand.ofByte 0xC4).headerLength ∧
      addCarryExample.pending = 0xC4 :: ([0, 0, 2, 0] ++ [1, 0])) ∧
    ∃ s₀, addCarryExample.Took (1 + ([0, 0, 2, 0] : List UInt8).length) s₀ ∧
      s₀.store = addCarryExample.store ∧ s₀.pending = [1, 0] ∧
      let cmd := AdjustCommand.ofByte 0xC4
      let off := cmd.headerOffset [0, 0, 2, 0]
      let n := cmd.headerCount [0, 0, 2, 0]
      let source := cmd.headerSource [0, 0, 2, 0]
      let B := addCarryExample.store.bytesOf ⟨1⟩
      let o := s₀.operand source
      off + n < B.length ∧
      (∀ i < n, s₀.accessOk ⟨1⟩ source (.operand i) = true) ∧
      OperandsClear s₀ ⟨1⟩ source n (List.range' off (n + 1)) ∧
      ∃ s', (bufferAdjust ⟨1⟩).exec addCarryExample = (.ok (), s') ∧
        ∑ i ∈ Finset.range (n + 1), ((s'.store.bytesOf ⟨1⟩).getD (off + i) 0).toNat * 256 ^ i =
          ∑ i ∈ Finset.range n, (B.getD (off + i) 0).toNat * 256 ^ i +
            ∑ i ∈ Finset.range n, (o i).toNat * 256 ^ i ∧
        (∀ i ≤ n,
          (refSteps .addCarry cmd off (addCarryExample.store.byteOrZero ⟨1⟩) o 0 i 0 0).2.2.toNat ≤ 1) ∧
        (s'.store.bytesOf ⟨1⟩)[off + n]? =
          some (refSteps .addCarry cmd off (addCarryExample.store.byteOrZero ⟨1⟩) o 0 n 0 0).2.2 ∧
        (∀ p, p < off ∨ off + n < p → (s'.store.bytesOf ⟨1⟩)[p]? = B[p]?) ∧
        ∀ y, y ≠ ⟨1⟩ → s'.store.bytesOf y = addCarryExample.store.bytesOf y := by
  obtain ⟨s₀, htook, hstore, hrest, hrun⟩ := adjust_add_carry_adds_numbers ⟨1⟩ addCarryExample
    (by decide) 0xC4 (by decide) (by decide) (by decide) [0, 0, 2, 0] [1, 0] (by decide)
    (by decide)
  refine ⟨⟨by decide, by decide, by decide, by decide, by decide, by decide⟩, s₀, htook, hstore,
    hrest, ?_⟩
  dsimp only at hrun ⊢
  -- after the header the session holds the store and the two immediates, as `after` does
  let after : Session := { addCarryExample with transport := Transport.memory [1, 0] }
  have hsrc : (AdjustCommand.ofByte 0xC4).headerSource [0, 0, 2, 0] = .immediate := rfl
  have haccess : s₀.accessOk = after.accessOk := Session.accessOk_congr hstore hrest
  have hroom : (AdjustCommand.ofByte 0xC4).headerOffset [0, 0, 2, 0] +
      (AdjustCommand.ofByte 0xC4).headerCount [0, 0, 2, 0] <
        (addCarryExample.store.bytesOf ⟨1⟩).length := by decide
  have hops : ∀ i < (AdjustCommand.ofByte 0xC4).headerCount [0, 0, 2, 0],
      s₀.accessOk ⟨1⟩ ((AdjustCommand.ofByte 0xC4).headerSource [0, 0, 2, 0]) (.operand i) =
        true := by
    rw [haccess]
    decide
  have hclear : OperandsClear s₀ ⟨1⟩ ((AdjustCommand.ofByte 0xC4).headerSource [0, 0, 2, 0])
      ((AdjustCommand.ofByte 0xC4).headerCount [0, 0, 2, 0])
      (List.range' ((AdjustCommand.ofByte 0xC4).headerOffset [0, 0, 2, 0])
        ((AdjustCommand.ofByte 0xC4).headerCount [0, 0, 2, 0] + 1)) := by
    rw [hsrc]
    exact operandsClear_of_transport (htook.input_transport rfl) _ _
  exact ⟨hroom, hops, hclear, hrun hroom hops hclear⟩

/-- 0xFFFF plus 1: the carry ripples through both bytes and lands in the third. -/
example : ((Exec.bufferAdjust ⟨1⟩).exec addCarryExample).2.store.bytesOf ⟨1⟩ = [0, 0, 1] := by
  decide +kernel

end Coprocessor
