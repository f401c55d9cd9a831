import Mathlib
import Coprocessor.Proofs.Adjust.Writes
import Coprocessor.Proofs.Session.Atomic
import Coprocessor.Proofs.Decode.Framing

/-!
# An adjust command follows its reference run

`adjustRun` interleaves target reads, operand fetches and target writes with the bookkeeping
of the immediates still owed. This module shows that it makes exactly the accesses of its
reference run `refTrace`, with the values the reference computes from the session it
starts in, `s₀`.

The tool is `Makes done tr a x`: after the accesses `done`, the command part `x` makes the
accesses `tr` and gives `a`. When all of `tr` succeed from `s₀` the part ends with their
writes made; when one fails it stops with the writes before it made, and no other change to
the store. `Makes` composes over `bind` with the traces appended (`Makes.bind`), so the
proof for the loop follows the statements of its body one by one.

Two things keep the reference's values right while the command writes: a target byte is
read before any write to it, and no operand lies on a byte the command writes (`Apart`).
The first is an invariant of the loop; the second is the hypothesis under which the
command means what its reference says.
-/

namespace Coprocessor

/-- How many input bytes `n` operand fetches take: one each for immediates, none otherwise. -/
def OperandSource.taken (source : OperandSource) (n : Nat) : Nat :=
  if source = .immediate then n else 0

namespace Session

/-- Operand `i` of a source as the session holds it: the `i`-th input byte waiting for
immediates, byte `offset + i` of the operand buffer, and zero without a source or where
there is no such byte. -/
def operand (s : Session) : OperandSource → Nat → UInt8
  | .none, _ => 0
  | .immediate, i => s.pending.getD i 0
  | .buffer opId offset, i => (s.store.getByte opId (offset + i)).toOption.getD 0

/-- The heap byte operand `i` is read from, when it is read from the heap: the operand
buffer's byte, or the input's when the frame reads a buffer. -/
def operandLoc (s : Session) : OperandSource → Nat → Option (Nat × Nat)
  | .none, _ => none
  | .immediate, i =>
    match s.frame.input with
    | .transport => none
    | .buffer r => s.store.heap.locate r.cells (r.position + i)
  | .buffer opId offset, i => s.store.byteLoc opId (offset + i)

/-- Whether an access of an adjust command on buffer `id` succeeds from the session it starts
in: a target byte must lie in the target, an immediate must be waiting on the input, and an
operand buffer's byte must lie in it. -/
def accessOk (s : Session) (id : BufferId) (source : OperandSource) : AdjustAccess → Bool
  | .read pos | .write pos _ => (s.store.getByte id pos).toOption.isSome
  | .operand i =>
    match source with
    | .none => true
    | .immediate => decide (i < s.left)
    | .buffer opId offset => (s.store.getByte opId (offset + i)).toOption.isSome

/-- Operands read only the store and the bytes waiting on the input. -/
theorem operand_congr {s t : Session} (hst : s.store = t.store) (hp : s.pending = t.pending) :
    s.operand = t.operand := by
  funext source i
  cases source <;> simp [operand, hst, hp]

/-- Whether an access succeeds reads only the store and the bytes waiting on the input. -/
theorem accessOk_congr {s t : Session} (hst : s.store = t.store) (hp : s.pending = t.pending) :
    s.accessOk = t.accessOk := by
  have hleft : s.left = t.left := congrArg List.length hp
  funext id source a
  cases a <;> cases source <;> simp only [accessOk, hst, hleft]

end Session

theorem List.takeWhile_append_of_all_eq_false {α : Type} {p : α → Bool} {l₁ : List α}
    (l₂ : List α) (h : l₁.all p = false) : (l₁ ++ l₂).takeWhile p = l₁.takeWhile p := by
  induction l₁ with
  | nil => simp at h
  | cons a l ih =>
    cases hp : p a
    · simp [hp]
    · simp only [List.all_cons, hp, Bool.true_and] at h
      simp [hp, ih h]

namespace Exec

open AdjustAccess Session

variable {α β : Type}

/-- A failed lookup stops the command, and skipping the owed immediates leaves the store as
it stood. -/
theorem adjustLookup_error (q : Nat) (f : Fault) (s : Session) :
    ∃ e s', (adjustLookup q (.error f) : Exec α).exec s = (.error e, s') ∧ s'.store = s.store := by
  have hsame : Moves SameStore (adjustLookup q (.error f) : Exec α) :=
    (Moves.within _ (discard_sameStore q)).bind fun _ => Moves.of_fail _
  have hexit : ∃ e, ((adjustLookup q (.error f) : Exec α).exec s).1 = .error e := by
    simp only [adjustLookup, exec_bind]
    rcases (within .adjust (discard q)).exec s with ⟨_ | _, _⟩ <;> simp
  obtain ⟨e, he⟩ := hexit
  exact ⟨e, _, Prod.ext he rfl, hsame s⟩

/-- A part that stops early stops where it is charged to an operation, in the same state. -/
theorem within_error (op : Operation) {x : Exec α} {s : Session} {e : Interrupt}
    (h : (x.exec s).1 = .error e) : ∃ e', (within op x).exec s = (.error e', (x.exec s).2) := by
  rw [exec_within]
  rcases hx : x.exec s with ⟨r, s'⟩
  rw [hx] at h
  subst h
  cases e <;> exact ⟨_, rfl⟩

section Simulation

variable (s₀ : Session) (id : BufferId) (source : OperandSource)

/-- `s` is where an adjust command on buffer `id` that started at `s₀` stands after the
accesses `done`: the store holds their writes, and the input has moved past the immediates
they fetched. -/
structure Reached (done : List AdjustAccess) (s : Session) : Prop where
  store : s.store = s₀.store.setAll id (writes done)
  took : s₀.Took (source.taken (fetches done)) s

/-- After the accesses `done`, `x` makes the accesses `tr` and gives `a`: when all of them
succeed it ends with their writes made, and when one fails it stops with the writes before
it made. -/
def Makes (done tr : List AdjustAccess) (a : α) (x : Exec α) : Prop :=
  ∀ s, Reached s₀ id source done s →
    (tr.all (s₀.accessOk id source) = true →
      ∃ s', x.exec s = (.ok a, s') ∧ Reached s₀ id source (done ++ tr) s') ∧
    (tr.all (s₀.accessOk id source) = false →
      ∃ e s', x.exec s = (.error e, s') ∧
        s'.store = s₀.store.setAll id (writes (done ++ tr.takeWhile (s₀.accessOk id source))))

/-- No operand among the first `m` lies on the heap byte of a target byte at a position in
`ps`. For operands from a buffer, in a store where no cell is held twice, this says that the
operand buffer is another buffer, or that its operand bytes are at other positions. -/
def OperandsClear (m : Nat) (ps : List Nat) : Prop :=
  ∀ i < m, ∀ p ∈ ps, ∀ l, s₀.operandLoc source i = some l → s₀.store.byteLoc id p ≠ some l

/-- No operand the accesses fetch lies on a heap byte they write. -/
def Apart (tr : List AdjustAccess) : Prop :=
  ∀ i, .operand i ∈ tr → ∀ w ∈ writes tr, ∀ l, s₀.operandLoc source i = some l →
    s₀.store.byteLoc id w.1 ≠ some l

variable {s₀ id source}
variable {done tr tr₁ tr₂ : List AdjustAccess}

/-- Immediates read from the transport lie on no heap byte, so they are clear of every byte
a command stores to. -/
theorem operandsClear_of_transport (hin : s₀.frame.input = .transport) (m : Nat)
    (ps : List Nat) : OperandsClear s₀ id .immediate m ps := by
  intro i _ p _ l hl
  simp [Session.operandLoc, hin] at hl

theorem reached_start : Reached s₀ id source [] s₀ :=
  ⟨rfl, by simpa [OperandSource.taken] using Took.refl s₀⟩

/-- An access that neither writes nor fetches leaves where the command stands unchanged. -/
theorem Reached.of_read {s : Session} (hs : Reached s₀ id source done s) (p : Nat) :
    Reached s₀ id source (done ++ [.read p]) s :=
  ⟨by simp [hs.store], by simpa using hs.took⟩

/-- Operands clear of the positions a command stores to are clear of the writes of its
reference run. -/
theorem OperandsClear.apart {op : AdjustOp} {cmd : AdjustCommand} {off count : Nat}
    {B o : Nat → UInt8}
    (h : OperandsClear s₀ id source (cmd.operandFetches count)
      (cmd.writtenPositions op off count)) :
    Apart s₀ id source (refTrace op cmd off count B o) :=
  fun i hi w hw =>
    h i (lt_operandFetches_of_mem_refTrace hi) w.1 (mem_writtenPositions_of_mem_writes hw)

theorem Apart.mono (h : Apart s₀ id source tr₂) (hsub : tr₁ ⊆ tr₂) : Apart s₀ id source tr₁ :=
  fun i hi w hw => h i (hsub hi) w (List.filterMap_subset _ hsub hw)

/-! ## Composing -/

theorem Makes.of_pure {a a' : α} (h : a' = a) : Makes s₀ id source done [] a (pure a') := by
  intro s hs
  exact ⟨fun _ => ⟨s, by rw [h]; rfl, by simpa using hs⟩, fun h => by simp at h⟩

/-- The accesses of a bind are those of its first part, then those of the rest. -/
theorem Makes.bind {x : Exec α} {f : α → Exec β} {a : α} {b : β}
    (hx : Makes s₀ id source done tr₁ a x) (hf : Makes s₀ id source (done ++ tr₁) tr₂ b (f a)) :
    Makes s₀ id source done (tr₁ ++ tr₂) b (x >>= f) := by
  intro s hs
  cases h₁ : tr₁.all (s₀.accessOk id source) with
  | false =>
    -- an access of the first part fails, and the run stops there
    obtain ⟨e, s', hexec, hstore⟩ := (hx s hs).2 h₁
    refine ⟨fun h => by simp [List.all_append, h₁] at h,
      fun _ => ⟨e, s', exec_bind_of_error hexec, ?_⟩⟩
    rw [hstore, List.takeWhile_append_of_all_eq_false _ h₁]
  | true =>
    obtain ⟨s₁, hexec₁, hs₁⟩ := (hx s hs).1 h₁
    obtain ⟨hok, herr⟩ := hf s₁ hs₁
    have hall : (tr₁ ++ tr₂).all (s₀.accessOk id source) = tr₂.all (s₀.accessOk id source) := by
      simp [List.all_append, h₁]
    refine ⟨fun h => ?_, fun h => ?_⟩
    · obtain ⟨s₂, hexec₂, hs₂⟩ := hok (hall ▸ h)
      exact ⟨s₂, by rw [exec_bind_of_ok hexec₁, hexec₂], by simpa using hs₂⟩
    · obtain ⟨e, s₂, hexec₂, hstore⟩ := herr (hall ▸ h)
      refine ⟨e, s₂, by rw [exec_bind_of_ok hexec₁, hexec₂], ?_⟩
      rw [hstore, List.takeWhile_append_of_pos (by simpa using h₁), List.append_assoc]

/-! ## The accesses one by one -/

/-- A read of a target byte that no earlier write names gives the byte the target held at
the start. -/
theorem makes_read (hnd : s₀.store.cells.Nodup) {p q : Nat} (hp : ∀ w ∈ writes done, w.1 ≠ p) :
    Makes s₀ id source done [.read p] (s₀.store.byteOrZero id p)
      (store >>= fun st => adjustLookup q (st.getByte id p)) := by
  intro s hs
  have hget : s.store.getByte id p = s₀.store.getByte id p := by
    rw [hs.store]
    exact Store.getByte_setAll_self hnd hp
  cases hv : s₀.store.getByte id p with
  | ok v =>
    have hval : s₀.store.byteOrZero id p = v := by
      rw [Store.byteOrZero, List.getD_eq_getElem?_getD, ← Store.toOption_getByte_eq_bytesOf, hv]
      rfl
    refine ⟨fun _ => ⟨s, ?_, hs.of_read p⟩, fun h => by simp [accessOk, hv, Except.toOption] at h⟩
    rw [hval]
    simp [hget, hv, adjustLookup]
  | error f =>
    refine ⟨fun h => by simp [accessOk, hv, Except.toOption] at h, fun _ => ?_⟩
    obtain ⟨e, s', hexec, hstore⟩ := adjustLookup_error (α := UInt8) q f s
    refine ⟨e, s', by simp [hget, hv, hexec], ?_⟩
    simp [accessOk, hv, Except.toOption, hstore, hs.store]

/-- With `i` immediates fetched and no write on the heap byte the next one comes from, the
input waits with the immediates from the `i`-th on. -/
theorem Reached.pending_immediate {s : Session} (hs : Reached s₀ id .immediate done s) {i : Nat}
    (hi : fetches done = i)
    (hclear : ∀ w ∈ writes done, ∀ l, s₀.operandLoc .immediate i = some l →
      s₀.store.byteLoc id w.1 ≠ some l) :
    s.pending.head? = s₀.pending[i]? ∧ s.left = s₀.left - i := by
  have htook : s₀.Took i s := by simpa [OperandSource.taken, hi] using hs.took
  cases htook with
  | transport h h' hp => simp [pending, left, h, h', hp, List.head?_drop]
  | buffer r h h' =>
    -- the input is a buffer's bytes: the next one is on a heap byte no write landed on
    have hbyte : s.store.heap.byteAt r.cells (r.position + i) =
        s₀.store.heap.byteAt r.cells (r.position + i) := by
      rw [hs.store]
      exact Store.byteAt_setAll fun l hl w hw => hclear w hw l (by simp [operandLoc, h, hl])
    have hsize : s.store.heap.totalSize r.cells = s₀.store.heap.totalSize r.cells := by
      rw [hs.store, Store.heap_totalSize_setAll]
    rw [Heap.byteAt_eq_getElem?_flat, Heap.byteAt_eq_getElem?_flat] at hbyte
    rw [Heap.totalSize_eq_length_flat, Heap.totalSize_eq_length_flat] at hsize
    simp only [pending, left, h, h', List.head?_drop, List.getElem?_drop, List.length_drop]
    exact ⟨hbyte, by omega⟩

/-- Fetching operand `i` gives the operand the source held at the start, when no earlier
write landed on its heap byte and, for immediates, the `i` before it have been fetched. -/
theorem makes_operand {i q : Nat} (hfetched : source = .immediate → fetches done = i)
    (hclear : ∀ w ∈ writes done, ∀ l, s₀.operandLoc source i = some l →
      s₀.store.byteLoc id w.1 ≠ some l) :
    Makes s₀ id source done [.operand i] (s₀.operand source i, q - source.taken 1)
      (nextOperand source i q) := by
  intro s hs
  cases source with
  | none =>
    refine ⟨fun _ => ⟨s, by simp [nextOperand, Session.operand, OperandSource.taken], ?_⟩,
      fun h => by simp [accessOk] at h⟩
    exact ⟨by simp [hs.store], by simpa [OperandSource.taken] using hs.took⟩
  | immediate =>
    obtain ⟨hhead, hleft⟩ := hs.pending_immediate (hfetched rfl) hclear
    by_cases hi : i < s₀.left
    · -- the operand waits at the head of the input: read it
      have hget : s₀.pending[i]? = some (s₀.operand .immediate i) := by
        simp [Session.operand, List.getD_eq_getElem?_getD,
          List.getElem?_eq_getElem (show i < s₀.pending.length from hi)]
      obtain ⟨rest, hrest⟩ : ∃ rest, s.pending = s₀.operand .immediate i :: rest := by
        cases hp : s.pending with
        | nil => simp [hp, hget] at hhead
        | cons b rest => exact ⟨rest, by simp_all⟩
      obtain ⟨s', hexec, htook, -, hstore⟩ := readByte_cons hrest
      refine ⟨fun _ => ⟨s', ?_, ?_⟩, fun h => by simp [accessOk, hi] at h⟩
      · simp only [nextOperand, exec_bind, exec_within, hexec, exec_pure, OperandSource.taken,
          if_true]
      · exact ⟨by simp [hstore, hs.store], by simpa [OperandSource.taken] using hs.took.trans htook⟩
    · -- nothing waits: the read fails and takes nothing
      have hnil : s.pending = [] :=
        List.eq_nil_of_length_eq_zero (by simp only [left] at hleft hi; omega)
      obtain ⟨-, e, he⟩ := readByte_nil hnil
      have hsame : (readByte.exec s).2.store = s.store := readByte_sameStore s
      refine ⟨fun h => by simp [accessOk, hi] at h, fun _ => ?_⟩
      obtain ⟨e', hw⟩ := within_error .adjust he
      exact ⟨e', _, exec_bind_of_error hw, by simp [accessOk, hi, hsame, hs.store]⟩
  | buffer opId offset =>
    have hget : s.store.getByte opId (offset + i) = s₀.store.getByte opId (offset + i) := by
      rw [hs.store]
      exact Store.getByte_setAll fun l hl w hw => hclear w hw l hl
    cases hv : s₀.store.getByte opId (offset + i) with
    | ok v =>
      refine ⟨fun _ => ⟨s, ?_, ?_⟩, fun h => by simp [accessOk, hv, Except.toOption] at h⟩
      · simp [nextOperand, hget, hv, adjustLookup, Session.operand, Except.toOption,
          OperandSource.taken]
      · exact ⟨by simp [hs.store], by simpa [OperandSource.taken] using hs.took⟩
    | error f =>
      refine ⟨fun h => by simp [accessOk, hv, Except.toOption] at h, fun _ => ?_⟩
      obtain ⟨e, s', hexec, hstore⟩ := adjustLookup_error (α := UInt8) q f s
      refine ⟨e, s', ?_, by simp [accessOk, hv, Except.toOption, hstore, hs.store]⟩
      simp only [nextOperand, exec_store_bind, hget, hv]
      exact exec_bind_of_error hexec

/-- Storing a target byte makes the write, or stops where the byte is not in the target. -/
theorem makes_write {p q : Nat} {v : UInt8} :
    Makes s₀ id source done [.write p v] ()
      (store >>= fun st => adjustLookup q (st.locate id p) >>= fun loc =>
        modifyStore (·.poke loc v)) := by
  intro s hs
  have hloc : s.store.locate id p = s₀.store.locate id p := by rw [hs.store, Store.locate_setAll]
  cases hl : s₀.store.locate id p with
  | ok loc =>
    have hok : s₀.accessOk id source (.write p v) = true := by
      cases hg : s₀.store.getByte id p with
      | ok _ => simp [accessOk, hg, Except.toOption]
      | error f => simp [Store.locate_eq_error_iff.mpr hg] at hl
    refine ⟨fun _ => ⟨{ s with store := s.store.poke loc v }, by simp [hloc, hl, adjustLookup], ?_⟩,
      fun h => by simp [hok] at h⟩
    have hfix : Fixed s { s with store := s.store.poke loc v } := ⟨rfl, rfl⟩
    refine ⟨?_, by simpa using hs.took.trans hfix.took⟩
    -- the poke is the write
    simp [hs.store, Store.setAll_append, Store.trySet_eq, Store.byteLoc, hl, Except.toOption]
  | error f =>
    have hnok : s₀.accessOk id source (.write p v) = false := by
      simp [accessOk, Store.locate_eq_error_iff.mp hl, Except.toOption]
    refine ⟨fun h => by simp [hnok] at h, fun _ => ?_⟩
    obtain ⟨e, s', hexec, hstore⟩ := adjustLookup_error (α := Nat × Nat) q f s
    refine ⟨e, s', by simp [hloc, hl, hexec], ?_⟩
    simp [hnok, hstore, hs.store]

/-! ## Accesses under a flag

Each statement of the loop body makes its access under a flag of the command. The lemmas
below take the access and the flag together, so that the proof for the loop needs no case
split on the flags: the trace and the value carried on are the reference's own `if`s. -/

/-- A target read made under a condition, with the rest of the command after it. -/
theorem Makes.read_ite {c : Prop} [Decidable c] (hnd : s₀.store.cells.Nodup) {p q : Nat}
    {v : UInt8} {K : UInt8 → Exec β} {b : β} (hp : c → ∀ w ∈ writes done, w.1 ≠ p)
    (hK : Makes s₀ id source (done ++ if c then [.read p] else []) tr b
      (K (if c then s₀.store.byteOrZero id p else v))) :
    Makes s₀ id source done ((if c then [.read p] else []) ++ tr) b
      (if c then store >>= (fun st => adjustLookup q (st.getByte id p) >>= K)
       else pure v >>= K) := by
  split_ifs at hK ⊢ with hc
  · simpa only [bind_assoc] using (makes_read hnd (q := q) (hp hc)).bind hK
  · simpa using hK

/-- A target read made unless a condition holds, with the rest of the command after it. -/
theorem Makes.read_unless {c : Prop} [Decidable c] (hnd : s₀.store.cells.Nodup) {p q : Nat}
    {v : UInt8} {K : UInt8 → Exec β} {b : β} (hp : ¬c → ∀ w ∈ writes done, w.1 ≠ p)
    (hK : Makes s₀ id source (done ++ if c then [] else [.read p]) tr b
      (K (if c then v else s₀.store.byteOrZero id p))) :
    Makes s₀ id source done ((if c then [] else [.read p]) ++ tr) b
      (if c then pure v >>= K
       else store >>= (fun st => adjustLookup q (st.getByte id p) >>= K)) := by
  split_ifs at hK ⊢ with hc
  · simpa using hK
  · simpa only [bind_assoc] using (makes_read hnd (q := q) (hp hc)).bind hK

/-- An operand fetch made under a condition, giving `d` without it. -/
theorem Makes.operand_ite {c : Prop} [Decidable c] {i q : Nat} {d x : UInt8}
    {K : UInt8 × Nat → Exec β} {b : β} (hx : c → s₀.operand source i = x) (hd : ¬c → d = x)
    (hfetched : c → source = .immediate → fetches done = i)
    (hclear : c → ∀ w ∈ writes done, ∀ l, s₀.operandLoc source i = some l →
      s₀.store.byteLoc id w.1 ≠ some l)
    (hK : Makes s₀ id source (done ++ if c then [.operand i] else []) tr b
      (K (x, if c then q - source.taken 1 else q))) :
    Makes s₀ id source done ((if c then [.operand i] else []) ++ tr) b
      (if c then nextOperand source i q >>= K else pure (d, q) >>= K) := by
  split_ifs at hK ⊢ with hc
  · rw [← hx hc] at hK
    exact (makes_operand (hfetched hc) (hclear hc)).bind hK
  · rw [← hd hc] at hK
    simpa using hK

/-- A target write made under a condition, with the rest of the command after it. -/
theorem Makes.write_ite {c : Prop} [Decidable c] {p q : Nat} {v : UInt8} {K : Exec β} {b : β}
    (hK : Makes s₀ id source (done ++ if c then [.write p v] else []) tr b K) :
    Makes s₀ id source done ((if c then [.write p v] else []) ++ tr) b
      (if c then store >>= (fun st => adjustLookup q (st.locate id p) >>= fun loc =>
          modifyStore (·.poke loc v) >>= fun _ => K)
       else K) := by
  split_ifs at hK ⊢
  · simpa only [bind_assoc] using (makes_write (q := q)).bind hK
  · simpa using hK

/-! ## The loop and the whole command -/

/-- The steps from `i` on make the reference steps' accesses and carry out the reference's
value and carry. The loop invariant: every write made so far lies before byte `off + i`, the
next one read with a run of targets, and with a run of operands `i` have been fetched. -/
theorem adjustSteps_makes (hnd : s₀.store.cells.Nodup) (op : AdjustOp) (cmd : AdjustCommand)
    (off : Nat) (o : Nat → UInt8) (single : UInt8)
    (hop : ∀ j, (if cmd.multiOperand then s₀.operand source j else single) = o j) :
    ∀ k i (done : List AdjustAccess) (v c : UInt8) (q : Nat),
      (∀ w ∈ writes done, w.1 < off + i) →
      (cmd.multiOperand = true → fetches done = i) →
      Apart s₀ id source (done ++ (refSteps op cmd off (s₀.store.byteOrZero id) o i k v c).1) →
      Makes s₀ id source done (refSteps op cmd off (s₀.store.byteOrZero id) o i k v c).1
        ((refSteps op cmd off (s₀.store.byteOrZero id) o i k v c).2.1,
          (refSteps op cmd off (s₀.store.byteOrZero id) o i k v c).2.2,
          if cmd.multiOperand then q - source.taken k else q)
        (adjustSteps op cmd id off source single i k v c q) := by
  intro k
  induction k with
  | zero =>
    intro i done v c q _ _ _
    exact Makes.of_pure (by simp [refSteps, OperandSource.taken])
  | succ k ih =>
    intro i done v c q hw hf hap
    simp only [refSteps, List.append_assoc] at hap ⊢
    unfold adjustSteps
    dsimp only
    refine Makes.read_ite hnd (fun _ w hw' => Nat.ne_of_lt (hw w hw')) ?_
    refine Makes.operand_ite (fun h => by simpa [h] using hop i) (fun h => by simpa [h] using hop i)
      (fun h _ => by simpa using hf h) ?_ ?_
    · intro hmo w hw' l hl
      exact hap i (by simp [hmo]) w (by simp_all) l hl
    refine Makes.write_ite ?_
    -- the rest of the steps, from `i + 1`, with the immediates owed counted down
    have hq : (if cmd.multiOperand then (if cmd.multiOperand then q - source.taken 1 else q) -
          source.taken k else if cmd.multiOperand then q - source.taken 1 else q) =
        if cmd.multiOperand then q - source.taken (k + 1) else q := by
      split <;> simp only [OperandSource.taken]
      split <;> omega
    rw [← hq]
    refine ih (i + 1) _ _ _ _ ?_ ?_ (by simpa only [List.append_assoc] using hap)
    · intro w hw'
      simp only [writes_append, writes_ite, writes_read, writes_operand, writes_write, writes_nil,
        ite_self, List.append_nil, List.mem_append, List.mem_ite_nil_right,
        List.mem_singleton] at hw'
      rcases hw' with hold | ⟨-, rfl⟩
      · exact Nat.lt_succ_of_lt (hw w hold)
      · exact Nat.lt_succ_self _
    · intro hmo
      simp [hmo, hf hmo]

/-- The operand the loop uses at each step is the reference's: the fetched one with a run of
operands, else the one fetched before the loop, and zero for an operation without any. -/
theorem step_operand (cmd : AdjustCommand) (hsrc : cmd.hasOperand = false → source = .none)
    (j : Nat) :
    (if cmd.multiOperand then s₀.operand source j
      else if (cmd.hasOperand && !cmd.multiOperand) = true then s₀.operand source 0 else 0) =
      cmd.operandAt (s₀.operand source) j := by
  unfold AdjustCommand.operandAt
  cases hmo : cmd.multiOperand <;> cases hho : cmd.hasOperand
  · rfl
  · rfl
  · simp [hsrc hho, Session.operand]
  · rfl

/-- A whole command makes the accesses of its reference run, and gives back the count of
immediates owed less those it fetched. -/
theorem adjustRun_makes (hnd : s₀.store.cells.Nodup) (op : AdjustOp) (cmd : AdjustCommand)
    (off count q : Nat) (hsrc : cmd.hasOperand = false → source = .none)
    (hap : Apart s₀ id source
      (refTrace op cmd off count (s₀.store.byteOrZero id) (cmd.operandAt (s₀.operand source)))) :
    Makes s₀ id source []
      (refTrace op cmd off count (s₀.store.byteOrZero id) (cmd.operandAt (s₀.operand source)))
      (q - source.taken (cmd.operandFetches count)) (adjustRun op cmd id off count source q) := by
  unfold refTrace at hap ⊢
  unfold adjustRun
  dsimp only at hap ⊢
  simp only [List.append_assoc] at hap ⊢
  rw [← List.append_nil (if op = .addCarry then _ else _)]
  -- the target byte, read first without a run of targets
  refine Makes.read_unless hnd (fun _ w hw => by simp at hw) ?_
  -- the one operand, fetched before the loop without a run of operands
  refine Makes.operand_ite
    (x := if (cmd.hasOperand && !cmd.multiOperand) = true then s₀.operand source 0 else 0)
    (fun h => by simp [h]) (fun h => by simp [h]) (fun _ _ => by simp)
    (fun _ w hw => by simp at hw) ?_
  -- the loop
  refine Makes.bind (adjustSteps_makes hnd op cmd off _ _ (step_operand cmd hsrc) count 0 _ _ 0 _
    (fun w hw => by simp at hw) (fun hmo => by simp [hmo])
    (hap.mono fun a ha => by simp only [List.mem_append, List.nil_append] at ha ⊢; tauto)) ?_
  -- the value stored back without a run of targets, then the last carry
  refine Makes.write_ite (Makes.write_ite (Makes.of_pure ?_))
  unfold AdjustCommand.operandFetches OperandSource.taken
  cases cmd.multiOperand <;> cases cmd.hasOperand <;> simp

/-- The immediates a command owes before it starts are those it fetches. -/
theorem owed_eq_taken (cmd : AdjustCommand) (count : Nat)
    (hsrc : cmd.hasOperand = false → source = .none) :
    (if source = .immediate then (if cmd.multiOperand then count else 1) else 0) =
      source.taken (cmd.operandFetches count) := by
  unfold OperandSource.taken AdjustCommand.operandFetches
  split
  · rename_i himm
    have hho : cmd.hasOperand = true := by
      cases hho : cmd.hasOperand
      · rw [hsrc hho] at himm
        cases himm
      · rfl
    simp [hho]
  · rfl

end Simulation

/-- Once its header is read, an adjust command makes the writes of its reference run, from the
session it starts in: all of them, ending well, when every access succeeds; those before
the first failing access, stopping there, when one fails. The store is the one it started
with but for these writes, and where no cell is held twice they change the target's bytes as
the reference's writes say and leave every other buffer's bytes alone. -/
theorem adjustTail_follows_reference (s₀ : Session) (hnd : s₀.store.cells.Nodup) (op : AdjustOp)
    (cmd : AdjustCommand) (id : BufferId) (off count : Nat) (source : OperandSource)
    (hsrc : cmd.hasOperand = false → source = .none)
    (hclear : OperandsClear s₀ id source (cmd.operandFetches count)
      (cmd.writtenPositions op off count)) :
    let tr := refTrace op cmd off count (s₀.store.byteOrZero id) (cmd.operandAt (s₀.operand source))
    let run := adjustRun op cmd id off count source
      (if source = .immediate then (if cmd.multiOperand then count else 1) else 0) >>= fun q =>
        within .adjust (discard q)
    (tr.all (s₀.accessOk id source) = true →
      ∃ s', run.exec s₀ = (.ok (), s') ∧ s'.store = s₀.store.setAll id (writes tr)) ∧
    (tr.all (s₀.accessOk id source) = false →
      ∃ e s', run.exec s₀ = (.error e, s') ∧
        s'.store = s₀.store.setAll id (writes (tr.takeWhile (s₀.accessOk id source)))) ∧
    ∀ ws y, (s₀.store.setAll id ws).bytesOf y =
      if y = id then applyWrites (s₀.store.bytesOf id) ws else s₀.store.bytesOf y := by
  dsimp only
  have hmakes := adjustRun_makes hnd op cmd off count
    (if source = .immediate then (if cmd.multiOperand then count else 1) else 0) hsrc
    hclear.apart s₀ reached_start
  have howed : (if source = .immediate then (if cmd.multiOperand then count else 1) else 0) -
      source.taken (cmd.operandFetches count) = 0 := by
    rw [owed_eq_taken cmd count hsrc, Nat.sub_self]
  rw [howed] at hmakes
  refine ⟨fun h => ?_, fun h => ?_, fun ws y => Store.bytesOf_setAll hnd⟩
  · -- every access succeeds: nothing is owed at the end, and the skip reads nothing
    obtain ⟨s', hexec, hs'⟩ := hmakes.1 h
    refine ⟨s', ?_, by simpa using hs'.store⟩
    rw [exec_bind_of_ok hexec]
    rfl
  · obtain ⟨e, s', hexec, hstore⟩ := hmakes.2 h
    exact ⟨e, s', exec_bind_of_error hexec, by simpa using hstore⟩

end Exec

end Coprocessor
