import Mathlib
import Coprocessor.Proofs.Store.Addressing
import Coprocessor.Proofs.Decode.Input

/-!
# Failed commands change nothing

A store operation gives a fault or a new store, never both, so a caller that gets a fault
keeps the store it had. What makes that faithful is the order of the work: each operation
checks first and commits after. Appending refuses a reserved id, a length that would pass
the limit, and a segment the allocator refuses; creating also refuses an id in use;
setting a byte refuses an absent buffer and an offset past the end; writing output refuses
an absent buffer and a read-only first segment. Every fault is the fault of one of these
checks (`Store.append_eq_error`, `Store.writeOutput_eq_error_iff`, ...), and a write into a
full segment keeps the store as well (`Store.writeOutput_eq_full_iff`).

The commands of the stream keep this. A run that stops early leaves the store as it found
it (`Exec.MovesOnExit`): reading never touches the store, and the one change a command
makes comes last, after every check. A write command reads its whole payload between the
capacity check and the append, and reading changes nothing in the store, so the append
never fails: with the payload there, room for it and a block from the allocator, a write
appends exactly one read-only segment holding the payload (`Exec.bufferWrite_appends`), and
without room or block it drops the payload and fails (`Exec.bufferWrite_refused`). A create
that fails, and a set-output that fails, leave the store, and a set-output the whole session,
as they were.
-/

namespace Coprocessor

/-! ## Store operations fail in their checks -/

namespace Store

variable {a : Allocator} {st st' : Store} {id : BufferId} {f : Fault}

/-- An append fails in its checks, or when the allocator refuses a zeroed segment; both come
before anything is committed. -/
theorem append_eq_error {n : NewSegment} (h : st.append a id n = .error f) :
    st.checkAppend .bufferWrite id n.length = .error f ∨
      ∃ len, n = .zeroed len ∧ a.grants len = false ∧
        f = ⟨.bufferWrite, .allocation len⟩ := by
  unfold append at h
  cases hc : st.checkAppend .bufferWrite id n.length with
  | error f' =>
    rw [hc] at h
    cases h
    exact .inl rfl
  | ok u =>
    rw [hc] at h
    right
    cases n with
    | readOnly bytes => cases h
    | zeroed len =>
      cases hcan : a.grants len
      · simp only [Segment.zeroed?, hcan] at h
        cases h
        exact ⟨len, rfl, hcan, rfl⟩
      · simp [Segment.zeroed?, hcan] at h

theorem createWritable_eq_error_iff {len : Nat} :
    st.createWritable a id len = .error f ↔ st.checkCreate a id len = .error f := by
  unfold createWritable
  cases st.checkCreate a id len <;> simp

/-- Setting a byte fails exactly when locating its offset does. -/
theorem setByte_eq_error_iff_locate {offset : Nat} {v : UInt8} :
    st.setByte id offset v = .error f ↔ st.locate id offset = .error f := by
  unfold setByte
  cases st.locate id offset <;> simp [Except.map]

/-- Writing output fails exactly when finding its place does. -/
theorem writeOutput_eq_error_iff {v : UInt8} :
    st.writeOutput id v = .error f ↔ st.outputSlot id = .error f := by
  unfold writeOutput
  cases st.outputSlot id <;> simp [Except.map]

/-- A write into a full first segment takes nothing and keeps the store. -/
theorem writeOutput_eq_full_iff {v : UInt8} :
    st.writeOutput id v = .ok (false, st') ↔ st.outputSlot id = .ok none ∧ st' = st := by
  unfold writeOutput
  cases st.outputSlot id with
  | error f => simp [Except.map]
  | ok slot =>
    cases slot with
    | none => simp [Except.map, eq_comm]
    | some p => simp [Except.map]

/-- Appending the bytes of a payload as a read-only segment adds a fresh cell holding them. -/
theorem appendReadOnly_eq_addCell (st : Store) (id : BufferId) (data : Array UInt8) :
    st.appendReadOnly id data = st.addCell id data none := rfl

end Store

namespace Exec

open Session

variable {α β : Type} {R : Session → Session → Prop}

/-! ## Runs that stop early -/

/-- Every run of `x` that stops early ends in a state that `R` relates to its start. -/
def MovesOnExit (R : Session → Session → Prop) (x : Exec α) : Prop :=
  ∀ s e s', x.exec s = (.error e, s') → R s s'

theorem MovesOnExit.of_moves {x : Exec α} (hx : Moves R x) : MovesOnExit R x := by
  intro s e s' h
  have hs := hx s
  rwa [h] at hs

/-- A part that never stops early is no source of exits. -/
theorem MovesOnExit.of_never {x : Exec α} (hx : ∀ s, ∃ a, (x.exec s).1 = .ok a) :
    MovesOnExit R x := by
  intro s e s' h
  obtain ⟨a, ha⟩ := hx s
  rw [h] at ha
  cases ha

theorem MovesOnExit.of_modifyStore (g : Store → Store) : MovesOnExit R (modifyStore g) :=
  MovesOnExit.of_never fun _ => ⟨(), rfl⟩

/-- A run stops early in its first part, or in its rest after a first part that moved as
`R`. -/
theorem MovesOnExit.bind [IsPreorder Session R] {x : Exec α} {f : α → Exec β} (hx : Moves R x)
    (hf : ∀ a, MovesOnExit R (f a)) : MovesOnExit R (x >>= f) := by
  intro s e s' h
  rcases exec_bind_eq_error h with hxe | ⟨a, s₁, hxa, hfe⟩
  · exact MovesOnExit.of_moves hx s e s' hxe
  · have h₁ : R s s₁ := by
      have hs := hx s
      rwa [hxa] at hs
    exact trans_of R h₁ (hf a s₁ e s' hfe)

theorem MovesOnExit.within {x : Exec α} (op : Operation) (hx : MovesOnExit R x) :
    MovesOnExit R (within op x) := by
  intro s e s' h
  rw [exec_within] at h
  rcases hr : x.exec s with ⟨_ | a, s₁⟩
  · rw [hr] at h
    rename_i e'
    have h₁ := hx s e' s₁ hr
    cases e' with
    | fault f =>
      cases h
      exact h₁
    | outOfFuel =>
      cases h
      exact h₁
  · rw [hr] at h
    cases h

/-! ## Reading leaves the store alone -/

theorem readInto_sameStore (n : Nat) (acc : Array UInt8) : Moves SameStore (readInto acc n) := by
  induction n generalizing acc with
  | zero => exact Moves.of_pure _
  | succ n ih => exact readByte_sameStore.bind fun b => ih (acc.push b)

theorem discard_sameStore (n : Nat) : Moves SameStore (discard n) := by
  induction n with
  | zero => exact Moves.of_pure _
  | succ n ih => exact readByte_sameStore.bind fun _ => ih

/-- Reading a run of bytes gives them, in order, after those read before. -/
theorem readInto_yields (n : Nat) (acc : Array UInt8) :
    Yields n (fun bs => acc ++ bs.toArray) (readInto acc n) := by
  induction n generalizing acc with
  | zero =>
    refine (Yields.of_pure acc).congr fun bs hbs => ?_
    rw [List.length_eq_zero_iff.mp hbs]
    simp
  | succ n ih =>
    have h := readByte_yields.bind fun b => ih (acc.push b)
    rw [Nat.add_comm] at h
    refine h.congr fun bs hbs => ?_
    match bs, hbs with
    | b :: rest, _ => simp

theorem readBytes_yields (n : Nat) : Yields n (fun bs => bs.toArray) (readBytes n) :=
  (readInto_yields n #[]).congr fun bs _ => by simp

/-! ## Writing, creating and redirecting -/

/-- A write to a reserved id only reads: whatever its outcome, the store stays. -/
theorem bufferWrite_reserved {id : BufferId} (hres : id.isReserved = true) :
    Moves SameStore (bufferWrite id) := by
  unfold bufferWrite
  refine (Moves.within _ readWord_sameStore).bind fun len => ?_
  rw [if_pos hres]
  exact Moves.within _ (discard_sameStore _)

/-- A write that stops early, for want of input or of room, leaves the store as it was: the
one change, the append, comes after the last read and the last check. -/
theorem bufferWrite_movesOnExit (id : BufferId) : MovesOnExit SameStore (bufferWrite id) := by
  unfold bufferWrite
  refine MovesOnExit.bind (Moves.within _ readWord_sameStore) fun len => ?_
  have refused : MovesOnExit SameStore (within .bufferWrite (discard len.toNat) >>= fun _ =>
      (fail ⟨.bufferWrite, .allocation len.toNat⟩ : Exec Unit)) :=
    MovesOnExit.of_moves ((Moves.within _ (discard_sameStore _)).bind fun _ => Moves.of_fail _)
  split
  · exact MovesOnExit.of_moves (Moves.within _ (discard_sameStore _))
  · refine MovesOnExit.bind Moves.of_store fun st => ?_
    split
    · refine MovesOnExit.bind Moves.of_allocator fun a => ?_
      split
      · exact MovesOnExit.bind (Moves.within _ (readBytes_sameStore _)) fun data =>
          MovesOnExit.bind (Moves.of_check _) fun _ => MovesOnExit.of_modifyStore _
      · exact refused
    · exact refused
where
  readBytes_sameStore (n : Nat) : Moves SameStore (readBytes n) := readInto_sameStore n #[]

/-- A create that stops early, for want of input or because its checks refuse, leaves the
store as it was. -/
theorem bufferCreate_movesOnExit (id : BufferId) : MovesOnExit SameStore (bufferCreate id) := by
  unfold bufferCreate
  exact MovesOnExit.bind (Moves.within _ readWord_sameStore) fun _ =>
    MovesOnExit.bind Moves.of_allocator fun _ =>
      MovesOnExit.bind (Moves.of_check _) fun _ => MovesOnExit.of_modifyStore _

/-- A set-output that fails changes nothing at all: the frame keeps its output. -/
theorem setOutput_movesOnExit (id : BufferId) : MovesOnExit Eq (setOutput id) := by
  intro s e s' h
  unfold setOutput at h
  rw [exec_frame_bind, exec_store_bind] at h
  split at h
  · cases h
  · cases h
  · split at h
    · cases h
    · split at h <;>
      · cases h
        rfl

/-- The length word of a write, waiting on the stream, is read with the store and the
allocator left as they were, and the payload waits after it. -/
theorem lengthWord_of_pending {s : Session} {lo hi : UInt8} {rest : List UInt8}
    (hp : s.pending = lo :: hi :: rest) :
    ∃ w s₁, (within .bufferWrite readWord).exec s = (.ok w, s₁) ∧
      w.toNat = Shape.number [lo, hi] ∧ Evolves s s₁ ∧ s₁.store = s.store ∧ s₁.pending = rest := by
  obtain ⟨s₁, hw, -, hp₁⟩ := ((readWord_yields.within .bufferWrite) s).1
    (by simp [left, hp])
  have hev₁ : Evolves s s₁ := by
    have h := (Moves.within .bufferWrite readWord_evolves) s
    rwa [hw] at h
  have hst₁ : s₁.store = s.store := by
    have h := (Moves.within .bufferWrite readWord_sameStore) s
    rwa [hw] at h
  have hword : (UInt16.ofNat (Shape.number (s.pending.take 2))).toNat = Shape.number [lo, hi] := by
    rw [hp]
    exact toNat_ofNat_number_pair lo hi
  exact ⟨_, s₁, hw, hword, hev₁, hst₁, by simp [hp₁, hp]⟩

/-- A write to a non-reserved id whose length and payload are both waiting, with room for
the payload and a block for it from the allocator, succeeds and appends exactly one read-only
segment holding the payload: the payload is read between the capacity check and the append,
and reading changes nothing in the store, so the append's own checks pass. -/
theorem bufferWrite_appends {s : Session} {id : BufferId} {lo hi : UInt8} {rest : List UInt8}
    (hres : id.isReserved = false) (hp : s.pending = lo :: hi :: rest)
    (hlen : Shape.number [lo, hi] ≤ rest.length)
    (hcap : s.store.checkCapacity (Shape.number [lo, hi]) = .ok ())
    (hgrant : s.allocator.grants (Shape.number [lo, hi]) = true) :
    ∃ s', (bufferWrite id).exec s = (.ok (), s') ∧
      s'.store = s.store.addCell id (rest.take (Shape.number [lo, hi])).toArray none := by
  obtain ⟨w, s₁, hw, hword, hev₁, hst₁, hrest₁⟩ := lengthWord_of_pending hp
  generalize Shape.number [lo, hi] = len at hlen hcap hgrant hword ⊢
  -- the payload
  obtain ⟨s₂, hb, -, -⟩ := ((readBytes_yields len).within .bufferWrite s₁).1
    (by simp [left, hrest₁, hlen])
  have hst₂ : s₂.store = s.store := by
    have h := (Moves.within .bufferWrite (bufferWrite_movesOnExit.readBytes_sameStore len)) s₁
    rw [hb] at h
    exact h.trans hst₁
  -- the append's checks see the store the capacity check saw
  have hsize : (s₁.pending.take len).toArray.size = len := by
    simp [hrest₁, hlen]
  have happ : s₂.store.checkAppend .bufferWrite id (s₁.pending.take len).toArray.size = .ok () := by
    rw [hst₂, hsize]
    simp only [Store.checkAppend, Store.checkId, hres, Bool.false_eq_true, if_false, hcap, chargeTo]
    rfl
  refine ⟨{ s₂ with store := s₂.store.appendReadOnly id (s₁.pending.take len).toArray }, ?_, ?_⟩
  · unfold bufferWrite
    rw [exec_bind_of_ok hw]
    simp only [hword, hres, Bool.false_eq_true, if_false, exec_store_bind, hst₁, hcap,
      exec_allocator_bind, hev₁.allocator, hgrant, if_true]
    rw [exec_bind_of_ok hb, exec_bind, exec_check, happ]
    rfl
  · rw [hst₂, Store.appendReadOnly_eq_addCell, hrest₁]

/-- A write to a non-reserved id whose length and payload are both waiting, refused for want
of room or of a block from the allocator, still takes the payload off the stream, so that the
stream stays in step, and fails with an allocation fault, the store as it was. -/
theorem bufferWrite_refused {s : Session} {id : BufferId} {lo hi : UInt8} {rest : List UInt8}
    (hres : id.isReserved = false) (hp : s.pending = lo :: hi :: rest)
    (hlen : Shape.number [lo, hi] ≤ rest.length)
    (hrefuse : s.store.checkCapacity (Shape.number [lo, hi]) ≠ .ok () ∨
      s.allocator.grants (Shape.number [lo, hi]) = false) :
    ∃ s', (bufferWrite id).exec s =
        (.error (.fault ⟨.bufferWrite, .allocation (Shape.number [lo, hi])⟩), s') ∧
      s'.store = s.store ∧ s'.pending = rest.drop (Shape.number [lo, hi]) := by
  obtain ⟨w, s₁, hw, hword, hev₁, hst₁, hrest₁⟩ := lengthWord_of_pending hp
  generalize Shape.number [lo, hi] = len at hlen hrefuse hword ⊢
  -- the payload, dropped
  obtain ⟨v, hv⟩ := discard_takes len
  obtain ⟨s₂, hd, -, hp₂⟩ := ((hv.within .bufferWrite) s₁).1 (by simp [left, hrest₁, hlen])
  have hst₂ : s₂.store = s.store := by
    have h := (Moves.within .bufferWrite (discard_sameStore len)) s₁
    rw [hd] at h
    exact h.trans hst₁
  refine ⟨s₂, ?_, hst₂, by rw [hp₂, hrest₁]⟩
  unfold bufferWrite
  rw [exec_bind_of_ok hw]
  simp only [hword, hres, Bool.false_eq_true, if_false, exec_store_bind, hst₁]
  -- refused for room, or past the capacity check by the allocator
  cases hc : s.store.checkCapacity len with
  | error f =>
    simp only
    rw [exec_bind_of_ok hd, exec_fail]
  | ok u =>
    have hno : s.allocator.grants len = false := hrefuse.resolve_left (by simp [hc])
    simp only [exec_allocator_bind, hev₁.allocator, hno, Bool.false_eq_true, if_false]
    rw [exec_bind_of_ok hd, exec_fail]

end Exec

/-- Failed commands are atomic. A store operation fails only in the checks it makes before
it commits anything, and a write into a full segment keeps the store. A write command whose
length and payload are waiting, with room for the payload and a block for it, appends exactly
one read-only segment holding the payload, its append never failing; refused either, it takes
the payload and fails with an allocation fault, the store kept; a write to a reserved id only
reads;
and a write, a create or a set-output that stops early, for whatever reason, leaves the store
as it was, and a set-output the whole session. -/
theorem commands_fail_atomically :
    (∀ (a : Allocator) (st : Store) id n f, st.append a id n = .error f →
      st.checkAppend .bufferWrite id n.length = .error f ∨
        ∃ len, n = .zeroed len ∧ a.grants len = false ∧
          f = ⟨.bufferWrite, .allocation len⟩) ∧
    (∀ (a : Allocator) (st : Store) id len f,
      st.createWritable a id len = .error f ↔ st.checkCreate a id len = .error f) ∧
    (∀ (st : Store) id offset v f,
      st.setByte id offset v = .error f ↔ st.locate id offset = .error f) ∧
    (∀ (st : Store) id v f, st.writeOutput id v = .error f ↔ st.outputSlot id = .error f) ∧
    (∀ (st st' : Store) id v,
      st.writeOutput id v = .ok (false, st') ↔ st.outputSlot id = .ok none ∧ st' = st) ∧
    (∀ (s : Session) id lo hi rest, id.isReserved = false → s.pending = lo :: hi :: rest →
      Shape.number [lo, hi] ≤ rest.length →
      s.store.checkCapacity (Shape.number [lo, hi]) = .ok () →
      s.allocator.grants (Shape.number [lo, hi]) = true →
      ∃ s', (Exec.bufferWrite id).exec s = (.ok (), s') ∧
        s'.store = s.store.addCell id (rest.take (Shape.number [lo, hi])).toArray none) ∧
    (∀ (s : Session) id lo hi rest, id.isReserved = false → s.pending = lo :: hi :: rest →
      Shape.number [lo, hi] ≤ rest.length →
      (s.store.checkCapacity (Shape.number [lo, hi]) ≠ .ok () ∨
        s.allocator.grants (Shape.number [lo, hi]) = false) →
      ∃ s', (Exec.bufferWrite id).exec s =
          (.error (.fault ⟨.bufferWrite, .allocation (Shape.number [lo, hi])⟩), s') ∧
        s'.store = s.store ∧ s'.pending = rest.drop (Shape.number [lo, hi])) ∧
    (∀ id (s : Session), id.isReserved = true →
      ((Exec.bufferWrite id).exec s).2.store = s.store) ∧
    (∀ id (s : Session) e s', (Exec.bufferWrite id).exec s = (.error e, s') →
      s'.store = s.store) ∧
    (∀ id (s : Session) e s', (Exec.bufferCreate id).exec s = (.error e, s') →
      s'.store = s.store) ∧
    (∀ id (s : Session) e s', (Exec.setOutput id).exec s = (.error e, s') → s' = s) :=
  ⟨fun _ _ _ _ _ h => Store.append_eq_error h,
    fun _ _ _ _ _ => Store.createWritable_eq_error_iff,
    fun _ _ _ _ _ => Store.setByte_eq_error_iff_locate,
    fun _ _ _ _ => Store.writeOutput_eq_error_iff,
    fun _ _ _ _ => Store.writeOutput_eq_full_iff,
    fun _ _ _ _ _ hres hp hlen hcap hgrant => Exec.bufferWrite_appends hres hp hlen hcap hgrant,
    fun _ _ _ _ _ hres hp hlen hrefuse => Exec.bufferWrite_refused hres hp hlen hrefuse,
    fun _ s hres => Exec.bufferWrite_reserved hres s,
    fun id => Exec.bufferWrite_movesOnExit id,
    fun id => Exec.bufferCreate_movesOnExit id,
    fun id s e s' h => (Exec.setOutput_movesOnExit id s e s' h).symm⟩

/-- A write of the two bytes 7, 8 makes buffer 1 hold them. -/
example : ((Exec.bufferWrite ⟨1⟩).exec
    (Session.create .ample (Transport.memory [2, 0, 7, 8]) (.recorder #[]) {})).2.store.getByte
      ⟨1⟩ 1 =
      .ok 8 := by
  decide

end Coprocessor
