import Mathlib
import Coprocessor.Proofs.Session.Output
import Coprocessor.Proofs.Session.Host
import Coprocessor.Proofs.Session.Snapshot

/-!
# Self-restart is the only way round

The decode loop of a nested frame (`Exec.runFrame`) is `Exec.loop id`: the loop that runs
the frames its commands call as they are made. With self-restart disabled, a frame runs
without the id of its buffer (`Frame.anonymous`), so that a call of its own buffer nests like
any other call: that loop is `Exec.loop Frame.anonymous`.

Every command does one of three things (`Exec.CallsAtMostOnce`): the same whatever frames it
would run, leaving its frame no earlier in its input; a restart of its frame, which needs
the frame to have a buffer id; or, as its last act, the run of one stored buffer as a frame
one level deeper, within the depth limit. The snapshot a frame reads keeps its length while
the store changes, and the loop reads a code byte before each command. So between restarts
the loop goes down the measure `(maxCallDepth - depth, length - position)`, taken
lexicographically. A run settles when, from some step budget on, every budget gives the
same result, and that result is not running out of steps (`Exec.Settles`); `Exec.Restarts`
counts the restarts a run passes through on its way. For every `k`, the loop settles or
restarts frames `k` times (`Exec.loop_settles_or_restarts`), by induction on `k` and then on
the measure. With self-restart disabled no frame restarts, so the loop and every command
settle (`Exec.anonymous_loop_settles`, `Exec.anonymous_command_settles`).
-/

namespace Coprocessor

namespace Input

/-- `i'` is `i`, no earlier: the transport still, or a reader at a position no earlier. -/
def Ahead : Input → Input → Prop
  | .transport, .transport => True
  | .buffer r, .buffer r' => r.position ≤ r'.position
  | _, _ => False

theorem Ahead.refl (i : Input) : i.Ahead i := by
  cases i <;> simp [Ahead]

theorem Ahead.trans {i₁ i₂ i₃ : Input} (h₁ : i₁.Ahead i₂) (h₂ : i₂.Ahead i₃) :
    i₁.Ahead i₃ := by
  cases i₁ <;> cases i₂ <;> cases i₃ <;> simp_all [Ahead]
  omega

end Input

namespace Frame

/-- The frame without the id of its buffer: no call restarts it. -/
def anonymous (f : Frame) : Frame := { f with id := BufferId.none }

end Frame

namespace Session

/-- `s'` is no earlier than `s` in the input of its frame. -/
def ReadsOn (s s' : Session) : Prop := s.frame.input.Ahead s'.frame.input

instance : IsPreorder Session ReadsOn where
  refl s := Input.Ahead.refl s.frame.input
  trans _ _ _ := Input.Ahead.trans

/-- `s'` is `s` moved as a command may, and no earlier in its frame's input. -/
structure Onward (s s' : Session) : Prop where
  evolves : Evolves s s'
  readsOn : ReadsOn s s'

theorem Onward.refl (s : Session) : Onward s s := ⟨Evolves.refl s, refl_of ReadsOn s⟩

theorem Onward.trans {s₁ s₂ s₃ : Session} (h₁ : Onward s₁ s₂)
    (h₂ : Onward s₂ s₃) : Onward s₁ s₃ :=
  ⟨h₁.evolves.trans h₂.evolves, trans_of ReadsOn h₁.readsOn h₂.readsOn⟩

instance : IsPreorder Session Onward where
  refl := Onward.refl
  trans _ _ _ := Onward.trans

/-- A frame run inside `s`, ending in `t'` however its frame moved, hands back the frame of
`s` onward of `s`. -/
theorem Onward.enter {s t' : Session} {f : Frame} (h : Evolves { s with frame := f } t')
    (hf : f.input.IsBuffer) : Onward s { t' with frame := s.frame } where
  evolves := ⟨Frame.Kept.refl _, fun _ => h.source hf, h.store, h.options, h.allocator⟩
  readsOn := refl_of ReadsOn s

/-- The frame a call of the stored buffer `b` under `id` runs from `s`: its snapshot from the
start, sending where the caller sends, one level deeper. -/
def callee (s : Session) (id : BufferId) (b : Buffer) : Frame :=
  Frame.nested id (Reader.ofBuffer b) s.frame.output (s.frame.depth + 1)

/-- A session whose frame the decode loop runs: the frame reads a snapshot whose cells the
heap holds, and the store keeps its invariant. -/
structure Runnable (s : Session) : Prop where
  inv : s.store.Inv
  snapshot : ∃ r, s.frame.input = .buffer r ∧ ∀ c ∈ r.cells, c < s.store.heap.cells.size

/-- The bytes left to read in a frame that reads a snapshot. -/
def remaining (s : Session) : Nat :=
  match s.frame.input with
  | .buffer r => r.length s.store.heap - r.position
  | .transport => 0

/-- How many levels deeper a frame can still call. -/
def depthLeft (s : Session) : Nat := s.options.maxCallDepth - s.frame.depth

/-- Moving onward keeps the snapshot a frame reads, at the same length, and the position
does not go back. -/
theorem Onward.snapshot {s s' : Session} (h : Onward s s') {r : Reader}
    (hin : s.frame.input = .buffer r) (halloc : ∀ c ∈ r.cells, c < s.store.heap.cells.size) :
    ∃ r', s'.frame.input = .buffer r' ∧ r'.cells = r.cells ∧ r.position ≤ r'.position ∧
      r'.length s'.store.heap = r.length s.store.heap := by
  obtain ⟨r', hin', hcells, hlen⟩ := h.evolves.snapshot hin
  have hahead : s.frame.input.Ahead s'.frame.input := h.readsOn
  rw [hin, hin'] at hahead
  exact ⟨r', hin', hcells, hahead, hlen halloc⟩

theorem Runnable.onward {s s' : Session} (hs : s.Runnable) (h : Onward s s') : s'.Runnable := by
  obtain ⟨r, hin, halloc⟩ := hs.snapshot
  obtain ⟨r', hin', hcells, -, -⟩ := h.snapshot hin halloc
  have hext := Store.Steps.heap_extends h.evolves.store
  refine ⟨Store.Steps.inv h.evolves.store hs.inv, r', hin', fun c hc => ?_⟩
  rw [hcells] at hc
  exact Nat.lt_of_lt_of_le (halloc c hc) hext.1

theorem Runnable.remaining_le {s s' : Session} (hs : s.Runnable) (h : Onward s s') :
    s'.remaining ≤ s.remaining := by
  obtain ⟨r, hin, halloc⟩ := hs.snapshot
  obtain ⟨r', hin', -, hpos, hlen⟩ := h.snapshot hin halloc
  simp only [remaining, hin, hin', hlen]
  omega

theorem Runnable.isBuffer {s : Session} (hs : s.Runnable) : s.frame.input.IsBuffer := by
  obtain ⟨r, hin, -⟩ := hs.snapshot
  rw [hin]
  trivial

/-- A restart keeps the snapshot a frame reads. -/
theorem Runnable.rewind {s : Session} (hs : s.Runnable) :
    Runnable { s with frame := s.frame.rewind } := by
  obtain ⟨r, hin, halloc⟩ := hs.snapshot
  refine ⟨hs.inv, r.rewind, ?_, halloc⟩
  show s.frame.rewind.input = _
  unfold Frame.rewind
  rw [hin]

theorem Onward.depthLeft_eq {s s' : Session} (h : Onward s s') : s'.depthLeft = s.depthLeft := by
  unfold depthLeft
  rw [h.evolves.options, h.evolves.frame.depth]

end Session

namespace Exec

open Session

/-! ## The decode loop, with the frames it runs -/

/-- The decode loop that runs each frame its commands call as `φ` makes it: `loop id` is the
loop of a nested frame, and `loop Frame.anonymous` the same loop with self-restart
disabled. -/
def loop (φ : Frame → Frame) : Nat → Exec Unit
  | 0 => throw .outOfFuel
  | n + 1 => do
    if ← inputAvailable then
      let code ← readByte
      tryCatch (command (fun nested => enter (φ nested) (loop φ n)) code) recover
      loop φ n

theorem runFrame_eq_loop (n : Nat) : runFrame n = loop id n := by
  induction n with
  | zero => rfl
  | succ n ih =>
    rw [runFrame, loop, ih]
    rfl

/-! ## Commands move their frame only on -/

theorem readByte_readsOn : Moves ReadsOn readByte := by
  intro s
  cases hin : s.frame.input with
  | transport =>
    rw [exec_readByte_transport hin]
    exact refl_of ReadsOn s
  | buffer rd =>
    rw [exec_readByte_buffer hin]
    show Input.Ahead s.frame.input (.buffer (rd.read s.store.heap).2)
    rw [hin, Reader.read_eq]
    split <;> simp [Input.Ahead]

/-- Reading, the store, the screen and set-output move a frame only on. -/
theorem plain_readsOn : Plain ReadsOn where
  readByte := readByte_readsOn
  modifyStore _ s := refl_of ReadsOn s
  present _ s := refl_of ReadsOn s
  output s _ := refl_of ReadsOn s

theorem Moves.onward {α : Type} {x : Exec α} (he : Moves Evolves x) (hr : Moves ReadsOn x) :
    Moves Onward x :=
  fun s => ⟨he s, hr s⟩

theorem sendPacket_readsOn (code : UInt8) (data : Array UInt8) :
    Moves ReadsOn (sendPacket code data) := by
  intro s
  rw [exec_sendPacket]
  show Input.Ahead _ (s.sendAll _).frame.input
  rw [frame_sendAll]
  exact Input.Ahead.refl _

theorem generalPoll_onward : Moves Onward generalPoll := by
  unfold generalPoll
  refine Moves.onward ?_ ?_
  · exact readByte_evolves.bind fun _ => (sendPacket_evolves _ _).bind fun _ =>
      Moves.of_modify fun _ => Evolves.of_eq rfl rfl rfl rfl rfl
  · exact readByte_readsOn.bind fun _ => (sendPacket_readsOn _ _).bind fun _ =>
      Moves.of_modify fun s => refl_of ReadsOn s

theorem readByte_onward : Moves Onward readByte := Moves.onward readByte_evolves readByte_readsOn

theorem readWord_onward : Moves Onward readWord :=
  Moves.onward readWord_evolves (readWord_moves plain_readsOn)

theorem readOffset_onward (wide : Bool) : Moves Onward (readOffset wide) :=
  Moves.onward (readOffset_evolves wide) (readOffset_moves plain_readsOn wide)

theorem readBytes_onward (n : Nat) : Moves Onward (readBytes n) :=
  Moves.onward (readBytes_evolves n) (readBytes_moves plain_readsOn n)

theorem present_onward (c : ScreenCall) : Moves Onward (present c) :=
  Moves.onward (present_evolves c) (plain_readsOn.present c)

/-! ## A command runs at most one frame, as its last act -/

/-- How `prog` uses the runner of nested frames it is given, from `s`. -/
inductive CallsAtMostOnce (prog : (Frame → Exec Unit) → Exec Unit) (s : Session) : Prop
  /-- It runs no frame, and does the same whatever the runner. -/
  | ignores (r : Except Interrupt Unit × Session) (hs : s.Onward r.2)
      (hr : ∀ run, (prog run).exec s = r)
  /-- It restarts its own frame, which has a buffer id. -/
  | restarts (s₁ : Session) (hs : s.Onward s₁) (hid : s₁.frame.id ≠ BufferId.none)
      (hr : ∀ run, (prog run).exec s = (.ok (), { s₁ with frame := s₁.frame.rewind }))
  /-- Its last act runs the stored buffer `b` as a frame one level deeper, within the
  limit. -/
  | nests (s₁ : Session) (id : BufferId) (b : Buffer) (hs : s.Onward s₁)
      (hb : s₁.store.find? id = some b) (hd : s₁.frame.depth + 1 ≤ s₁.options.maxCallDepth)
      (hr : ∀ run, (prog run).exec s = (run (s₁.callee id b)).exec s₁)

namespace CallsAtMostOnce

theorem of_moves {x : Exec Unit} (hx : Moves Onward x) (s : Session) :
    CallsAtMostOnce (fun _ => x) s :=
  .ignores _ (hx s) fun _ => rfl

/-- Whatever runs no frame and moves its frame only on may come first. -/
theorem bind {α : Type} {x : Exec α} {f : α → (Frame → Exec Unit) → Exec Unit}
    (hx : Moves Onward x) (hf : ∀ a s, CallsAtMostOnce (f a) s) (s : Session) :
    CallsAtMostOnce (fun run => x >>= fun a => f a run) s := by
  rcases hxs : x.exec s with ⟨e | a, s'⟩
  · exact .ignores (.error e, s') (by simpa [hxs] using hx s) fun _ => exec_bind_of_error hxs
  · have hs' : s.Onward s' := by simpa [hxs] using hx s
    -- the rest starts from where `x` left the session
    have hrest : ∀ run, (x >>= fun a => f a run).exec s = (f a run).exec s' :=
      fun _ => exec_bind_of_ok hxs
    cases hf a s' with
    | ignores r hs hr => exact .ignores r (hs'.trans hs) fun run => (hrest run).trans (hr run)
    | restarts s₁ hs hid hr =>
      exact .restarts s₁ (hs'.trans hs) hid fun run => (hrest run).trans (hr run)
    | nests s₁ id b hs hb hd hr =>
      exact .nests s₁ id b (hs'.trans hs) hb hd fun run => (hrest run).trans (hr run)

theorem ite {c : Prop} [Decidable c] {p q : (Frame → Exec Unit) → Exec Unit}
    (hp : ∀ s, CallsAtMostOnce p s) (hq : ∀ s, CallsAtMostOnce q s) (s : Session) :
    CallsAtMostOnce (fun run => if c then p run else q run) s := by
  by_cases h : c
  · simp only [h, if_true]
    exact hp s
  · simp only [h, if_false]
    exact hq s

end CallsAtMostOnce

theorem bufferCall_callsAtMostOnce (id : BufferId) (s : Session) :
    CallsAtMostOnce (bufferCall · id) s := by
  by_cases hnone : id = BufferId.none
  · refine .ignores (.ok (), s) (Onward.refl s) fun run => ?_
    unfold bufferCall
    rw [exec_frame_bind, if_pos hnone]
    rfl
  by_cases hself : id = s.frame.id
  · refine .restarts s (Onward.refl s) (hself ▸ hnone) fun run => ?_
    rw [hself, bufferCall_self run (hself ▸ hnone)]
  cases hf : s.store.find? id with
  | none =>
    refine .ignores (.ok (), s) (Onward.refl s) fun run => ?_
    unfold bufferCall
    rw [exec_frame_bind, if_neg hnone, if_neg hself, exec_get_bind, hf]
    rfl
  | some b =>
    by_cases hdepth : s.frame.depth + 1 > s.options.maxCallDepth
    · refine .ignores (.error (.fault ⟨.call, .depthExceeded s.options.maxCallDepth⟩), s)
        (Onward.refl s) fun run => ?_
      unfold bufferCall
      rw [exec_frame_bind, if_neg hnone, if_neg hself, exec_get_bind, hf]
      dsimp only
      rw [if_pos hdepth]
      rfl
    · refine .nests s id b (Onward.refl s) hf (Nat.le_of_not_gt hdepth) fun run => ?_
      unfold bufferCall
      rw [exec_frame_bind, if_neg hnone, if_neg hself, exec_get_bind, hf]
      dsimp only
      rw [if_neg hdepth]
      rfl

theorem bufferConditional_callsAtMostOnce (id : BufferId) :
    ∀ s, CallsAtMostOnce (bufferConditional · id) s := by
  unfold bufferConditional
  -- the operands are read and the bytes looked up before the call, which comes last
  repeat' first
    | with_reducible exact bufferCall_callsAtMostOnce id
    | with_reducible exact CallsAtMostOnce.of_moves (Moves.of_pure _)
    | with_reducible exact readByte_onward
    | with_reducible exact readWord_onward
    | with_reducible exact readOffset_onward _
    | with_reducible exact Moves.of_store
    | with_reducible exact Moves.of_ofExcept _
    | with_reducible exact Moves.of_pure _
    | with_reducible refine CallsAtMostOnce.ite ?_ ?_
    | with_reducible refine CallsAtMostOnce.bind ?_ fun _ => ?_
    | refine Moves.within _ ?_
    | refine Moves.bind ?_ fun _ => ?_
    | dsimp only
    | split

theorem buffered_callsAtMostOnce : ∀ s, CallsAtMostOnce buffered s := by
  unfold buffered
  refine CallsAtMostOnce.bind readWord_onward fun w => CallsAtMostOnce.bind readByte_onward
    fun sub => ?_
  split
  · exact CallsAtMostOnce.of_moves (Moves.onward (bufferWrite_evolves _)
      (bufferWrite_moves plain_readsOn _))
  · exact bufferCall_callsAtMostOnce _
  · exact CallsAtMostOnce.of_moves (Moves.onward (bufferClear_evolves _)
      (bufferClear_moves plain_readsOn _))
  · exact CallsAtMostOnce.of_moves (Moves.onward (bufferCreate_evolves _)
      (bufferCreate_moves plain_readsOn _))
  · exact CallsAtMostOnce.of_moves (Moves.onward (setOutput_evolves _)
      (setOutput_moves plain_readsOn _))
  · exact CallsAtMostOnce.of_moves (Moves.onward (bufferAdjust_evolves _)
      (bufferAdjust_moves plain_readsOn _))
  · exact bufferConditional_callsAtMostOnce _
  · exact CallsAtMostOnce.of_moves (Moves.of_pure _)

/-- Every command runs no frame, restarts its own, or runs one stored buffer as its last
act. -/
theorem command_callsAtMostOnce (code : UInt8) : ∀ s, CallsAtMostOnce (command · code) s := by
  unfold command system video
  refine CallsAtMostOnce.ite (CallsAtMostOnce.bind readByte_onward fun mode =>
    CallsAtMostOnce.ite (CallsAtMostOnce.bind readByte_onward fun c => ?_) ?_) ?_
  · exact CallsAtMostOnce.ite (CallsAtMostOnce.of_moves generalPoll_onward)
      (CallsAtMostOnce.ite buffered_callsAtMostOnce (CallsAtMostOnce.of_moves (Moves.of_pure _)))
  · exact CallsAtMostOnce.of_moves (Moves.ite ((readBytes_onward _).bind fun _ => present_onward _)
      (Moves.ite ((readBytes_onward _).bind fun _ => present_onward _) (present_onward _)))
  · exact CallsAtMostOnce.of_moves ((readBytes_onward _).bind fun _ => present_onward _)

/-! ## Runs that settle -/

/-- The runs `x n` from `s` settle: from some step budget `m` on, every budget gives one
result, which is not running out of steps and ends in a state that `P` holds of. -/
def Settles {α : Type} (x : Nat → Exec α) (s : Session) (P : Session → Prop) : Prop :=
  ∃ m r, r.1 ≠ .error .outOfFuel ∧ P r.2 ∧ ∀ n, m ≤ n → (x n).exec s = r

theorem Settles.mono {α : Type} {x : Nat → Exec α} {s : Session} {P Q : Session → Prop}
    (h : Settles x s P) (hPQ : ∀ s', P s' → Q s') : Settles x s Q := by
  obtain ⟨m, r, hr, hP, heq⟩ := h
  exact ⟨m, r, hr, hPQ _ hP, heq⟩

/-- Handing a fault to `recover` keeps a run settled. -/
theorem Settles.recover {x : Nat → Exec Unit} {s : Session} {P : Session → Prop}
    (hx : Settles x s P) (hP : ∀ s' f, P s' → P (s'.logAbort f)) :
    Settles (fun n => tryCatch (x n) Exec.recover) s P := by
  obtain ⟨m, ⟨res, s'⟩, hr, hP', heq⟩ := hx
  cases res with
  | ok u => exact ⟨m, (.ok u, s'), hr, hP', fun n hn => by rw [exec_tryCatch, heq n hn]⟩
  | error e =>
    by_cases hrec : e.IsRecoverable
    · -- a recoverable exit is a fault, which is logged
      cases e with
      | outOfFuel => exact hrec.elim
      | fault f =>
        refine ⟨m, (.ok (), s'.logAbort f), nofun, hP s' f hP', fun n hn => ?_⟩
        rw [exec_tryCatch, heq n hn]
        exact exec_recover_of_recoverable hrec s'
    · exact ⟨m, (.error e, s'), hr, hP', fun n hn => by
        rw [exec_tryCatch, heq n hn]
        exact exec_recover_of_not hrec s'⟩

/-- A command that runs no frame stops only recoverably or at a refused call, never for want
of steps. -/
theorem command_ignores_ne {code : UInt8} {s : Session} {r : Except Interrupt Unit × Session}
    (hr : ∀ run, (command run code).exec s = r) : r.1 ≠ .error .outOfFuel := by
  intro h
  have hstop := @command_stopsAt (fun _ => pure ()) code s .outOfFuel r.2 (by rw [hr, ← h])
  rcases hstop with hrec | ⟨s₀, id, rd, o, d, hrun⟩ | ⟨he, -⟩
  · exact hrec
  · exact nomatch hrun
  · exact nomatch he

theorem logAbort_onward (s : Session) (f : Fault) : Onward s (s.logAbort f) :=
  ⟨Evolves.of_eq rfl rfl rfl rfl rfl, refl_of ReadsOn s⟩

/-- A command that runs no frame settles where it ends, onward. -/
theorem Settles.ignores {run : Nat → Frame → Exec Unit} {code : UInt8} {s : Session}
    {r : Except Interrupt Unit × Session} (hs : s.Onward r.2)
    (hr : ∀ run, (command run code).exec s = r) :
    Settles (fun n => command (run n) code) s (Onward s) :=
  ⟨0, r, command_ignores_ne hr, hs, fun _ _ => hr _⟩

theorem inputAvailable_onward : Moves Onward inputAvailable := by
  refine Moves.onward inputAvailable_evolves fun s => ?_
  cases hin : s.frame.input with
  | transport =>
    rw [exec_inputAvailable_transport hin]
    exact refl_of ReadsOn s
  | buffer rd =>
    rw [exec_inputAvailable_buffer hin]
    exact refl_of ReadsOn s

/-! ## One turn of the loop -/

/-- The loop at `s` finds input left, reads the code byte `code` and is then at `s₂`. -/
def ReadsCode (s : Session) (code : UInt8) (s₂ : Session) : Prop :=
  ∃ s', inputAvailable.exec s = (.ok true, s') ∧ readByte.exec s' = (.ok code, s₂)

theorem ReadsCode.onward {s s₂ : Session} {code : UInt8} (h : ReadsCode s code s₂) :
    Onward s s₂ := by
  obtain ⟨s', hav, hread⟩ := h
  exact (inputAvailable_onward.of_exec hav).trans (readByte_onward.of_exec hread)

/-- The turn of the loop after its code byte: the command, with the frames it calls run by
`loop φ n`, and its fault handed to `recover`. -/
def turn (φ : Frame → Frame) (n : Nat) (code : UInt8) : Exec Unit :=
  tryCatch (command (fun nested => enter (φ nested) (loop φ n)) code) recover

/-- A command that settles onward makes a turn that settles onward. -/
theorem Settles.asTurn {φ : Frame → Frame} {code : UInt8} {s : Session}
    (h : Settles (fun n => command (fun nested => enter (φ nested) (loop φ n)) code) s
      (Onward s)) :
    Settles (fun n => turn φ n code) s (Onward s) :=
  Settles.recover h fun s' f h' => h'.trans (logAbort_onward s' f)

theorem exec_loop_of_readsCode {φ : Frame → Frame} {n : Nat} {s s₂ : Session} {code : UInt8}
    (h : ReadsCode s code s₂) :
    (loop φ (n + 1)).exec s = (turn φ n code >>= fun _ => loop φ n).exec s₂ := by
  obtain ⟨s', hav, hread⟩ := h
  rw [loop, exec_bind_of_ok hav]
  simp only [ite_true]
  rw [exec_bind_of_ok hread]
  rfl

/-- A frame that reads a snapshot has nothing left, and the loop ends there, or the loop reads
a code byte and has fewer bytes left. -/
theorem loop_next (φ : Frame → Frame) {s : Session} (hs : s.Runnable) :
    (∀ n, (loop φ (n + 1)).exec s = (.ok (), s)) ∨
      ∃ code s₂, ReadsCode s code s₂ ∧ s₂.remaining < s.remaining := by
  obtain ⟨r, hin, halloc⟩ := hs.snapshot
  cases hav : r.available s.store.heap with
  | false =>
    refine .inl fun n => ?_
    rw [loop, exec_bind, exec_inputAvailable_buffer hin]
    simp only [hav, Bool.false_eq_true, ite_false, exec_pure]
  | true =>
    obtain ⟨code, s₂, hread, hin₂⟩ := readByte_available hin hav
    have hcode : ReadsCode s code s₂ :=
      ⟨s, by rw [exec_inputAvailable_buffer hin, hav], hread⟩
    refine .inr ⟨code, s₂, hcode, ?_⟩
    -- the code byte was read: one byte fewer is left
    obtain ⟨r', hin', -, -, hlen⟩ := hcode.onward.snapshot hin halloc
    rw [hin₂] at hin'
    cases hin'
    have hlt : r.position < r.length s.store.heap := of_decide_eq_true hav
    simp only [remaining, hin, hin₂, hlen]
    omega

/-- A turn that ends in `s₃` with every budget from `m` on, then the loop from `s₃`. -/
theorem Settles.loop_of_turn {φ : Frame → Frame} {s s₂ s₃ : Session} {code : UInt8} {m : Nat}
    {P : Session → Prop} (hread : ReadsCode s code s₂)
    (hturn : ∀ n, m ≤ n → (turn φ n code).exec s₂ = (.ok (), s₃))
    (hrest : Settles (loop φ) s₃ P) : Settles (loop φ) s P := by
  obtain ⟨m₂, r, hr, hP, heq⟩ := hrest
  refine ⟨max m m₂ + 1, r, hr, hP, fun n hn => ?_⟩
  obtain ⟨n, rfl⟩ := Nat.exists_eq_add_of_le' (Nat.le_of_add_left_le hn)
  rw [exec_loop_of_readsCode hread, exec_bind_of_ok (hturn n (by omega))]
  exact heq n (by omega)

/-! ## Restarts on the way -/

/-- The run of `loop φ` from `s` restarts a frame at least `k` times on its way. -/
inductive Restarts (φ : Frame → Frame) : Nat → Session → Prop
  | zero (s : Session) : Restarts φ 0 s
  /-- The command read next restarts the frame, and the loop goes on from its start. -/
  | here {k : Nat} {s s₁ s₂ : Session} {code : UInt8} (hread : ReadsCode s code s₂)
      (hs : s₂.Onward s₁) (hb : s₁.frame.input.IsBuffer)
      (hid : s₁.frame.id ≠ BufferId.none)
      (hcmd : ∀ run, (command run code).exec s₂ =
        (.ok (), { s₁ with frame := s₁.frame.rewind }))
      (hk : Restarts φ k { s₁ with frame := s₁.frame.rewind }) : Restarts φ (k + 1) s
  /-- The command read next runs the frame `f`, and that run restarts frames `k` times. -/
  | nested {k : Nat} {s s₁ s₂ : Session} {code : UInt8} {f : Frame}
      (hread : ReadsCode s code s₂)
      (hcmd : ∀ run, (command run code).exec s₂ = (run f).exec s₁)
      (hk : Restarts φ k { s₁ with frame := φ f }) : Restarts φ k s
  /-- The turn read next ends in `s₃` with every budget from `m` on, and the rest of the
  loop restarts frames `k` times. -/
  | later {k m : Nat} {s s₂ s₃ : Session} {code : UInt8} (hread : ReadsCode s code s₂)
      (hs : s₂.Onward s₃)
      (hturn : ∀ n, m ≤ n → (turn φ n code).exec s₂ = (.ok (), s₃))
      (hk : Restarts φ k s₃) : Restarts φ k s

/-- With self-restart disabled no frame is ever restarted. -/
theorem Restarts.eq_zero_of_anonymous {k : Nat} {s : Session}
    (h : Restarts Frame.anonymous k s) (hid : s.frame.id = BufferId.none) : k = 0 := by
  induction h with
  | zero => rfl
  | here hread hs _ hid₁ _ _ _ =>
    exact (hid₁ (hs.evolves.frame.id.trans (hread.onward.evolves.frame.id.trans hid))).elim
  | nested _ _ _ ih => exact ih rfl
  | later hread hs _ _ ih =>
    exact ih (hs.evolves.frame.id.trans (hread.onward.evolves.frame.id.trans hid))

/-- A turn that settles onward of where it started, then the rest of the loop, which settles
or restarts frames `k` times. -/
theorem settles_or_restarts_of_turn {φ : Frame → Frame} {k : Nat} {s s₂ : Session}
    {code : UInt8} (hread : ReadsCode s code s₂)
    (hturn : Settles (fun n => turn φ n code) s₂ (Onward s₂))
    (hrest : ∀ s₃, Onward s₂ s₃ →
      Settles (loop φ) s₃ (Evolves s₃) ∨ Restarts φ k s₃) :
    Settles (loop φ) s (Evolves s) ∨ Restarts φ k s := by
  obtain ⟨m, ⟨res, s₃⟩, hne, hP, heq⟩ := hturn
  have h₃ : Evolves s s₃ := hread.onward.evolves.trans hP.evolves
  cases res with
  | error e =>
    -- the fault was not recovered from: the loop stops there
    refine .inl ⟨m + 1, (.error e, s₃), hne, h₃, fun n hn => ?_⟩
    obtain ⟨n, rfl⟩ := Nat.exists_eq_add_of_le' (Nat.le_of_add_left_le hn)
    rw [exec_loop_of_readsCode hread, exec_bind_of_error (heq n (by omega))]
  | ok u =>
    rcases hrest s₃ hP with h | h
    · exact .inl ((Settles.loop_of_turn hread heq h).mono fun _ h' => h₃.trans h')
    · exact .inr (.later hread hP heq h)

section Loop

variable {φ : Frame → Frame}
  (hφ : ∀ f : Frame, (φ f).input = f.input ∧ (φ f).depth = f.depth)
include hφ

/-- A nested run that settles hands back its caller's frame, onward. -/
theorem Settles.runNested {s : Session} {f : Frame}
    (h : Settles (loop φ) { s with frame := φ f } (Evolves { s with frame := φ f }))
    (hf : f.input.IsBuffer) : Settles (fun n => enter (φ f) (loop φ n)) s (Onward s) := by
  obtain ⟨m, r, hr, hP, heq⟩ := h
  have hb : (φ f).input.IsBuffer := (hφ f).1 ▸ hf
  refine ⟨m, (r.1, { r.2 with frame := s.frame }), hr, Onward.enter hP hb, fun n hn => ?_⟩
  rw [exec_enter, heq n hn]

/-- The frame a command runs is run by the loop, in a session it can run, one level deeper. -/
theorem nested_runnable {s₁ : Session} {id : BufferId} {b : Buffer} (hinv : s₁.store.Inv)
    (hb : s₁.store.find? id = some b) : Runnable { s₁ with frame := φ (s₁.callee id b) } :=
  ⟨hinv, Reader.ofBuffer b, (hφ _).1,
    fun c hc => hinv.allocated c (Store.mem_cells hb hc)⟩

/-- A command whose last act runs a frame that settles settles onward. -/
theorem Settles.nests {code : UInt8} {s s₁ : Session} {f : Frame} (hs : s.Onward s₁)
    (hr : ∀ run, (command run code).exec s = (run f).exec s₁)
    (h : Settles (loop φ) { s₁ with frame := φ f } (Evolves { s₁ with frame := φ f }))
    (hf : f.input.IsBuffer) :
    Settles (fun n => command (fun nested => enter (φ nested) (loop φ n)) code) s (Onward s) := by
  obtain ⟨m, r, hr', hP, heq⟩ := Settles.runNested hφ h hf
  exact ⟨m, r, hr', hs.trans hP, fun n hn => (hr _).trans (heq n hn)⟩

theorem nested_depthLeft {s s₁ : Session} {id : BufferId} {b : Buffer} (hs : s.Onward s₁)
    (hd : s₁.frame.depth + 1 ≤ s₁.options.maxCallDepth) :
    Session.depthLeft { s₁ with frame := φ (s₁.callee id b) } < s.depthLeft := by
  rw [← hs.depthLeft_eq]
  simp only [depthLeft, (hφ _).2, callee, Frame.nested]
  omega

/-- The decode loop settles in every frame it can run, or restarts frames `k` times on the
way, for every `k`: a run that does not settle restarts frames without end. The induction is
on `k`, then on the depth left, then on the bytes left: a command reads its code byte first,
then moves its frame only on, restarts it, or runs a frame one level deeper. -/
theorem loop_settles_or_restarts (k : Nat) :
    ∀ s : Session, s.Runnable → Settles (loop φ) s (Evolves s) ∨ Restarts φ k s := by
  induction k with
  | zero => exact fun s _ => .inr (.zero s)
  | succ k ihk =>
  intro s hs
  induction hd : s.depthLeft using Nat.strong_induction_on generalizing s with
  | _ d ihd =>
  induction hq : s.remaining using Nat.strong_induction_on generalizing s with
  | _ q ihq =>
  rcases loop_next φ hs with hend | ⟨code, s₂, hread, hless⟩
  · exact .inl ⟨1, (.ok (), s), nofun, Evolves.refl s, fun n hn => by
      obtain ⟨n, rfl⟩ := Nat.exists_eq_add_of_le' hn
      exact hend n⟩
  have h₂ := hread.onward
  have hs₂ := hs.onward h₂
  -- whatever the turn leaves onward has fewer bytes left, at the same depth
  have hrest : ∀ s₃, Onward s₂ s₃ →
      Settles (loop φ) s₃ (Evolves s₃) ∨ Restarts φ (k + 1) s₃ := fun s₃ h₃ =>
    ihq _ (hq ▸ Nat.lt_of_le_of_lt (hs₂.remaining_le h₃) hless) s₃ (hs₂.onward h₃)
      (by rw [h₃.depthLeft_eq, h₂.depthLeft_eq, hd]) rfl
  cases command_callsAtMostOnce code s₂ with
  | ignores r h₁ hr =>
    exact settles_or_restarts_of_turn hread (Settles.ignores h₁ hr).asTurn hrest
  | restarts s₁ h₁ hid hr =>
    -- the loop goes on from the start of the frame, with one restart fewer to find
    have hturn : ∀ n, 0 ≤ n →
        (turn φ n code).exec s₂ = (.ok (), { s₁ with frame := s₁.frame.rewind }) :=
      fun n _ => by rw [turn, exec_tryCatch, hr]
    rcases ihk _ (hs₂.onward h₁).rewind with h | h
    · have hev : Evolves s { s₁ with frame := s₁.frame.rewind } :=
        (h₂.trans h₁).evolves.trans (Evolves.of_kept (Frame.kept_rewind _))
      exact .inl ((Settles.loop_of_turn hread hturn h).mono fun _ h' => hev.trans h')
    · exact .inr (.here hread h₁ (hs₂.onward h₁).isBuffer hid hr h)
  | nests s₁ id b h₁ hb hdepth hr =>
    have hinv₁ : s₁.store.Inv := Store.Steps.inv h₁.evolves.store hs₂.inv
    rcases ihd _ (hd ▸ nested_depthLeft hφ (h₂.trans h₁) hdepth) _
        (nested_runnable hφ hinv₁ hb) rfl with h | h
    · -- the frame it called settled: the turn settles onward, and the loop goes on
      exact settles_or_restarts_of_turn hread (Settles.nests hφ h₁ hr h trivial).asTurn hrest
    · exact .inr (.nested hread hr h)

/-- A command settles, or the frame it runs restarts frames `k` times on its way. -/
theorem command_settles_or_restarts (k : Nat) (code : UInt8) (s : Session)
    (hinv : s.store.Inv) :
    Settles (fun n => command (fun nested => enter (φ nested) (loop φ n)) code) s (Evolves s) ∨
      ∃ s₁ f, (∀ run, (command run code).exec s = (run f).exec s₁) ∧
        Restarts φ k { s₁ with frame := φ f } := by
  cases command_callsAtMostOnce code s with
  | ignores r hs hr => exact .inl ((Settles.ignores hs hr).mono fun _ h => h.evolves)
  | restarts s₁ hs _ hr =>
    have hev : Evolves s { s₁ with frame := s₁.frame.rewind } :=
      hs.evolves.trans (Evolves.of_kept (Frame.kept_rewind _))
    exact .inl ⟨0, (.ok (), { s₁ with frame := s₁.frame.rewind }), nofun, hev,
      fun _ _ => hr _⟩
  | nests s₁ id b hs hb _ hr =>
    rcases loop_settles_or_restarts hφ k _
        (nested_runnable hφ (Store.Steps.inv hs.evolves.store hinv) hb) with h | h
    · exact .inl ((Settles.nests hφ hs hr h trivial).mono fun _ h => h.evolves)
    · exact .inr ⟨s₁, _, hr, h⟩

end Loop

theorem anonymous_keeps (f : Frame) :
    (Frame.anonymous f).input = f.input ∧ (Frame.anonymous f).depth = f.depth :=
  ⟨rfl, rfl⟩

/-- With self-restart disabled, the loop settles in every frame with no buffer id that it can
run. -/
theorem anonymous_loop_settles (s : Session) (hs : s.Runnable)
    (hid : s.frame.id = BufferId.none) :
    Settles (loop Frame.anonymous) s (Evolves s) := by
  rcases loop_settles_or_restarts anonymous_keeps 1 s hs with h | h
  · exact h
  · exact absurd (h.eq_zero_of_anonymous hid) one_ne_zero

/-- With self-restart disabled, every command settles. -/
theorem anonymous_command_settles (code : UInt8) (s : Session) (hinv : s.store.Inv) :
    Settles (fun n => command (fun nested => enter nested.anonymous (loop Frame.anonymous n))
      code) s (Evolves s) := by
  rcases command_settles_or_restarts anonymous_keeps 1 code s hinv with h | ⟨_, _, _, h⟩
  · exact h
  · exact absurd (h.eq_zero_of_anonymous rfl) one_ne_zero

end Exec

/-- Self-restart is the only way a run goes round for good. The decode loop of a nested
frame is the loop that runs the frames its commands call as they are made. Every command
runs no frame and moves its frame only on, restarts its own frame, which needs a buffer id,
or runs one stored buffer one level deeper, within the depth limit, as its last act. So in
every frame that reads a snapshot held by the heap, the loop settles or restarts frames `k`
times on its way, for every `k`; the same holds of a top-level command and the frame it
runs. With self-restart disabled, the loop and every command settle: from some step budget
on, every budget gives the same result, which is not running out of steps. -/
theorem settles_without_self_restart :
    (∀ n, Exec.runFrame n = Exec.loop id n) ∧
    (∀ code s, Exec.CallsAtMostOnce (Exec.command · code) s) ∧
    (∀ (k : Nat) (s : Session), s.Runnable →
      Exec.Settles (Exec.loop id) s s.Evolves ∨ Exec.Restarts id k s) ∧
    (∀ (k : Nat) (code : UInt8) (s : Session), s.store.Inv →
      Exec.Settles (fun n => Exec.command (fun nested => Exec.enter nested (Exec.loop id n)) code)
        s s.Evolves ∨
      ∃ s₁ f, (∀ run, (Exec.command run code).exec s = (run f).exec s₁) ∧
        Exec.Restarts id k { s₁ with frame := f }) ∧
    (∀ s : Session, s.Runnable → s.frame.id = BufferId.none →
      Exec.Settles (Exec.loop Frame.anonymous) s s.Evolves) ∧
    ∀ (code : UInt8) (s : Session), s.store.Inv →
      Exec.Settles (fun n => Exec.command
        (fun nested => Exec.enter nested.anonymous (Exec.loop Frame.anonymous n)) code)
        s s.Evolves :=
  ⟨Exec.runFrame_eq_loop, Exec.command_callsAtMostOnce,
    Exec.loop_settles_or_restarts fun _ => ⟨rfl, rfl⟩,
    Exec.command_settles_or_restarts fun _ => ⟨rfl, rfl⟩,
    Exec.anonymous_loop_settles, Exec.anonymous_command_settles⟩

end Coprocessor
