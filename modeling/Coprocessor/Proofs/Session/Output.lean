import Mathlib
import Coprocessor.Proofs.Session.Plain
import Coprocessor.Proofs.Session.Nesting
import Coprocessor.Proofs.Session.Guarded

/-!
# Where responses go

A frame sends each response byte to its current output, looked up when the byte is sent
(`Session.send`): the transport's sink takes it, and loses it if the sink fails; an output
buffer stores it at the cursor of its first segment and moves the cursor on, when that
segment is writable and has room, and drops it otherwise; no output drops it.

A nested frame starts out sending where its caller sends, and set-output changes only the
frame it runs in: whatever a called frame does, its caller gets its own frame back.

The only responses are the packets of the general poll, and the session keeps the history
of the polls it answered, each with the output it was answered on. So the sink is given
exactly the packets of the polls answered on the transport, at any depth, in the order
they ran (`Session.LogsPolls`), and a sink that takes every byte holds, after any run of
the host loop, what it held before followed by those packets.
-/

namespace Coprocessor

/-- The packet that answers a general poll echoing a byte. -/
def pollPacket (b : UInt8) : List UInt8 := [0x80, 0x01, b]

namespace Sink

/-- The sink after it is given bytes one after another; a byte it refuses is lost. -/
def writeAll (s : Sink) (bytes : List UInt8) : Sink := bytes.foldl (fun s v => (s.write v).2) s

@[simp] theorem writeAll_nil (s : Sink) : s.writeAll [] = s := rfl

@[simp] theorem writeAll_cons (s : Sink) (v : UInt8) (bytes : List UInt8) :
    s.writeAll (v :: bytes) = (s.write v).2.writeAll bytes := rfl

theorem writeAll_append (s : Sink) (xs ys : List UInt8) :
    s.writeAll (xs ++ ys) = (s.writeAll xs).writeAll ys :=
  List.foldl_append

/-- A sink that takes every byte: a collecting sink, a writer without a quota that still
holds it, or a channel whose receiver is alive. -/
def AcceptsAll : Sink → Prop
  | .collect _ => True
  | .writer w attached => attached = true ∧ w.quota = none
  | .discard => False
  | .channel _ alive => alive = true

theorem AcceptsAll.write {s : Sink} (h : s.AcceptsAll) (v : UInt8) :
    (s.write v).2.AcceptsAll ∧ (s.write v).2.received = s.received.push v := by
  cases s with
  | collect written => exact ⟨trivial, rfl⟩
  | writer w attached =>
    obtain ⟨rfl, hq⟩ := h
    have hw : w.write? v = some { w with received := w.received.push v, accepted := w.accepted + 1 } := by
      simp [Writer.write?, Writer.accepts, hq]
    simp only [Sink.write, hw]
    exact ⟨⟨rfl, hq⟩, rfl⟩
  | discard => exact h.elim
  | channel waiting alive =>
    cases h
    exact ⟨rfl, rfl⟩

theorem AcceptsAll.writeAll {s : Sink} (h : s.AcceptsAll) (bytes : List UInt8) :
    (s.writeAll bytes).AcceptsAll ∧ (s.writeAll bytes).received.toList = s.received.toList ++ bytes := by
  induction bytes generalizing s with
  | nil => exact ⟨h, by simp⟩
  | cons v bytes ih =>
    obtain ⟨hacc, hrec⟩ := h.write v
    obtain ⟨hacc', hrec'⟩ := ih hacc
    refine ⟨hacc', ?_⟩
    rw [writeAll_cons, hrec', hrec, Array.toList_push, List.append_assoc, List.singleton_append]

/-- A flush keeps what the sink has received and whether it takes every byte. -/
theorem AcceptsAll.flush {s : Sink} (h : s.AcceptsAll) :
    s.flush.2.AcceptsAll ∧ s.flush.2.received = s.received := by
  cases s with
  | writer w attached =>
    obtain ⟨rfl, hq⟩ := h
    exact ⟨⟨rfl, hq⟩, rfl⟩
  | collect written => exact ⟨h, rfl⟩
  | discard => exact h.elim
  | channel waiting alive => exact ⟨h, rfl⟩

end Sink

namespace Store

variable {st : Store} {id : BufferId}

/-- A byte sent to a buffer has a place exactly when the buffer is stored and its first
segment is writable with its cursor inside it. -/
theorem outputSlot_eq_some_iff {p : Nat} :
    st.outputSlot id = .ok (some p) ↔ ∃ first rest, st.find? id = some ⟨first :: rest⟩ ∧
      first.cursor = some p ∧ p < first.length st.heap := by
  unfold outputSlot
  rcases hf : st.find? id with _ | ⟨_ | ⟨first, rest⟩⟩
  · simp
  · simp
  · -- the stored buffer's first segment decides
    have hfirst : (∃ first' rest', some (⟨first :: rest⟩ : Buffer) = some ⟨first' :: rest'⟩ ∧
        first'.cursor = some p ∧ p < first'.length st.heap) ↔
        first.cursor = some p ∧ p < first.length st.heap := by
      simp
    rw [hfirst]
    unfold Segment.isWritable Segment.room
    rcases hc : first.cursor with _ | q
    · simp [hc]
    · by_cases hq : q < first.length st.heap
      · simp only [hc, hq, Option.isSome_some, if_true, Except.ok.injEq, Option.some.injEq]
        exact ⟨fun h => ⟨h, h ▸ hq⟩, fun h => h.1⟩
      · simp [hc, hq]
        omega

/-- Set-output accepts a buffer exactly when it is stored and its first segment is
writable. -/
theorem isOutputTarget_iff :
    st.isOutputTarget id = true ↔ ∃ first rest, st.find? id = some ⟨first :: rest⟩ ∧
      first.isWritable = true := by
  unfold isOutputTarget
  rcases st.find? id with _ | ⟨_ | ⟨first, rest⟩⟩ <;> simp

variable {first : Segment} {rest : List Segment} (hf : st.find? id = some ⟨first :: rest⟩)
include hf

/-- A byte sent to a buffer is stored at the cursor of its first segment. -/
theorem heap_putOutput (p : Nat) (v : UInt8) :
    (st.putOutput id p v).heap = st.heap.set first.cell p v := by
  unfold putOutput
  rw [hf]

/-- ... and that segment's cursor moves past it, while every other buffer stays. -/
theorem find?_putOutput (p : Nat) (v : UInt8) (k : BufferId) :
    (st.putOutput id p v).find? k =
      if k = id then some ⟨{ first with cursor := some (p + 1) } :: rest⟩ else st.find? k := by
  unfold putOutput
  rw [hf]
  exact Table.find?_insert _ _ _ _

end Store

namespace Session

/-- The session after a response byte is sent to the frame's current output. -/
def send (s : Session) (v : UInt8) : Session :=
  match s.frame.output with
  | .transport => { s with transport := (s.transport.write v).2 }
  | .buffer id =>
    match s.store.outputSlot id with
    | .ok (some p) => { s with store := s.store.putOutput id p v }
    | _ => s
  | .nowhere => s

/-- The session after bytes are sent one after another. -/
def sendAll (s : Session) (bytes : List UInt8) : Session := bytes.foldl send s

/-- Sending a byte moves only the transport and the store. -/
theorem send_eq (s : Session) (v : UInt8) :
    s.send v = { s with transport := (s.send v).transport, store := (s.send v).store } := by
  unfold send
  split
  · rfl
  · split <;> rfl
  · rfl

theorem sendAll_eq (s : Session) (bytes : List UInt8) :
    s.sendAll bytes =
      { s with transport := (s.sendAll bytes).transport, store := (s.sendAll bytes).store } := by
  induction bytes generalizing s with
  | nil => rfl
  | cons v bytes ih =>
    change (s.send v).sendAll bytes =
      { s with transport := ((s.send v).sendAll bytes).transport,
               store := ((s.send v).sendAll bytes).store }
    rw [ih (s.send v), send_eq s v]

@[simp] theorem frame_send (s : Session) (v : UInt8) : (s.send v).frame = s.frame := by
  rw [send_eq]

@[simp] theorem frame_sendAll (s : Session) (bytes : List UInt8) :
    (s.sendAll bytes).frame = s.frame := by
  rw [sendAll_eq]

@[simp] theorem options_sendAll (s : Session) (bytes : List UInt8) :
    (s.sendAll bytes).options = s.options := by
  rw [sendAll_eq]

@[simp] theorem polls_sendAll (s : Session) (bytes : List UInt8) :
    (s.sendAll bytes).polls = s.polls := by
  rw [sendAll_eq]

theorem send_of_transport {s : Session} (h : s.frame.output = .transport) (v : UInt8) :
    s.send v = { s with transport := (s.transport.write v).2 } := by
  rw [send, h]

theorem send_of_nowhere {s : Session} (h : s.frame.output = .nowhere) (v : UInt8) :
    s.send v = s := by
  rw [send, h]

/-- Sent to the transport, bytes go to its sink one after another. -/
theorem sendAll_of_transport {s : Session} (h : s.frame.output = .transport) (bytes : List UInt8) :
    s.sendAll bytes =
      { s with transport := { s.transport with sink := s.transport.sink.writeAll bytes } } := by
  induction bytes generalizing s with
  | nil => rfl
  | cons v bytes ih =>
    rw [sendAll, List.foldl_cons, ← sendAll, send_of_transport h, ih (by rw [← h])]
    rfl

/-- Sent anywhere else, bytes leave the transport alone. -/
theorem transport_sendAll {s : Session} (h : s.frame.output ≠ .transport) (bytes : List UInt8) :
    (s.sendAll bytes).transport = s.transport := by
  induction bytes generalizing s with
  | nil => rfl
  | cons v bytes ih =>
    have hsend : (s.send v).transport = s.transport := by
      unfold send
      split
      · contradiction
      · split <;> rfl
      · rfl
    rw [sendAll, List.foldl_cons, ← sendAll, ih (by rw [frame_send]; exact h), hsend]

section Buffer

variable {s : Session} {id : BufferId} (ho : s.frame.output = .buffer id)
include ho

/-- A byte sent to a buffer whose first segment is writable with room is stored there. -/
theorem send_of_room {first : Segment} {rest : List Segment} {p : Nat}
    (hf : s.store.find? id = some ⟨first :: rest⟩) (hc : first.cursor = some p)
    (hp : p < first.length s.store.heap) (v : UInt8) :
    s.send v = { s with store := s.store.putOutput id p v } := by
  have hslot : s.store.outputSlot id = .ok (some p) :=
    Store.outputSlot_eq_some_iff.mpr ⟨first, rest, hf, hc, hp⟩
  rw [send, ho]
  dsimp only
  rw [hslot]

/-- A byte sent to a buffer that is missing, or whose first segment is read-only or full,
is dropped. -/
theorem send_of_no_room
    (hnone : ∀ first rest p, s.store.find? id = some ⟨first :: rest⟩ → first.cursor = some p →
      first.length s.store.heap ≤ p) (v : UInt8) : s.send v = s := by
  rw [send, ho]
  dsimp only
  split
  · rename_i p hslot
    obtain ⟨first, rest, hf, hc, hp⟩ := Store.outputSlot_eq_some_iff.mp hslot
    exact absurd (hnone first rest p hf hc) (Nat.not_le.mpr hp)
  · rfl

end Buffer

end Session

namespace Exec

theorem exec_writeByte (v : UInt8) (s : Session) : (writeByte v).exec s = (.ok (), s.send v) := by
  unfold writeByte Session.send
  rw [exec_frame_bind]
  rcases s.frame.output with _ | id | _
  · rfl
  · rw [exec_store_bind]
    dsimp only
    rcases s.store.outputSlot id with _ | _ | p <;> rfl
  · rfl

/-- A loop whose every turn moves the session by `step` runs them all, in order. -/
theorem exec_forIn_of_step {β : Type} {f : β → PUnit → Exec (ForInStep PUnit)}
    (step : Session → β → Session)
    (hf : ∀ b s, (f b PUnit.unit).exec s = (.ok (.yield PUnit.unit), step s b)) (xs : List β)
    (s : Session) : (forIn xs PUnit.unit f).exec s = (.ok PUnit.unit, xs.foldl step s) := by
  induction xs generalizing s with
  | nil => rfl
  | cons x xs ih => rw [List.forIn_cons, exec_bind, hf, List.foldl_cons, ← ih]

/-- A packet is its code with the top bit set, its length and its data, sent in that
order. -/
theorem exec_sendPacket (code : UInt8) (data : Array UInt8) (s : Session) :
    (sendPacket code data).exec s =
      (.ok (), s.sendAll ((code ||| 0x80) :: data.size.toUInt8 :: data.toList)) := by
  unfold sendPacket
  have hloop := @exec_forIn_of_step UInt8
    (fun b _ => writeByte b >>= fun _ => pure (ForInStep.yield PUnit.unit)) Session.send
    (fun b s => exec_bind_of_ok (exec_writeByte b s))
  rw [← Array.forIn_toList, exec_bind_of_ok (exec_writeByte _ _),
    exec_bind_of_ok (exec_writeByte _ _), exec_bind_of_ok (hloop _ _)]
  rfl

/-! ## Set-output and calls -/

/-- Set-output to a buffer that the store accepts as a target sends there from now on. -/
theorem exec_setOutput_of_target {id : BufferId} (hk : id.kind = .buffer) {s : Session}
    (ht : s.store.isOutputTarget id = true) :
    (setOutput id).exec s = (.ok (), { s with frame := { s.frame with output := .buffer id } }) := by
  unfold setOutput
  rw [exec_frame_bind, exec_store_bind, hk]
  dsimp only
  rw [if_pos ht]
  rfl

/-- Set-output to a buffer that the store refuses stops with a fault and changes nothing. -/
theorem exec_setOutput_of_not_target {id : BufferId} (hk : id.kind = .buffer) {s : Session}
    (ht : s.store.isOutputTarget id = false) :
    ∃ f, (setOutput id).exec s = (.error (.fault f), s) := by
  unfold setOutput
  rw [exec_frame_bind, exec_store_bind, hk]
  dsimp only
  rw [if_neg (by rw [ht]; exact Bool.false_ne_true)]
  split
  · exact ⟨_, rfl⟩
  · exact ⟨_, rfl⟩

end Exec

/-- A restart leaves the frame's output where it was. -/
theorem Frame.output_rewind (f : Frame) : f.rewind.output = f.output := by
  unfold Frame.rewind
  split <;> rfl

namespace Session

/-- `s'` sends where `s` does. -/
def SameOutput (s s' : Session) : Prop := s'.frame.output = s.frame.output

instance : IsPreorder Session SameOutput where
  refl _ := rfl
  trans _ _ _ h₁ h₂ := h₂.trans h₁

theorem OnlyRead.sameOutput {s s' : Session} (h : s.OnlyRead s') : s.SameOutput s' := by
  unfold SameOutput
  rw [h]

theorem OnlyRead.sink_eq {s s' : Session} (h : s.OnlyRead s') :
    s'.transport.sink = s.transport.sink := by
  rw [h]

theorem OnlyRead.polls_eq {s s' : Session} (h : s.OnlyRead s') : s'.polls = s.polls := by
  rw [h]

end Session

namespace Exec

open Session

/-- A call hands back its caller's frame, rewound on a restart: whatever the called frame
does with its own output, the caller sends where it did. -/
theorem bufferCall_sameOutput (body : Exec Unit) (id : BufferId) :
    Moves SameOutput (bufferCall (fun f => enter f body) id) := by
  intro s
  rcases bufferCall_cases (fun f => enter f body) id s with
    ⟨-, h⟩ | ⟨-, -, h⟩ | ⟨b, -, -, -, -, h⟩ | ⟨b, -, -, -, -, h⟩
  · rw [h]
    rfl
  · rw [h]
    exact Frame.output_rewind _
  · rw [h]
    rfl
  · rw [h, exec_enter]
    rfl

/-- A conditional call reads, looks up and compares, none of which touches the output, and
then perhaps calls. -/
theorem bufferConditional_sameOutput (body : Exec Unit) (id : BufferId) :
    Moves SameOutput (bufferConditional (fun f => enter f body) id) := by
  rw [bufferConditional_eq]
  refine (readConditionCall_onlyRead.mono fun _ _ h => h.sameOutput).bind fun q => ?_
  unfold ConditionCall.perform
  dsimp only
  repeat' first
    | with_reducible exact bufferCall_sameOutput body id
    | with_reducible exact Moves.of_store
    | with_reducible exact Moves.of_ofExcept _
    | with_reducible exact Moves.of_pure _
    | refine Moves.within _ ?_
    | refine Moves.bind ?_ fun _ => ?_
    | split

/-! ## The general poll -/

/-- A general poll sends its packet to the frame's output and adds itself to the history
with that output. -/
theorem exec_generalPoll {s s₁ : Session} {b : UInt8} (hr : readByte.exec s = (.ok b, s₁)) :
    generalPoll.exec s = (.ok (), { s₁.sendAll (pollPacket b) with
      initialised := true, polls := s.polls ++ [⟨b, s.frame.output⟩] }) := by
  have hread := readByte_onlyRead.of_exec hr
  have hpacket : (Code.pollPacket ||| 0x80) :: (#[b] : Array UInt8).size.toUInt8 :: #[b].toList =
      pollPacket b := rfl
  unfold generalPoll
  rw [exec_bind_of_ok hr, exec_bind_of_ok (exec_sendPacket _ _ _), exec_modify, hpacket]
  -- the history is read after the packet went out, from the frame and the polls of `s₁`
  have ho : s₁.frame.output = s.frame.output := hread.sameOutput
  simp only [frame_sendAll, polls_sendAll, hread.polls_eq, ho]

/-- A general poll answered on the transport writes its packet to the sink. -/
theorem exec_generalPoll_of_transport {s s₁ : Session} {b : UInt8}
    (ho : s.frame.output = .transport) (hr : readByte.exec s = (.ok b, s₁)) :
    generalPoll.exec s = (.ok (), { s₁ with
      transport := { s₁.transport with sink := s₁.transport.sink.writeAll (pollPacket b) },
      initialised := true, polls := s.polls ++ [⟨b, .transport⟩] }) := by
  have ho₁ : s₁.frame.output = .transport := by
    rw [(readByte_onlyRead.of_exec hr).sameOutput, ho]
  rw [exec_generalPoll hr, sendAll_of_transport ho₁, ho]

/-- A general poll answered anywhere else leaves the transport's sink alone. -/
theorem generalPoll_sink_of_ne {s : Session} (ho : s.frame.output ≠ .transport) :
    (generalPoll.exec s).2.transport.sink = s.transport.sink := by
  rcases hr : readByte.exec s with ⟨_ | b, s₁⟩
  · unfold generalPoll
    rw [exec_bind_of_error hr]
    exact (readByte_onlyRead.of_exec hr).sink_eq
  · have ho₁ : s₁.frame.output ≠ .transport := by
      rw [(readByte_onlyRead.of_exec hr).sameOutput]
      exact ho
    rw [exec_generalPoll hr]
    change (s₁.sendAll _).transport.sink = _
    rw [transport_sendAll ho₁]
    exact (readByte_onlyRead.of_exec hr).sink_eq

end Exec

/-! ## What reaches the transport -/

theorem Transport.sink_available (t : Transport) : t.available.2.sink = t.sink := by
  unfold Transport.available
  rcases t.source.available with ⟨_, _⟩
  rfl

theorem Transport.sink_of_read? {t t' : Transport} {r : Except Fault UInt8}
    (h : t.read? = some (r, t')) : t'.sink = t.sink := by
  unfold Transport.read? at h
  rcases hs : t.source.read? with _ | ⟨r', src⟩
  · rw [hs] at h
    cases h
  · rw [hs] at h
    cases h
    rfl

theorem Transport.sink_flush (t : Transport) : t.flush.2.sink = t.sink.flush.2 := by
  unfold Transport.flush
  rcases t.sink.flush with ⟨_, _⟩
  rfl

namespace Poll

/-- The bytes a history of polls puts on the transport: the packets of the polls answered
there, in order. -/
def transportPackets (ps : List Poll) : List UInt8 :=
  ps.flatMap fun p => if p.output = .transport then pollPacket p.echo else []

@[simp] theorem transportPackets_nil : transportPackets [] = [] := rfl

@[simp] theorem transportPackets_append (ps qs : List Poll) :
    transportPackets (ps ++ qs) = transportPackets ps ++ transportPackets qs :=
  List.flatMap_append

end Poll

namespace Session

/-- `s'` has answered the polls of `s` and then some more, and its sink is that of `s`
given the packets of those new polls answered on the transport. -/
def LogsPolls (s s' : Session) : Prop :=
  ∃ new : List Poll, s'.polls = s.polls ++ new ∧
    s'.transport.sink = s.transport.sink.writeAll (Poll.transportPackets new)

theorem LogsPolls.of_eq {s s' : Session} (hp : s'.polls = s.polls)
    (hk : s'.transport.sink = s.transport.sink) : LogsPolls s s' :=
  ⟨[], by rw [hp, List.append_nil], hk⟩

instance : IsPreorder Session LogsPolls where
  refl _ := LogsPolls.of_eq rfl rfl
  trans _ _ _ := fun ⟨n₁, hp₁, h₁⟩ ⟨n₂, hp₂, h₂⟩ =>
    ⟨n₁ ++ n₂, by rw [hp₂, hp₁, List.append_assoc],
      by rw [h₂, h₁, Poll.transportPackets_append, Sink.writeAll_append]⟩

theorem OnlyRead.logsPolls {s s' : Session} (h : s.OnlyRead s') : LogsPolls s s' :=
  LogsPolls.of_eq h.polls_eq h.sink_eq

/-- The polls added are those past the ones `s` had. -/
theorem LogsPolls.sink_eq {s s' : Session} (h : LogsPolls s s') :
    s.polls <+: s'.polls ∧ s'.transport.sink =
      s.transport.sink.writeAll (Poll.transportPackets (s'.polls.drop s.polls.length)) := by
  obtain ⟨new, hp, hk⟩ := h
  rw [hp, List.drop_left]
  exact ⟨⟨new, rfl⟩, hk⟩

end Session

namespace Exec

open Session

/-- Reading, the store, the screen and set-output neither answer polls nor write to the
sink. -/
theorem plain_logsPolls : Plain LogsPolls where
  readByte s := (readByte_onlyRead s).logsPolls
  modifyStore _ _ := LogsPolls.of_eq rfl rfl
  present _ _ := LogsPolls.of_eq rfl rfl
  output _ _ := LogsPolls.of_eq rfl rfl

/-- A poll adds itself to the history, and writes its packet to the sink exactly when it is
answered on the transport. -/
theorem generalPoll_logsPolls : Moves LogsPolls generalPoll := by
  intro s
  rcases hr : readByte.exec s with ⟨_ | b, s₁⟩
  · unfold generalPoll
    rw [exec_bind_of_error hr]
    exact (readByte_onlyRead.of_exec hr).logsPolls
  · refine ⟨[⟨b, s.frame.output⟩], ?_, ?_⟩
    · rw [exec_generalPoll hr]
    · by_cases ho : s.frame.output = .transport
      · rw [exec_generalPoll_of_transport ho hr]
        simp [Poll.transportPackets, ho, (readByte_onlyRead.of_exec hr).sink_eq]
      · rw [generalPoll_sink_of_ne ho]
        simp [Poll.transportPackets, ho]

theorem bufferCall_logsPolls {run : Frame → Exec Unit} (hrun : ∀ f, Moves LogsPolls (run f))
    (id : BufferId) : Moves LogsPolls (bufferCall run id) := by
  intro s
  rcases bufferCall_cases run id s with
    ⟨-, h⟩ | ⟨-, -, h⟩ | ⟨b, -, -, -, -, h⟩ | ⟨b, -, -, -, -, h⟩
  · rw [h]
    exact refl_of LogsPolls s
  · rw [h]
    exact LogsPolls.of_eq rfl rfl
  · rw [h]
    exact refl_of LogsPolls s
  · rw [h]
    exact hrun _ s

theorem enter_logsPolls {nested : Frame} {body : Exec Unit} (hb : Moves LogsPolls body) :
    Moves LogsPolls (enter nested body) := by
  intro s
  rw [exec_enter]
  exact hb { s with frame := nested }

theorem inputAvailable_logsPolls : Moves LogsPolls inputAvailable := by
  intro s
  cases hin : s.frame.input with
  | transport =>
    rw [exec_inputAvailable_transport hin]
    exact LogsPolls.of_eq rfl (Transport.sink_available _)
  | buffer rd =>
    rw [exec_inputAvailable_buffer hin]
    exact refl_of LogsPolls s

theorem recover_logsPolls (e : Interrupt) : Moves LogsPolls (recover e) := by
  unfold recover
  split
  · exact Moves.ite (fun _ => LogsPolls.of_eq rfl rfl) (Moves.of_throw _)
  · exact Moves.of_throw _

/-- Every run of the decode loop writes to the sink exactly the packets of the polls it
answers on the transport, at whatever depth. -/
theorem runFrame_logsPolls (n : Nat) : Moves LogsPolls (runFrame n) := by
  induction n with
  | zero => exact Moves.of_throw _
  | succ n ih =>
    unfold runFrame
    refine inputAvailable_logsPolls.bind fun ready => Moves.ite ?_ (Moves.of_pure _)
    -- the frames a command calls are run by the loop itself, with one step less
    have hcall : ∀ id, Moves LogsPolls (bufferCall (fun nested => enter nested (runFrame n)) id) :=
      bufferCall_logsPolls fun _ => enter_logsPolls ih
    exact plain_logsPolls.readByte.bind fun code =>
      ((command_moves plain_logsPolls hcall generalPoll_logsPolls code).tryCatch
        recover_logsPolls).bind fun _ => ih

theorem topCommand_logsPolls (code : UInt8) : Moves LogsPolls (topCommand code) :=
  command_moves plain_logsPolls
    (bufferCall_logsPolls fun _ => enter_logsPolls (runFrame_logsPolls _))
    generalPoll_logsPolls code

end Exec

/-! ## What a sink that takes every byte holds -/

namespace Session

/-- `s'` has answered the polls of `s` and then some more, and a sink that takes every byte
in `s` still does in `s'` and holds what it held in `s` followed by the packets of those
new polls answered on the transport. -/
def HearsPolls (s s' : Session) : Prop :=
  ∃ new : List Poll, s'.polls = s.polls ++ new ∧
    (s.transport.sink.AcceptsAll → s'.transport.sink.AcceptsAll ∧
      s'.transport.sink.received.toList =
        s.transport.sink.received.toList ++ Poll.transportPackets new)

theorem HearsPolls.of_eq {s s' : Session} (hp : s'.polls = s.polls)
    (hk : s'.transport.sink = s.transport.sink) : HearsPolls s s' :=
  ⟨[], by rw [hp, List.append_nil],
    fun hacc => ⟨hk ▸ hacc, by rw [hk, Poll.transportPackets_nil, List.append_nil]⟩⟩

/-- Moving only the transport's input leaves the sink as it was. -/
theorem HearsPolls.of_transport {s : Session} {t : Transport} (h : t.sink = s.transport.sink) :
    HearsPolls s { s with transport := t } :=
  HearsPolls.of_eq rfl h

theorem HearsPolls.trans {s₁ s₂ s₃ : Session} (h₁ : HearsPolls s₁ s₂) (h₂ : HearsPolls s₂ s₃) :
    HearsPolls s₁ s₃ := by
  obtain ⟨n₁, hp₁, hk₁⟩ := h₁
  obtain ⟨n₂, hp₂, hk₂⟩ := h₂
  refine ⟨n₁ ++ n₂, by rw [hp₂, hp₁, List.append_assoc], fun hacc => ?_⟩
  obtain ⟨hacc₂, hr₁⟩ := hk₁ hacc
  obtain ⟨hacc₃, hr₂⟩ := hk₂ hacc₂
  exact ⟨hacc₃, by rw [hr₂, hr₁, Poll.transportPackets_append, List.append_assoc]⟩

theorem LogsPolls.hearsPolls {s s' : Session} (h : LogsPolls s s') : HearsPolls s s' := by
  obtain ⟨new, hp, hk⟩ := h
  refine ⟨new, hp, fun hacc => ?_⟩
  rw [hk]
  exact hacc.writeAll (Poll.transportPackets new)

/-- The polls added are those past the ones `s` had. -/
theorem HearsPolls.received_eq {s s' : Session} (h : HearsPolls s s')
    (hacc : s.transport.sink.AcceptsAll) :
    s'.transport.sink.AcceptsAll ∧ s.polls <+: s'.polls ∧ s'.transport.sink.received.toList =
      s.transport.sink.received.toList ++ Poll.transportPackets (s'.polls.drop s.polls.length) := by
  obtain ⟨new, hp, hk⟩ := h
  obtain ⟨hacc', hr⟩ := hk hacc
  rw [hp, List.drop_left]
  exact ⟨hacc', ⟨new, rfl⟩, hr⟩

/-- A flush keeps what a sink that takes every byte holds. -/
theorem hearsPolls_flush (s : Session) : HearsPolls s s.flush := by
  refine ⟨[], (List.append_nil _).symm, fun hacc => ?_⟩
  obtain ⟨hacc', hr⟩ := hacc.flush
  refine ⟨?_, ?_⟩
  · change s.transport.flush.2.sink.AcceptsAll
    rw [Transport.sink_flush]
    exact hacc'
  · change s.transport.flush.2.sink.received.toList = _
    rw [Transport.sink_flush, hr, Poll.transportPackets_nil, List.append_nil]

/-- A top-level command, with the log of its fault and the flush after it. -/
theorem hearsPolls_dispatch (s : Session) (code : UInt8) : HearsPolls s (s.dispatch code) := by
  have hcmd := (Exec.topCommand_logsPolls code s).hearsPolls
  unfold dispatch
  rcases hx : (Exec.topCommand code).run.run s with ⟨r, s₁⟩
  have hx' : (Exec.topCommand code).exec s = (r, s₁) := hx
  rw [hx'] at hcmd
  dsimp only
  -- a fault is logged, which leaves the transport and the polls alone; then the transport
  -- is flushed
  split
  · exact (hcmd.trans (HearsPolls.of_eq rfl rfl)).trans (hearsPolls_flush _)
  · exact hcmd.trans (hearsPolls_flush _)

theorem hearsPolls_processNext (s : Session) : HearsPolls s s.processNext.2 := by
  unfold processNext
  rcases ha : s.transport.available with ⟨ready, t⟩
  have hta : t.sink = s.transport.sink := by
    rw [← Transport.sink_available s.transport, ha]
  dsimp only
  -- the waiting byte, if any, is read as a code and dispatched; a failed read is logged
  split
  · split
    · rename_i code t' hread
      have ht' : t'.sink = s.transport.sink := (Transport.sink_of_read? hread).trans hta
      exact (HearsPolls.of_transport ht').trans (hearsPolls_dispatch _ _)
    · rename_i f t' hread
      exact HearsPolls.of_eq rfl ((Transport.sink_of_read? hread).trans hta)
    · exact HearsPolls.of_transport hta
  · exact HearsPolls.of_transport hta

theorem hearsPolls_processWithin (n : Nat) (s : Session) : HearsPolls s (processWithin n s) := by
  induction n generalizing s with
  | zero => exact HearsPolls.of_eq rfl rfl
  | succ n ih =>
    unfold processWithin
    have hnext := hearsPolls_processNext s
    rcases hp : s.processNext with ⟨_ | _, s'⟩
    · rw [hp] at hnext
      exact hnext
    · rw [hp] at hnext
      exact hnext.trans (ih s')

theorem hearsPolls_runWithin (n : Nat) (s : Session) : HearsPolls s (runWithin n s) := by
  induction n generalizing s with
  | zero => exact HearsPolls.of_eq rfl rfl
  | succ n ih =>
    unfold runWithin
    -- a read with the timeout moves only the transport's input
    have hread : ∀ t, s.transport.readTimeout.2 = t → t.sink = s.transport.sink := by
      rintro t rfl
      rw [Transport.readTimeout_eq]
    split
    · exact HearsPolls.of_eq rfl rfl
    · split
      · rename_i code t hr
        exact (HearsPolls.of_transport (hread t (congrArg Prod.snd hr))).trans
          ((hearsPolls_dispatch _ _).trans (ih _))
      · rename_i f t hr
        split
        · exact (HearsPolls.of_transport (hread t (congrArg Prod.snd hr))).trans (ih _)
        · exact HearsPolls.of_transport (hread t (congrArg Prod.snd hr))

end Session

/-- Output redirection. A response byte goes to the frame's current output, looked up as it
is sent: the transport's sink is given it, and loses it if the sink fails; a buffer whose
first segment is writable with its cursor inside it stores it at the cursor, which moves
past it, and any other buffer drops it, the store unchanged; no output drops it. A nested
frame starts out sending where its caller sends, and that is also where it sends by default.
Set-output sends nowhere for no buffer, back where the frame started for the default, and
to a buffer only when its first segment is writable, failing otherwise with nothing
changed. Whatever a called frame does, a call or a conditional call hands its caller back
sending where it did. The only responses are the packets of general polls: a poll answered
on the transport writes its packet to the sink, and one answered elsewhere leaves the sink
alone. So a top-level command gives the sink exactly the packets of the polls it answered
on the transport, at any depth, in the order they ran, and a sink that takes every byte
holds, after either host loop, what it held before followed by those packets. -/
theorem output_follows_frame :
    (∀ (s : Session) v, (Exec.writeByte v).exec s = (.ok (), s.send v)) ∧
    (∀ (s : Session) v, s.frame.output = .transport →
      s.send v = { s with transport := (s.transport.write v).2 }) ∧
    (∀ (s : Session) v, s.frame.output = .nowhere → s.send v = s) ∧
    (∀ (s : Session) v id first rest p, s.frame.output = .buffer id →
      s.store.find? id = some ⟨first :: rest⟩ → first.cursor = some p →
      p < first.length s.store.heap →
      ∃ st, s.send v = { s with store := st } ∧ st.heap = s.store.heap.set first.cell p v ∧
        ∀ k, st.find? k = if k = id then some ⟨{ first with cursor := some (p + 1) } :: rest⟩
          else s.store.find? k) ∧
    (∀ (s : Session) v id, s.frame.output = .buffer id →
      (∀ first rest p, s.store.find? id = some ⟨first :: rest⟩ → first.cursor = some p →
        first.length s.store.heap ≤ p) →
      s.send v = s) ∧
    (∀ (run : Frame → Exec Unit) id (s : Session),
      (∀ run' : Frame → Exec Unit, (Exec.bufferCall run' id).exec s = (Exec.bufferCall run id).exec s) ∨
      ∃ f : Frame, f.output = s.frame.output ∧ f.originalOutput = s.frame.output ∧
        (Exec.bufferCall run id).exec s = (run f).exec s) ∧
    (∀ s : Session, (Exec.setOutput BufferId.none).exec s =
      (.ok (), { s with frame := { s.frame with output := .nowhere } })) ∧
    (∀ s : Session, (Exec.setOutput BufferId.default).exec s =
      (.ok (), { s with frame := { s.frame with output := s.frame.originalOutput } })) ∧
    (∀ (s : Session) id, id.kind = .buffer →
      ((∃ first rest, s.store.find? id = some ⟨first :: rest⟩ ∧ first.isWritable = true) →
        (Exec.setOutput id).exec s = (.ok (), { s with frame := { s.frame with output := .buffer id } })) ∧
      (¬(∃ first rest, s.store.find? id = some ⟨first :: rest⟩ ∧ first.isWritable = true) →
        ∃ f, (Exec.setOutput id).exec s = (.error (.fault f), s))) ∧
    (∀ (body : Exec Unit) id (s : Session),
      ((Exec.bufferCall (fun f => Exec.enter f body) id).exec s).2.frame.output = s.frame.output ∧
      ((Exec.bufferConditional (fun f => Exec.enter f body) id).exec s).2.frame.output =
        s.frame.output) ∧
    (∀ (s s₁ : Session) b, s.frame.output = .transport → Exec.readByte.exec s = (.ok b, s₁) →
      Exec.generalPoll.exec s = (.ok (), { s₁ with
        transport := { s₁.transport with sink := s₁.transport.sink.writeAll (pollPacket b) },
        initialised := true, polls := s.polls ++ [⟨b, .transport⟩] })) ∧
    (∀ s : Session, s.frame.output ≠ .transport →
      (Exec.generalPoll.exec s).2.transport.sink = s.transport.sink) ∧
    (∀ code (s : Session), s.polls <+: ((Exec.topCommand code).exec s).2.polls ∧
      ((Exec.topCommand code).exec s).2.transport.sink = s.transport.sink.writeAll
        (Poll.transportPackets (((Exec.topCommand code).exec s).2.polls.drop s.polls.length))) ∧
    (∀ s : Session, s.transport.sink.AcceptsAll →
      s.processAll.transport.sink.AcceptsAll ∧ s.polls <+: s.processAll.polls ∧
        s.processAll.transport.sink.received.toList = s.transport.sink.received.toList ++
          Poll.transportPackets (s.processAll.polls.drop s.polls.length)) ∧
    (∀ s : Session, s.transport.sink.AcceptsAll →
      s.run.transport.sink.AcceptsAll ∧ s.polls <+: s.run.polls ∧
        s.run.transport.sink.received.toList = s.transport.sink.received.toList ++
          Poll.transportPackets (s.run.polls.drop s.polls.length)) := by
  refine ⟨fun s v => Exec.exec_writeByte v s, fun s v ho => Session.send_of_transport ho v,
    fun s v ho => Session.send_of_nowhere ho v, ?_,
    fun s v id ho hnone => Session.send_of_no_room ho hnone v, ?_, fun s => rfl, fun s => rfl,
    ?_, fun body id s => ⟨Exec.bufferCall_sameOutput body id s,
      Exec.bufferConditional_sameOutput body id s⟩,
    fun s s₁ b ho hr => Exec.exec_generalPoll_of_transport ho hr,
    fun s ho => Exec.generalPoll_sink_of_ne ho,
    fun code s => (Exec.topCommand_logsPolls code s).sink_eq,
    fun s => (Session.hearsPolls_processWithin _ s).received_eq,
    fun s => (Session.hearsPolls_runWithin _ s).received_eq⟩
  · intro s v id first rest p ho hf hc hp
    exact ⟨_, Session.send_of_room ho hf hc hp v, Store.heap_putOutput hf p v,
      Store.find?_putOutput hf p v⟩
  · -- a call runs a frame only in its last case, and that frame is made from the caller's output
    intro run id s
    rcases Exec.bufferCall_calls run id s with hsame | ⟨b, -, -, hrun⟩
    · exact .inl hsame
    · exact .inr ⟨Frame.nested id (Reader.ofBuffer b) s.frame.output (s.frame.depth + 1), rfl, rfl,
        hrun⟩
  · intro s id hk
    refine ⟨fun ht => Exec.exec_setOutput_of_target hk (Store.isOutputTarget_iff.mpr ht),
      fun ht => Exec.exec_setOutput_of_not_target hk ?_⟩
    exact Bool.eq_false_iff.mpr fun h => ht (Store.isOutputTarget_iff.mp h)

-- A poll stored in buffer 1 and run by a call, then a poll at the top level: the history
-- holds both, and the sink their packets in that order.
example :
    let s := (Session.create .ample (Transport.memory
      [0x17, 0x00, 0xA0, 0x01, 0x00, 0x00, 0x04, 0x00, 0x17, 0x00, 0x80, 0x2A,
       0x17, 0x00, 0xA0, 0x01, 0x00, 0x01, 0x17, 0x00, 0x80, 0x07]) (.recorder #[]) {}).processAll
    s.polls = [⟨0x2A, .transport⟩, ⟨0x07, .transport⟩] ∧
      s.transport.sink.received.toList = [0x80, 0x01, 0x2A, 0x80, 0x01, 0x07] := by
  decide +kernel

end Coprocessor
