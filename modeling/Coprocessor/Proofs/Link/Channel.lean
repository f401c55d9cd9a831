import Mathlib
import Coprocessor.Proofs.Decode.Input

/-!
# A channel delivers what the host sends

A channel source receives the host's bytes over a channel. It keeps a slot for one byte
taken off the channel ahead of a read, when asked whether a byte waits, and a flag set when
a receive finds the channel drained with the host's sender gone; it counts as closed once
that flag is set and the slot is empty. Its three read paths, asking, reading with the
timeout and reading that waits, each look in the slot first and only then at the channel.

Seen through `Source.pending`, the byte in the slot followed by the bytes still on the
channel, each path is a plain queue operation: asking takes nothing and tells whether the
queue is empty, and a read takes its head (`available_channel`, `readTimeout_channel`); a
read that waits does what a read with the timeout does, except on an open, empty channel,
where it would wait for good (`read?_channel`).

The host sends bytes and may drop its sender; the session, in between, asks whether a byte
waits, reads with the timeout, or reads and waits. `ChannelLog` follows a channel source
through such events, with the bytes sent and the bytes the reads returned, and every run of
events from a new channel keeps `ChannelLog.Inv`: the bytes returned followed by those
pending are the bytes sent, and a source marked closed has its sender gone, its slot empty
and its channel drained. So the reads return the sent bytes in order, each once, the
byte looked at ahead included, and the source closes only once all of them are returned,
for good (`channel_delivers_in_order`).
-/

namespace Coprocessor

namespace Source

/-! ## One call on a channel source -/

variable (rx : Mpsc) (peeked : Option UInt8) (closed : Bool)

theorem tryRecv_cons {b : UInt8} {rest : List UInt8} (h : rx.queue = b :: rest) :
    rx.tryRecv = (.byte b, { rx with queue := rest }) := by
  simp [Mpsc.tryRecv, h]

theorem tryRecv_nil (h : rx.queue = []) :
    rx.tryRecv = (if rx.senderAlive then .empty else .disconnected, rx) := by
  simp [Mpsc.tryRecv, h]

/-- Asking whether a byte waits tells whether the slot or the channel holds one. It takes no
byte: one it receives into the slot stays first in line. Finding the channel drained with
its sender gone marks the source closed. -/
theorem available_channel :
    ((Source.channel rx peeked closed).available.1 = true ↔
      peeked.isSome ∨ rx.queue ≠ []) ∧
    ∃ rx' peeked', (Source.channel rx peeked closed).available.2 = .channel rx' peeked'
        (closed || ((peeked.toList ++ rx.queue).isEmpty && !rx.senderAlive)) ∧
      peeked'.toList ++ rx'.queue = peeked.toList ++ rx.queue ∧
      rx'.senderAlive = rx.senderAlive := by
  rcases peeked with _ | c
  · rcases hq : rx.queue with _ | ⟨b, rest⟩
    · -- nothing anywhere: the receive finds the channel empty or disconnected
      rw [available, tryRecv_nil rx hq]
      cases halive : rx.senderAlive <;> simp [hq, halive]
    · rw [available, tryRecv_cons rx hq]
      exact ⟨by simp, { rx with queue := rest }, some b, by simp, by simp, rfl⟩
  · exact ⟨by simp [available], _, _, by simp [available], rfl, rfl⟩

/-- A read with the timeout takes the byte in the slot, or else the next byte of the
channel. With neither, it times out while the sender is alive and fails as closed, marking
the source so, once the sender is gone. -/
theorem readTimeout_channel :
    (∀ b, (Source.channel rx peeked closed).readTimeout.1 = .ok b ↔
      (peeked.toList ++ rx.queue).head? = some b) ∧
    ((Source.channel rx peeked closed).readTimeout.1 = .error ⟨.read, .timeout⟩ ↔
      peeked = none ∧ rx.queue = [] ∧ rx.senderAlive = true) ∧
    ((Source.channel rx peeked closed).readTimeout.1 = .error ⟨.read, .closed⟩ ↔
      peeked = none ∧ rx.queue = [] ∧ rx.senderAlive = false) ∧
    ∃ rx', (Source.channel rx peeked closed).readTimeout.2 = .channel rx' none
        (closed || ((peeked.toList ++ rx.queue).isEmpty && !rx.senderAlive)) ∧
      rx'.queue = (peeked.toList ++ rx.queue).tail ∧ rx'.senderAlive = rx.senderAlive := by
  rcases peeked with _ | c
  · rcases hq : rx.queue with _ | ⟨b, rest⟩
    · rw [readTimeout, tryRecv_nil rx hq]
      cases halive : rx.senderAlive <;> simp [hq, halive]
    · rw [readTimeout, tryRecv_cons rx hq]
      exact ⟨by simp, by simp, by simp, { rx with queue := rest }, by simp, by simp, rfl⟩
  · exact ⟨by simp [readTimeout], by simp [readTimeout], by simp [readTimeout], _,
      by simp [readTimeout], by simp, rfl⟩

/-- A read that waits does what a read with the timeout does, except on an open, empty
channel, where it would wait for good. -/
theorem read?_channel :
    (Source.channel rx peeked closed).read? =
      if peeked = none ∧ rx.queue = [] ∧ rx.senderAlive = true then none
      else some (Source.channel rx peeked closed).readTimeout := by
  rcases peeked with _ | c
  · rcases hq : rx.queue with _ | ⟨b, rest⟩
    · rw [read?, readTimeout, tryRecv_nil rx hq]
      cases rx.senderAlive <;> simp
    · rw [read?, readTimeout, tryRecv_cons rx hq]
      simp
  · simp [read?, readTimeout]

end Source

/-- One thing that happens to a channel: the host sends bytes or drops its sender, or the
session asks whether a byte waits, reads with the timeout, or reads and waits. -/
inductive ChannelEvent
  | send (bytes : List UInt8)
  | dropSender
  | available
  | readTimeout
  | read
  deriving DecidableEq, Repr

/-- The bytes a read returned: its byte, or none when it failed. -/
def received : Except Fault UInt8 → List UInt8
  | .ok b => [b]
  | .error _ => []

/-- A channel source, with the bytes the host has sent into it and the bytes the session's
reads have returned, each in order. -/
structure ChannelLog where
  source : Source
  sent : List UInt8
  got : List UInt8
  deriving DecidableEq, Repr

namespace ChannelLog

/-- A new channel source: its sender alive, nothing sent. -/
def fresh : ChannelLog := ⟨Transport.channel.source, [], []⟩

/-- One event. `none` when it cannot happen: a send once the sender is gone, or a read that
waits on an open, empty channel, which would wait for good. -/
def happen (c : ChannelLog) : ChannelEvent → Option ChannelLog
  | .send bytes =>
    (c.source.push? bytes).map fun src => { c with source := src, sent := c.sent ++ bytes }
  | .dropSender => some { c with source := c.source.closeSender }
  | .available => some { c with source := c.source.available.2 }
  | .readTimeout =>
    some { c with source := c.source.readTimeout.2,
                  got := c.got ++ received c.source.readTimeout.1 }
  | .read => c.source.read?.map fun (r, src) => { c with source := src, got := c.got ++ received r }

/-- Events one after another, until one cannot happen. -/
def run : ChannelLog → List ChannelEvent → Option ChannelLog
  | c, [] => some c
  | c, e :: es => (c.happen e).bind (run · es)

/-- What holds of a channel source after any run of events: the bytes returned, then those
pending, are the bytes sent; and it is still a channel source, which once marked closed has
its sender gone, its slot empty and its channel drained. -/
structure Inv (c : ChannelLog) : Prop where
  fifo : c.got ++ c.source.pending = c.sent
  channel : ∃ rx peeked closed, c.source = .channel rx peeked closed ∧
    (closed = true → rx.senderAlive = false ∧ peeked = none ∧ rx.queue = [])

theorem inv_fresh : fresh.Inv :=
  ⟨rfl, ⟨{}, none, false, rfl, fun h => absurd h (by decide)⟩⟩

/-- The bytes a read with the timeout returns are the head of those pending. -/
theorem received_readTimeout (rx : Mpsc) (peeked : Option UInt8) (closed : Bool) :
    received (Source.channel rx peeked closed).readTimeout.1 =
      (peeked.toList ++ rx.queue).take 1 := by
  obtain ⟨hok, htimeout, hclosed, -⟩ := Source.readTimeout_channel rx peeked closed
  cases hpend : peeked.toList ++ rx.queue with
  | nil =>
    have hnone : peeked = none ∧ rx.queue = [] := by simpa using hpend
    cases halive : rx.senderAlive
    · rw [(hclosed.mpr ⟨hnone.1, hnone.2, halive⟩)]
      rfl
    · rw [(htimeout.mpr ⟨hnone.1, hnone.2, halive⟩)]
      rfl
  | cons b rest =>
    rw [(hok b).mpr (by simp [hpend])]
    rfl

/-- All that one event can do to a channel source: a send, while the sender is alive, puts
its bytes on the channel; a drop kills the sender; asking takes no byte and a read the byte
at the head, if any, and either marks a drained source whose sender is gone closed. -/
theorem happen_channel {rx : Mpsc} {peeked : Option UInt8} {closed : Bool}
    {sent got : List UInt8} {e : ChannelEvent} {c' : ChannelLog}
    (he : (⟨.channel rx peeked closed, sent, got⟩ : ChannelLog).happen e = some c') :
    (∃ bytes, rx.senderAlive = true ∧
      c' = ⟨.channel { rx with queue := rx.queue ++ bytes } peeked closed, sent ++ bytes, got⟩) ∨
    c' = ⟨.channel { rx with senderAlive := false } peeked closed, sent, got⟩ ∨
    ∃ taken ≤ 1, ∃ rx' peeked',
      c' = ⟨.channel rx' peeked'
          (closed || ((peeked.toList ++ rx.queue).isEmpty && !rx.senderAlive)),
        sent, got ++ (peeked.toList ++ rx.queue).take taken⟩ ∧
      peeked'.toList ++ rx'.queue = (peeked.toList ++ rx.queue).drop taken ∧
      rx'.senderAlive = rx.senderAlive := by
  cases e with
  | send bytes =>
    cases halive : rx.senderAlive <;>
      simp only [happen, Source.push?, Mpsc.send?, halive, Option.map_none, Option.map_some,
        Option.some.injEq, reduceCtorEq, if_true, Bool.false_eq_true, if_false] at he
    exact .inl ⟨bytes, rfl, he.symm⟩
  | dropSender =>
    simp only [happen, Source.closeSender, Option.some.injEq] at he
    exact .inr (.inl he.symm)
  | available =>
    simp only [happen, Option.some.injEq] at he
    obtain ⟨-, rx', peeked', hsrc, hpend, halive⟩ := Source.available_channel rx peeked closed
    refine .inr (.inr ⟨0, Nat.zero_le _, rx', peeked', ?_, by simpa using hpend, halive⟩)
    rw [← he, hsrc]
    simp
  | readTimeout =>
    simp only [happen, Option.some.injEq] at he
    obtain ⟨-, -, -, rx', hsrc, hqueue, halive⟩ := Source.readTimeout_channel rx peeked closed
    refine .inr (.inr ⟨1, Nat.le_refl _, rx', none, ?_, by simpa using hqueue, halive⟩)
    rw [← he, hsrc, received_readTimeout]
  | read =>
    simp only [happen] at he
    rw [Source.read?_channel] at he
    split at he
    · cases he
    · simp only [Option.map_some, Option.some.injEq] at he
      obtain ⟨-, -, -, rx', hsrc, hqueue, halive⟩ := Source.readTimeout_channel rx peeked closed
      refine .inr (.inr ⟨1, Nat.le_refl _, rx', none, ?_, by simpa using hqueue, halive⟩)
      rw [← he, hsrc, received_readTimeout]

/-- Every event keeps the invariant. -/
theorem Inv.step {c c' : ChannelLog} (hi : c.Inv) {e : ChannelEvent}
    (he : c.happen e = some c') : c'.Inv := by
  obtain ⟨rx, peeked, closed, hsrc, hmark⟩ := hi.channel
  have hfifo := hi.fifo
  rcases c with ⟨src, sent, got⟩
  dsimp only at hsrc hfifo
  subst hsrc
  simp only [Source.pending] at hfifo
  rcases happen_channel he with ⟨bytes, halive, rfl⟩ | rfl | ⟨taken, -, rx', peeked', rfl, hpend, halive⟩
  · -- a live sender means the source was never marked closed
    refine ⟨by simp [Source.pending, ← hfifo], _, _, _, rfl, fun h => ?_⟩
    simp [hmark h] at halive
  · exact ⟨hfifo, _, _, _, rfl, fun h => ⟨rfl, (hmark h).2⟩⟩
  · refine ⟨?_, _, _, _, rfl, fun h => ?_⟩
    · simp only [Source.pending, hpend, List.append_assoc, List.take_append_drop]
      exact hfifo
    · -- marked before, or marked now on a drained channel whose sender is gone; either way
      -- nothing is pending, so nothing is left after the read
      have hdrained : peeked.toList ++ rx.queue = [] ∧ rx.senderAlive = false := by
        simp only [Bool.or_eq_true, Bool.and_eq_true, List.isEmpty_iff,
          Bool.not_eq_true'] at h
        rcases h with h | h
        · obtain ⟨hdead, rfl, hq⟩ := hmark h
          simp [hq, hdead]
        · exact h
      rw [hdrained.1, List.drop_nil, List.append_eq_nil_iff, Option.toList_eq_nil_iff] at hpend
      exact ⟨halive.trans hdrained.2, hpend⟩

/-- A closed channel source stays closed, whatever happens to it. -/
theorem isClosed_happen {c c' : ChannelLog} (hi : c.Inv) {e : ChannelEvent}
    (he : c.happen e = some c') (hc : c.source.isClosed = true) : c'.source.isClosed = true := by
  obtain ⟨rx, peeked, closed, hsrc, hmark⟩ := hi.channel
  rcases c with ⟨src, sent, got⟩
  dsimp only at hsrc hc
  subst hsrc
  have hmarked : closed = true := by
    simp only [Source.isClosed, Bool.and_eq_true] at hc
    exact hc.1
  obtain ⟨hdead, rfl, hq⟩ := hmark hmarked
  rcases happen_channel he with ⟨bytes, halive, -⟩ | rfl | ⟨taken, -, rx', peeked', rfl, hpend, -⟩
  · simp [hdead] at halive
  · exact hc
  · -- the read found nothing, so the slot stays empty and the mark stays
    rw [hq, Option.toList_none, List.nil_append, List.drop_nil, List.append_eq_nil_iff,
      Option.toList_eq_nil_iff] at hpend
    simp [Source.isClosed, hmarked, hpend.1]

/-! ## Runs of events -/

theorem run_cons (c : ChannelLog) (e : ChannelEvent) (es : List ChannelEvent) :
    c.run (e :: es) = (c.happen e).bind (run · es) := rfl

/-- What every event keeps holds after every run of events. -/
theorem run_of_step {P : ChannelLog → Prop}
    (hstep : ∀ {c c' : ChannelLog} {e : ChannelEvent}, P c → c.happen e = some c' → P c')
    {c c' : ChannelLog} (hc : P c) {es : List ChannelEvent} (hr : c.run es = some c') : P c' := by
  induction es generalizing c with
  | nil =>
    cases hr
    exact hc
  | cons e es ih =>
    rw [run_cons, Option.bind_eq_some_iff] at hr
    obtain ⟨c₁, h₁, hrest⟩ := hr
    exact ih (hstep hc h₁) hrest

theorem Inv.run {c c' : ChannelLog} (hi : c.Inv) {es : List ChannelEvent}
    (hr : c.run es = some c') : c'.Inv :=
  run_of_step (fun hi he => Inv.step hi he) hi hr

theorem isClosed_run {c c' : ChannelLog} (hi : c.Inv) {es : List ChannelEvent}
    (hr : c.run es = some c') (hc : c.source.isClosed = true) : c'.source.isClosed = true := by
  -- the invariant comes along, since closing is kept only by sources that keep it
  have hboth : c'.Inv ∧ c'.source.isClosed = true :=
    run_of_step (P := fun c => c.Inv ∧ c.source.isClosed = true)
      (fun ⟨hi, hc⟩ he => ⟨hi.step he, isClosed_happen hi he hc⟩) ⟨hi, hc⟩ hr
  exact hboth.2

end ChannelLog

/-- A channel source delivers what the host sends. On every channel source, asking tells
whether a byte is in the slot or on the channel, and takes none; a read with the timeout
takes the slot's byte, or else the channel's next one, and with neither it times out exactly
while the sender is alive and fails as closed exactly once it is gone; a read that waits
does the same, except that it blocks exactly on an open, empty channel. Along every run of
host sends, a sender drop and the session's calls from a new channel, the bytes the reads
returned, followed by those still pending, the looked-at byte first, are exactly the bytes
sent; the source is closed only when the sender is gone and every sent byte has been
returned, and then stays closed. -/
theorem channel_delivers_in_order :
    (∀ rx peeked closed,
      ((Source.channel rx peeked closed).available.1 = true ↔ peeked.isSome ∨ rx.queue ≠ []) ∧
      (Source.channel rx peeked closed).available.2.pending = peeked.toList ++ rx.queue) ∧
    (∀ rx peeked closed,
      (∀ b, (Source.channel rx peeked closed).readTimeout.1 = .ok b ↔
        (peeked.toList ++ rx.queue).head? = some b) ∧
      ((Source.channel rx peeked closed).readTimeout.1 = .error ⟨.read, .timeout⟩ ↔
        peeked = none ∧ rx.queue = [] ∧ rx.senderAlive = true) ∧
      ((Source.channel rx peeked closed).readTimeout.1 = .error ⟨.read, .closed⟩ ↔
        peeked = none ∧ rx.queue = [] ∧ rx.senderAlive = false)) ∧
    (∀ rx peeked closed,
      ((Source.channel rx peeked closed).read? = none ↔
        peeked = none ∧ rx.queue = [] ∧ rx.senderAlive = true) ∧
      (∀ r, (Source.channel rx peeked closed).read? = some r →
        r = (Source.channel rx peeked closed).readTimeout)) ∧
    (∀ es c, ChannelLog.fresh.run es = some c →
      c.got ++ c.source.pending = c.sent ∧
      (c.source.isClosed = true → c.source.senderAlive = false ∧ c.got = c.sent) ∧
      ∀ es' c', c.run es' = some c' → c.source.isClosed = true →
        c'.source.isClosed = true) := by
  refine ⟨fun rx peeked closed => ?_, fun rx peeked closed => ?_, fun rx peeked closed => ?_, ?_⟩
  · obtain ⟨hready, rx', peeked', hsrc, hpend, -⟩ := Source.available_channel rx peeked closed
    exact ⟨hready, by rw [hsrc]; exact hpend⟩
  · obtain ⟨hok, htimeout, hclosed, -⟩ := Source.readTimeout_channel rx peeked closed
    exact ⟨hok, htimeout, hclosed⟩
  · rw [Source.read?_channel]
    split
    · exact ⟨iff_of_true rfl ‹_›, fun r h => by cases h⟩
    · exact ⟨iff_of_false (by simp) ‹_›, fun r h => (Option.some.inj h).symm⟩
  · intro es c hrun
    have hi := ChannelLog.inv_fresh.run hrun
    refine ⟨hi.fifo, fun hc => ?_, fun es' c' hrun' hc => ChannelLog.isClosed_run hi hrun' hc⟩
    obtain ⟨rx, peeked, closed, hsrc, hmark⟩ := hi.channel
    have hmarked : closed = true := by
      simp only [hsrc, Source.isClosed, Bool.and_eq_true] at hc
      exact hc.1
    obtain ⟨hdead, hpeek, hq⟩ := hmark hmarked
    -- closed means drained, so the bytes returned are all the bytes sent
    have hfifo := hi.fifo
    rw [hsrc] at hfifo ⊢
    refine ⟨hdead, ?_⟩
    simpa [Source.pending, hpeek, hq] using hfifo

/-- The run of two sent bytes, one looked at ahead and read with the timeout, then the
sender dropped, the other read, and the drained source asked: both bytes come back, in
order, and the source is closed. -/
theorem channel_delivers_in_order_two_bytes :
    let es := [.send [1, 2], .available, .readTimeout, .dropSender, .read, .available]
    let c : ChannelLog := ⟨.channel ⟨[], false⟩ none true, [1, 2], [1, 2]⟩
    ChannelLog.fresh.run es = some c ∧
      c.got ++ c.source.pending = c.sent ∧
      (c.source.isClosed = true → c.source.senderAlive = false ∧ c.got = c.sent) ∧
      ∀ es' c', c.run es' = some c' → c.source.isClosed = true → c'.source.isClosed = true :=
  ⟨rfl, channel_delivers_in_order.2.2.2
    [.send [1, 2], .available, .readTimeout, .dropSender, .read, .available] _ rfl⟩

end Coprocessor
