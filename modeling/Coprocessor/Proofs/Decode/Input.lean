import Mathlib
import Coprocessor.Proofs.Session.Evolves
import Coprocessor.Proofs.Decode.Grammar

/-!
# The input of a frame as a stream

A frame reads its commands from the transport or from a reader over a buffer's snapshot.
Both are one stream of bytes here, `Session.pending`: the bytes the transport's source
holds, or the rest of the snapshot as the heap holds it now. Reading a byte takes the head
of the stream; at its end a read stops with a fault and takes nothing.

`Session.Took n s s'` says that `s'` has taken `n` more bytes of the same input than `s`:
the source holds `n` fewer, or the reader stands `n` further on. `Yields n v x` says that
`x` takes the next `n` bytes of the stream and gives `v` of them, or, when fewer are
waiting, takes them all and stops early. Every reading primitive of the decoder yields so
(`readByte_yields`, `readWord_yields`, `readOffset_yields`, `readBytes_yields`,
`discard_yields`).
-/

namespace Coprocessor

namespace Source

/-- The bytes the source holds and has not yet delivered: for a channel source, the byte in
its slot and then those still on the channel. -/
def pending : Source → List UInt8
  | .queue p => p
  | .silent => []
  | .channel rx peeked _ => peeked.toList ++ rx.queue

theorem readTimeout_cons {src : Source} {b : UInt8} {rest : List UInt8}
    (h : src.pending = b :: rest) : src.readTimeout.1 = .ok b ∧ src.readTimeout.2.pending = rest := by
  cases src with
  | queue p =>
    simp only [pending] at h
    subst h
    exact ⟨rfl, rfl⟩
  | silent => cases h
  | channel rx peeked closed =>
    rcases peeked with _ | c
    · -- nothing in the slot: the byte comes off the channel
      obtain ⟨q, alive⟩ := rx
      simp only [pending, Option.toList_none, List.nil_append] at h
      subst h
      exact ⟨rfl, rfl⟩
    · simp only [pending, Option.toList_some, List.singleton_append, List.cons.injEq] at h
      obtain ⟨rfl, rfl⟩ := h
      exact ⟨rfl, rfl⟩

theorem readTimeout_nil {src : Source} (h : src.pending = []) :
    (∃ f, src.readTimeout.1 = .error f) ∧ src.readTimeout.2.pending = [] := by
  cases src with
  | queue p =>
    simp only [pending] at h
    subst h
    exact ⟨⟨_, rfl⟩, rfl⟩
  | silent => exact ⟨⟨_, rfl⟩, rfl⟩
  | channel rx peeked closed =>
    obtain ⟨q, alive⟩ := rx
    simp only [pending, List.append_eq_nil_iff, Option.toList_eq_nil_iff] at h
    obtain ⟨rfl, rfl⟩ := h
    cases alive
    · exact ⟨⟨_, rfl⟩, rfl⟩
    · exact ⟨⟨_, rfl⟩, rfl⟩

end Source

theorem Transport.readTimeout_eq (t : Transport) :
    t.readTimeout = (t.source.readTimeout.1, { t with source := t.source.readTimeout.2 }) := by
  unfold Transport.readTimeout
  cases t.source.readTimeout
  rfl

namespace Session

/-- The bytes waiting on the frame's input. -/
def pending (s : Session) : List UInt8 :=
  match s.frame.input with
  | .transport => s.transport.source.pending
  | .buffer r => (s.store.heap.flat r.cells).drop r.position

/-- The number of bytes waiting on the frame's input. -/
def left (s : Session) : Nat := s.pending.length

/-- `s'` has taken `n` more bytes of the same input than `s`. -/
inductive Took (n : Nat) (s s' : Session) : Prop
  | transport (h : s.frame.input = .transport) (h' : s'.frame.input = .transport)
      (hp : s'.transport.source.pending = s.transport.source.pending.drop n)
  | buffer (r : Reader) (h : s.frame.input = .buffer r)
      (h' : s'.frame.input = .buffer { r with position := r.position + n })

/-- `s'` runs the frame of `s` again from the first byte of its buffer. -/
def Restarted (s s' : Session) : Prop :=
  ∃ r, s.frame.input = .buffer r ∧ s'.frame.input = .buffer { r with position := 0 }

theorem Took.zero_of_eq {s s' : Session} (hin : s'.frame.input = s.frame.input)
    (hsrc : s'.transport.source = s.transport.source) : s.Took 0 s' := by
  cases h : s.frame.input with
  | transport => exact .transport h (hin.trans h) (by rw [hsrc, List.drop_zero])
  | buffer r => exact .buffer r h (by rw [hin, h, Nat.add_zero])

theorem Took.refl (s : Session) : s.Took 0 s := Took.zero_of_eq rfl rfl

theorem Took.trans {s₁ s₂ s₃ : Session} {a b : Nat} (h₁ : s₁.Took a s₂) (h₂ : s₂.Took b s₃) :
    s₁.Took (a + b) s₃ := by
  cases h₁ with
  | transport h₁ h₁' hp₁ =>
    cases h₂ with
    | transport _ h₂' hp₂ => exact .transport h₁ h₂' (by rw [hp₂, hp₁, List.drop_drop])
    | buffer r h₂ _ => rw [h₁'] at h₂; cases h₂
  | buffer r h₁ h₁' =>
    cases h₂ with
    | transport h₂ _ _ => rw [h₁'] at h₂; cases h₂
    | buffer r' h₂ h₂' =>
      rw [h₁'] at h₂
      cases h₂
      exact .buffer r h₁ (by rw [h₂', Nat.add_assoc])

instance : IsPreorder Session (Took 0) where
  refl := Took.refl
  trans _ _ _ h₁ h₂ := Took.trans h₁ h₂

/-- Restarting after taking some bytes is restarting. -/
theorem Took.restarted {s₁ s₂ s₃ : Session} {n : Nat} (h : s₁.Took n s₂)
    (hr : s₂.Restarted s₃) : s₁.Restarted s₃ := by
  obtain ⟨r₂, h₂, h₃⟩ := hr
  cases h with
  | transport _ h' => rw [h'] at h₂; cases h₂
  | buffer r h h' =>
    rw [h'] at h₂
    cases h₂
    exact ⟨r, h, h₃⟩

/-- Taking bytes from the transport leaves the frame reading the transport. -/
theorem Took.input_transport {s s' : Session} {n : Nat} (h : s.Took n s')
    (hin : s.frame.input = .transport) : s'.frame.input = .transport := by
  cases h with
  | transport _ h' => exact h'
  | buffer r h => rw [hin] at h; cases h

end Session

namespace Exec

open Session

/-! ## Reading one byte -/

/-- A read takes the head of the stream. -/
theorem readByte_cons {s : Session} {b : UInt8} {rest : List UInt8} (h : s.pending = b :: rest) :
    ∃ s', readByte.exec s = (.ok b, s') ∧ s.Took 1 s' ∧ s'.pending = rest ∧
      s'.store = s.store := by
  cases hin : s.frame.input with
  | transport =>
    have hp : s.transport.source.pending = b :: rest := by simpa [pending, hin] using h
    obtain ⟨hb, hrest⟩ := Source.readTimeout_cons hp
    rw [exec_readByte_transport hin, Transport.readTimeout_eq, hb]
    refine ⟨_, rfl, .transport hin hin ?_, ?_, rfl⟩
    · simp [hrest, hp]
    · simp [pending, hin, hrest]
  | buffer rd =>
    have hp : (s.store.heap.flat rd.cells).drop rd.position = b :: rest := by
      simpa [pending, hin] using h
    have hget : (s.store.heap.flat rd.cells)[rd.position]? = some b := by
      rw [← Nat.add_zero rd.position, ← List.getElem?_drop, hp]
      rfl
    have hread : rd.read s.store.heap = (some b, { rd with position := rd.position + 1 }) := by
      rw [Reader.read_eq, hget]
    rw [exec_readByte_buffer hin, hread]
    refine ⟨_, rfl, .buffer rd hin rfl, ?_, rfl⟩
    have hdrop : (s.store.heap.flat rd.cells).drop (rd.position + 1) = rest := by
      rw [← List.drop_drop, hp, List.drop_one, List.tail_cons]
    simpa [pending] using hdrop

/-- A read at the end of the stream stops with a fault and takes nothing. -/
theorem readByte_nil {s : Session} (h : s.pending = []) :
    s.Took 0 (readByte.exec s).2 ∧ ∃ e, (readByte.exec s).1 = .error e := by
  cases hin : s.frame.input with
  | transport =>
    have hp : s.transport.source.pending = [] := by simpa [pending, hin] using h
    obtain ⟨⟨f, hf⟩, hrest⟩ := Source.readTimeout_nil hp
    rw [exec_readByte_transport hin, Transport.readTimeout_eq, hf]
    exact ⟨.transport hin hin (by simp [hrest, hp]), ⟨_, rfl⟩⟩
  | buffer rd =>
    have hp : (s.store.heap.flat rd.cells).drop rd.position = [] := by
      simpa [pending, hin] using h
    have hget : (s.store.heap.flat rd.cells)[rd.position]? = none := by
      rw [← Nat.add_zero rd.position, ← List.getElem?_drop, hp]
      rfl
    have hread : rd.read s.store.heap = (none, rd) := by
      rw [Reader.read_eq, hget]
    rw [exec_readByte_buffer hin, hread]
    exact ⟨.buffer rd hin (by simp), ⟨_, rfl⟩⟩

/-! ## Reading runs of bytes -/

variable {α β : Type}

/-- `x` takes the next `n` bytes of the stream and gives `v` of them; when fewer are
waiting, it takes them all and stops early. -/
def Yields (n : Nat) (v : List UInt8 → α) (x : Exec α) : Prop :=
  ∀ s, (n ≤ s.left → ∃ s', x.exec s = (.ok (v (s.pending.take n)), s') ∧ s.Took n s' ∧
      s'.pending = s.pending.drop n) ∧
    (s.left < n → s.Took s.left (x.exec s).2 ∧ ∃ e, (x.exec s).1 = .error e)

/-- `x` takes the next `n` bytes, whatever it makes of them. -/
def Takes (n : Nat) (x : Exec α) : Prop := ∃ v, Yields n v x

theorem Yields.takes {n : Nat} {v : List UInt8 → α} {x : Exec α} (h : Yields n v x) :
    Takes n x := ⟨v, h⟩

theorem readByte_yields : Yields 1 (fun bs => bs.headD 0) readByte := by
  intro s
  constructor
  · intro hn
    obtain ⟨b, rest, hbr⟩ : ∃ b rest, s.pending = b :: rest := by
      unfold left at hn
      cases h : s.pending with
      | nil => rw [h] at hn; cases hn
      | cons b rest => exact ⟨b, rest, rfl⟩
    obtain ⟨s', hx, ht, hp, -⟩ := readByte_cons hbr
    exact ⟨s', by rw [hx, hbr]; rfl, ht, by rw [hp, hbr]; rfl⟩
  · intro hn
    have h0 : s.left = 0 := by omega
    have hnil : s.pending = [] := List.eq_nil_of_length_eq_zero h0
    rw [h0]
    exact readByte_nil hnil

theorem Yields.of_pure (a : α) : Yields 0 (fun _ => a) (pure a) := by
  intro s
  exact ⟨fun _ => ⟨s, rfl, Took.refl s, rfl⟩, fun h => absurd h (Nat.not_lt_zero _)⟩

theorem Yields.bind {n m : Nat} {v : List UInt8 → α} {w : α → List UInt8 → β} {x : Exec α}
    {f : α → Exec β} (hx : Yields n v x) (hf : ∀ a, Yields m (w a) (f a)) :
    Yields (n + m) (fun bs => w (v (bs.take n)) (bs.drop n)) (x >>= f) := by
  intro s
  constructor
  · intro hnm
    obtain ⟨s₁, hx₁, ht₁, hp₁⟩ := (hx s).1 (by omega)
    have hm : m ≤ s₁.left := by
      unfold left at hnm ⊢
      rw [hp₁, List.length_drop]
      omega
    obtain ⟨s₂, hf₂, ht₂, hp₂⟩ := (hf _ s₁).1 hm
    refine ⟨s₂, ?_, ht₁.trans ht₂, by rw [hp₂, hp₁, List.drop_drop]⟩
    rw [exec_bind_of_ok hx₁, hf₂, hp₁]
    dsimp only
    rw [List.take_take, Nat.min_eq_left (Nat.le_add_right n m), List.drop_take,
      Nat.add_sub_cancel_left]
  · intro hlt
    by_cases hn : n ≤ s.left
    · obtain ⟨s₁, hx₁, ht₁, hp₁⟩ := (hx s).1 hn
      have hl₁ : s₁.left = s.left - n := by
        unfold left
        rw [hp₁, List.length_drop]
      obtain ⟨ht₂, e, he⟩ := (hf _ s₁).2 (by omega)
      rw [exec_bind_of_ok hx₁]
      refine ⟨?_, e, he⟩
      have := ht₁.trans ht₂
      rwa [hl₁, Nat.add_sub_cancel' hn] at this
    · obtain ⟨ht, e, he⟩ := (hx s).2 (by omega)
      have hx₁ : x.exec s = (.error e, (x.exec s).2) := by
        rw [← he]
      rw [exec_bind_of_error hx₁]
      exact ⟨ht, e, rfl⟩

theorem Yields.congr {n : Nat} {v v' : List UInt8 → α} {x : Exec α} (h : Yields n v x)
    (hv : ∀ bs, bs.length = n → v bs = v' bs) : Yields n v' x := by
  intro s
  refine ⟨fun hn => ?_, (h s).2⟩
  obtain ⟨s', hx, ht, hp⟩ := (h s).1 hn
  refine ⟨s', ?_, ht, hp⟩
  rw [hx, hv _ (by simp [left] at hn; simp [Nat.min_eq_left hn])]

theorem Yields.within {n : Nat} {v : List UInt8 → α} {x : Exec α} (h : Yields n v x)
    (op : Operation) : Yields n v (within op x) := by
  intro s
  constructor
  · intro hn
    obtain ⟨s', hx, ht, hp⟩ := (h s).1 hn
    exact ⟨s', by rw [exec_within, hx], ht, hp⟩
  · intro hlt
    obtain ⟨ht, e, he⟩ := (h s).2 hlt
    rw [exec_within]
    rcases hx : x.exec s with ⟨_ | _, s'⟩
    · rw [hx] at ht
      rename_i e'
      cases e' with
      | fault f => exact ⟨ht, _, rfl⟩
      | outOfFuel => exact ⟨ht, _, rfl⟩
    · rw [hx] at he
      cases he

theorem Takes.within {n : Nat} {x : Exec α} (h : Takes n x) (op : Operation) :
    Takes n (within op x) :=
  let ⟨_, hv⟩ := h
  (hv.within op).takes

/-- Two bytes, low first, make the 16-bit word they spell. -/
theorem toNat_word (lo hi : UInt8) :
    (lo.toUInt16 ||| (hi.toUInt16 <<< 8)).toNat = lo.toNat + 256 * hi.toNat := by
  have h1 := lo.toNat_lt
  have h2 := hi.toNat_lt
  simp only [UInt16.toNat_or, UInt16.toNat_shiftLeft, UInt8.toNat_toUInt16]
  have h8 : UInt16.toNat 8 % 16 = 8 := rfl
  -- the high byte shifted up stays below 2^16, clear of the low byte's bits
  have hmod : hi.toNat <<< 8 % 2 ^ 16 = hi.toNat <<< 8 :=
    Nat.mod_eq_of_lt (by rw [Nat.shiftLeft_eq]; omega)
  rw [h8, hmod, Nat.or_comm, ← Nat.shiftLeft_add_eq_or_of_lt h1, Nat.shiftLeft_eq]
  omega

theorem toNat_ofNat_number_pair (lo hi : UInt8) :
    (UInt16.ofNat (Shape.number [lo, hi])).toNat = Shape.number [lo, hi] := by
  have h1 := lo.toNat_lt
  have h2 := hi.toNat_lt
  rw [Shape.number_pair]
  exact UInt16.toNat_ofNat_of_lt' (by rw [UInt16.size]; omega)

theorem readWord_yields : Yields 2 (fun bs => UInt16.ofNat (Shape.number bs)) readWord := by
  unfold readWord
  refine (readByte_yields.bind fun lo => readByte_yields.bind fun hi =>
    Yields.of_pure _).congr ?_
  intro bs hbs
  match bs, hbs with
  | [lo, hi], _ =>
    apply UInt16.toNat_inj.mp
    simp only [List.take, List.drop, List.headD]
    rw [toNat_word, toNat_ofNat_number_pair, Shape.number_pair]

theorem readOffset_yields (wide : Bool) :
    Yields (if wide then 3 else 2) Shape.number (readOffset wide) := by
  unfold readOffset readTriple
  cases wide with
  | true =>
    refine (readByte_yields.bind fun lo => readByte_yields.bind fun mid =>
      readByte_yields.bind fun hi => Yields.of_pure _).congr ?_
    intro bs hbs
    match bs, hbs with
    | [lo, mid, hi], _ => simp [Shape.number_triple]
  | false =>
    refine (readWord_yields.bind fun w => Yields.of_pure _).congr ?_
    intro bs hbs
    match bs, hbs with
    | [lo, hi], _ =>
      simp only [List.take]
      exact toNat_ofNat_number_pair lo hi

theorem readInto_takes (n : Nat) (acc : Array UInt8) : Takes n (readInto acc n) := by
  induction n generalizing acc with
  | zero => exact (Yields.of_pure acc).takes
  | succ n ih =>
    choose v hv using ih
    have h := readByte_yields.bind fun b => hv (acc.push b)
    rw [Nat.add_comm] at h
    exact h.takes

theorem readBytes_takes (n : Nat) : Takes n (readBytes n) := readInto_takes n #[]

theorem discard_takes (n : Nat) : Takes n (discard n) := by
  induction n with
  | zero => exact (Yields.of_pure ()).takes
  | succ n ih =>
    obtain ⟨v, hv⟩ := ih
    have h := readByte_yields.bind fun _ => hv
    rw [Nat.add_comm] at h
    exact h.takes

end Exec

end Coprocessor
