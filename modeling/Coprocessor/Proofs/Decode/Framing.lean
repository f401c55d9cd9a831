import Mathlib
import Coprocessor.Proofs.Decode.Input

/-!
# Framing

Every command takes from its frame's input exactly the bytes that the command grammar
gives it (`Grammar.command`), read off the bytes waiting when it starts, whatever the
store holds, whatever the options say and whether it succeeds or fails. When the input
ends inside a command, the command takes all there is and stops early. The one exception
is a call of the buffer being run, which takes its bytes and then starts the frame again
from its first byte.

`Follows sh R x` states this of a command part `x`: it takes `sh.size?` bytes of the
stream, or restarts the frame from a state satisfying `R`. Parts are put together along
the grammar: a read that yields its bytes followed by a part that follows the rest
(`Follows.bind`), a part that reads nothing (`Follows.of_fixed`), and, for the operands
of an adjust command, whose reads are spread over the steps of the operation, an account
of the bytes still owed (`Spends`): each step takes some and hands on the count of the
others, and whatever is still owed at the end, or when a lookup fails, is skipped.
-/

namespace Coprocessor

namespace Session

/-- The frame reads on from the same place of the same input, and the transport's input
is untouched. -/
def Fixed (s s' : Session) : Prop :=
  s'.frame.input = s.frame.input ∧ s'.transport.source = s.transport.source

instance : IsPreorder Session Fixed where
  refl _ := ⟨rfl, rfl⟩
  trans _ _ _ h₁ h₂ := ⟨h₂.1.trans h₁.1, h₂.2.trans h₁.2⟩

theorem Fixed.took {s s' : Session} (h : Fixed s s') : s.Took 0 s' := Took.zero_of_eq h.1 h.2

end Session

namespace Exec

open Session

variable {α β : Type}

/-! ## Parts that read nothing -/

theorem writeByte_fixed (v : UInt8) : Moves Fixed (writeByte v) := by
  unfold writeByte
  refine Moves.frame_bind fun s => ?_
  split
  · exact ⟨rfl, Transport.source_write _ _⟩
  · rw [exec_store_bind]
    split
    · exact ⟨rfl, rfl⟩
    · exact refl_of Fixed s
  · exact refl_of Fixed s

theorem sendPacket_fixed (code : UInt8) (data : Array UInt8) : Moves Fixed (sendPacket code data) := by
  unfold sendPacket
  refine (writeByte_fixed _).bind fun _ => (writeByte_fixed _).bind fun _ => ?_
  rw [← Array.forIn_toList]
  exact (Moves.forIn fun b _ => (writeByte_fixed b).bind fun _ => Moves.of_pure _).bind
    fun _ => Moves.of_pure _

theorem present_fixed (c : ScreenCall) : Moves Fixed (present c) :=
  Moves.of_modify fun _ => ⟨rfl, rfl⟩

theorem modifyStore_fixed (g : Store → Store) : Moves Fixed (modifyStore g) :=
  Moves.of_modify fun _ => ⟨rfl, rfl⟩

theorem setOutput_fixed (id : BufferId) : Moves Fixed (setOutput id) := by
  unfold setOutput
  refine Moves.frame_bind fun s => ?_
  rw [exec_store_bind]
  split
  · exact ⟨rfl, rfl⟩
  · exact ⟨rfl, rfl⟩
  · split
    · exact ⟨rfl, rfl⟩
    · split <;> exact refl_of Fixed s

theorem bufferClear_fixed (id : BufferId) : Moves Fixed (bufferClear id) :=
  modifyStore_fixed _

/-- A nested run gives the caller's frame back as it was, and a frame reading a buffer
leaves the transport's input alone. -/
theorem enter_fixed {nested : Frame} (hn : nested.input.IsBuffer) {body : Exec Unit}
    (hb : Moves Evolves body) : Moves Fixed (enter nested body) := by
  intro s
  rw [exec_enter]
  exact ⟨rfl, (hb { s with frame := nested }).source hn⟩

/-! ## Following the grammar -/

/-- `x` takes the bytes that `sh` gives it from the stream waiting when it starts, or
restarts the frame from a state satisfying `R`; when the stream ends first, it takes all
of it and stops early. -/
def Follows (sh : Shape) (R : Session → Prop) (x : Exec α) : Prop :=
  ∀ s, (∀ n, sh.size? s.pending = some n →
      s.Took n (x.exec s).2 ∨ (R s ∧ s.Restarted (x.exec s).2)) ∧
    (sh.size? s.pending = none → s.Took s.left (x.exec s).2 ∧ ∃ e, (x.exec s).1 = .error e)

theorem Follows.of_fixed {R : Session → Prop} {x : Exec α} (h : Moves Fixed x) :
    Follows .done R x := by
  intro s
  refine ⟨fun n hn => ?_, fun hn => by cases hn⟩
  cases hn
  exact .inl (h s).took

theorem Follows.mono {sh : Shape} {R R' : Session → Prop} {x : Exec α} (h : Follows sh R x)
    (hR : ∀ s, R s → R' s) : Follows sh R' x := fun s =>
  ⟨fun n hn => ((h s).1 n hn).imp_right fun h => ⟨hR s h.1, h.2⟩, (h s).2⟩

theorem Follows.congr {sh sh' : Shape} {R : Session → Prop} {x : Exec α} (h : Follows sh R x)
    (hsh : ∀ bs, sh'.size? bs = sh.size? bs) : Follows sh' R x := by
  intro s
  rw [hsh]
  exact h s

/-- Charging a fault to an operation changes neither what was taken nor whether the part
stopped early. -/
theorem Follows.within {sh : Shape} {R : Session → Prop} {x : Exec α} (h : Follows sh R x)
    (op : Operation) : Follows sh R (Exec.within op x) := by
  intro s
  have hstate : ((Exec.within op x).exec s).2 = (x.exec s).2 := by
    rw [exec_within]
    rcases x.exec s with ⟨_ | _, s'⟩
    · rename_i e
      cases e <;> rfl
    · rfl
  rw [hstate]
  refine ⟨(h s).1, fun hn => ?_⟩
  obtain ⟨ht, e, he⟩ := (h s).2 hn
  refine ⟨ht, ?_⟩
  rw [exec_within]
  rcases hx : x.exec s with ⟨_ | _, s'⟩
  · rename_i e'
    cases e' <;> exact ⟨_, rfl⟩
  · rw [hx] at he
    cases he

theorem Follows.store_bind {sh : Shape} {R : Session → Prop} {f : Store → Exec α}
    (h : ∀ st, Follows sh R (f st)) : Follows sh R (store >>= f) := by
  intro s
  rw [exec_store_bind]
  exact h s.store s

theorem Follows.allocator_bind {sh : Shape} {R : Session → Prop} {f : Allocator → Exec α}
    (h : ∀ a, Follows sh R (f a)) : Follows sh R (allocator >>= f) := by
  intro s
  rw [exec_allocator_bind]
  exact h s.allocator s

/-- A read of `n` bytes followed by a part that follows what they say follows the grammar
that takes them and goes on as they say. A restart of the rest is a restart of the whole
when its condition, read after the bytes, gives the whole's condition before them. -/
theorem Follows.bind {n : Nat} {v : List UInt8 → α} {k : List UInt8 → Shape}
    {R : Session → Prop} {Q : List UInt8 → Session → Prop} {x : Exec α} {f : α → Exec β}
    (hx : Yields n v x) (hxe : Moves Evolves x)
    (hf : ∀ bs, bs.length = n → Follows (k bs) (Q bs) (f (v bs)))
    (hR : ∀ s s₁ bs, bs.length = n → s.pending = bs ++ s₁.pending →
      s₁.frame.id = s.frame.id → Q bs s₁ → R s) :
    Follows (.take n k) R (x >>= f) := by
  intro s
  by_cases hn : n ≤ s.left
  · obtain ⟨s₁, hx₁, ht₁, hp₁⟩ := (hx s).1 hn
    have hlen : (s.pending.take n).length = n := by
      simp only [List.length_take]
      exact Nat.min_eq_left hn
    have hl₁ : s₁.left = s.left - n := by
      unfold left
      rw [hp₁, List.length_drop]
    have hs₁ := hf _ hlen s₁
    rw [hp₁] at hs₁
    rw [Shape.size?_take_of_le hn, exec_bind_of_ok hx₁]
    refine ⟨fun m hm => ?_, fun hm => ?_⟩
    · obtain ⟨m', hm', rfl⟩ := Option.map_eq_some_iff.mp hm
      rcases hs₁.1 m' hm' with ht | ⟨hR', hr⟩
      · exact .inl (ht₁.trans ht)
      · have hid : s₁.frame.id = s.frame.id := by
          have := (hxe s).frame.id
          rwa [hx₁] at this
        refine .inr ⟨hR s s₁ _ hlen ?_ hid hR', ht₁.restarted hr⟩
        rw [hp₁, List.take_append_drop]
    · obtain ⟨ht, e, he⟩ := hs₁.2 (Option.map_eq_none_iff.mp hm)
      refine ⟨?_, e, he⟩
      have := ht₁.trans ht
      rwa [hl₁, Nat.add_sub_cancel' hn] at this
  · have hlt : s.left < n := Nat.lt_of_not_le hn
    rw [Shape.size?_take_of_lt hlt]
    obtain ⟨ht, e, he⟩ := (hx s).2 hlt
    have hx₁ : x.exec s = (.error e, (x.exec s).2) := by
      rw [← he]
    rw [exec_bind_of_error hx₁]
    exact ⟨fun _ h => (nomatch h), fun _ => ⟨ht, e, rfl⟩⟩

theorem Follows.bind_takes {n : Nat} {next : Shape} {R : Session → Prop} {R' : Session → Prop}
    {x : Exec α} {f : α → Exec β} (hx : Takes n x) (hxe : Moves Evolves x)
    (hf : ∀ a, Follows next R' (f a))
    (hR : ∀ s s₁, s₁.frame.id = s.frame.id → R' s₁ → R s) :
    Follows (.skip n next) R (x >>= f) := by
  obtain ⟨v, hv⟩ := hx
  exact Follows.bind hv hxe (fun bs _ => hf (v bs)) fun s s₁ _ _ _ hid h => hR s s₁ hid h

theorem Follows.of_takes {n : Nat} {R : Session → Prop} {x : Exec α} (hx : Takes n x)
    (hxe : Moves Evolves x) : Follows (.skip n .done) R x := by
  have h : Follows (.skip n .done) R (x >>= pure) :=
    Follows.bind_takes hx hxe
      (fun a => (Follows.of_fixed (Moves.of_pure a) : Follows .done (fun _ => False) _))
      fun _ _ _ h => h.elim
  rw [bind_pure] at h
  exact h

/-! ## Bytes owed -/

/-- `x` takes some of the `p` bytes it owes and gives back, through `rest`, how many it
still owes: what it took is exactly the others, and no more than is waiting. When it stops
early, it has taken all `p`, or all there was. -/
def Spends (p : Nat) (rest : α → Nat) (x : Exec α) : Prop :=
  ∀ s, (∀ a s', x.exec s = (.ok a, s') → rest a ≤ p ∧ p - rest a ≤ s.left ∧
      s.Took (p - rest a) s' ∧ s'.left = s.left - (p - rest a)) ∧
    (∀ e s', x.exec s = (.error e, s') → s.Took (min p s.left) s')

theorem Spends.of_pure {p : Nat} {rest : α → Nat} {a : α} (h : rest a = p) :
    Spends p rest (pure a) := by
  intro s
  refine ⟨fun a' s' he => ?_, fun e s' he => by cases he⟩
  cases he
  rw [h, Nat.sub_self, Nat.sub_zero]
  exact ⟨Nat.le_refl p, Nat.zero_le _, Took.refl s, rfl⟩

theorem Spends.of_fail {rest : α → Nat} (f : Fault) : Spends 0 rest (fail f : Exec α) := by
  intro s
  refine ⟨fun a s' he => (by cases he), fun e s' he => ?_⟩
  cases he
  rw [Nat.zero_min]
  exact Took.refl s

/-- A read of `n` of the bytes owed. -/
theorem Spends.of_yields {n p : Nat} {v : List UInt8 → α} {x : Exec α} (hx : Yields n v x)
    (hn : n ≤ p) : Spends p (fun _ => p - n) x := by
  intro s
  constructor
  · intro a s' he
    by_cases hl : n ≤ s.left
    · obtain ⟨s₁, hx₁, ht, hp⟩ := (hx s).1 hl
      rw [hx₁] at he
      cases he
      dsimp only
      have hnp : p - (p - n) = n := by omega
      refine ⟨Nat.sub_le p n, by omega, by rw [hnp]; exact ht, ?_⟩
      rw [hnp]
      unfold left
      rw [hp, List.length_drop]
    · obtain ⟨-, e, he'⟩ := (hx s).2 (by omega)
      rw [he] at he'
      cases he'
  · intro e s' he
    by_cases hl : n ≤ s.left
    · obtain ⟨s₁, hx₁, -, -⟩ := (hx s).1 hl
      rw [hx₁] at he
      cases he
    · obtain ⟨ht, -⟩ := (hx s).2 (by omega)
      rw [he] at ht
      rwa [Nat.min_eq_right (by omega)]

/-- Bytes owed are taken in turn: a part takes some and hands the count of the others on
to the next, which may take them only as far as the first part's result allows. -/
theorem Spends.bind {p : Nat} {r₁ : α → Nat} {r₂ : β → Nat} {P : α → Prop} {x : Exec α}
    {f : α → Exec β} (hx : Spends p r₁ x) (hP : ∀ s a s', x.exec s = (.ok a, s') → P a)
    (hf : ∀ a, P a → Spends (r₁ a) r₂ (f a)) : Spends p r₂ (x >>= f) := by
  intro s
  constructor
  · intro b s₂ he
    obtain ⟨a, s₁, hx₁, hf₂⟩ := exec_bind_eq_ok he
    obtain ⟨h₁, hl₁, ht₁, hleft₁⟩ := (hx s).1 a s₁ hx₁
    obtain ⟨h₂, hl₂, ht₂, hleft₂⟩ := ((hf a (hP s a s₁ hx₁)) s₁).1 b s₂ hf₂
    have hsum : p - r₁ a + (r₁ a - r₂ b) = p - r₂ b := by omega
    refine ⟨by omega, by omega, hsum ▸ ht₁.trans ht₂, by omega⟩
  · intro e s₂ he
    rcases exec_bind_eq_error he with hx₁ | ⟨a, s₁, hx₁, hf₂⟩
    · exact (hx s).2 e s₂ hx₁
    · obtain ⟨h₁, hl₁, ht₁, hleft₁⟩ := (hx s).1 a s₁ hx₁
      have ht₂ := ((hf a (hP s a s₁ hx₁)) s₁).2 e s₂ hf₂
      have hsum : p - r₁ a + min (r₁ a) s₁.left = min p s.left := by omega
      exact hsum ▸ ht₁.trans ht₂

theorem Spends.bind' {p : Nat} {r₁ : α → Nat} {r₂ : β → Nat} {x : Exec α} {f : α → Exec β}
    (hx : Spends p r₁ x) (hf : ∀ a, Spends (r₁ a) r₂ (f a)) : Spends p r₂ (x >>= f) :=
  hx.bind (P := fun _ => True) (fun _ _ _ _ => trivial) fun a _ => hf a

theorem Spends.within {p : Nat} {rest : α → Nat} {x : Exec α} (h : Spends p rest x)
    (op : Operation) : Spends p rest (Exec.within op x) := by
  intro s
  constructor
  · intro a s' he
    rw [exec_within] at he
    rcases hx : x.exec s with ⟨_ | _, s₁⟩
    · rw [hx] at he
      rename_i e
      cases e <;> cases he
    · rw [hx] at he
      cases he
      exact (h s).1 _ _ hx
  · intro e s' he
    rw [exec_within] at he
    rcases hx : x.exec s with ⟨_ | _, s₁⟩
    · rw [hx] at he
      rename_i e'
      cases e' <;> cases he <;> exact (h s).2 _ _ hx
    · rw [hx] at he
      cases he

/-- Heap writes keep every cell at its length, so the bytes waiting keep their number. -/
theorem left_of_sizes {s s' : Session} (hf : s'.frame = s.frame)
    (hsrc : s'.transport.source = s.transport.source)
    (hsize : ∀ c, s'.store.heap.size c = s.store.heap.size c) : s'.left = s.left := by
  unfold left pending
  rw [hf]
  split
  · rw [hsrc]
  · rename_i r _
    simp only [List.length_drop, ← Heap.totalSize_eq_length_flat]
    rw [Heap.totalSize_congr fun c _ => hsize c]

theorem store_spends (p : Nat) : Spends p (fun _ => p) store := by
  intro s
  refine ⟨fun a s' he => ?_, fun e s' he => by cases he⟩
  cases he
  rw [Nat.sub_self, Nat.sub_zero]
  exact ⟨Nat.le_refl p, Nat.zero_le _, Took.refl s, rfl⟩

theorem poke_spends (p : Nat) (loc : Nat × Nat) (v : UInt8) :
    Spends p (fun _ => p) (modifyStore (·.poke loc v)) := by
  intro s
  refine ⟨fun a s' he => ?_, fun e s' he => by cases he⟩
  cases he
  rw [Nat.sub_self, Nat.sub_zero]
  exact ⟨Nat.le_refl p, Nat.zero_le _, Took.zero_of_eq rfl rfl,
    left_of_sizes rfl rfl fun c => Heap.size_set _ _ _ _ c⟩

theorem adjustLookup_spends (p : Nat) (r : Except Fault α) :
    Spends p (fun _ => p) (adjustLookup p r) := by
  unfold adjustLookup
  split
  · exact Spends.of_pure rfl
  · -- a failed lookup skips every byte still owed, then stops
    obtain ⟨v, hv⟩ := discard_takes p
    have h := (Spends.of_yields (hv.within .adjust) (Nat.le_refl p))
    rw [Nat.sub_self] at h
    exact h.bind' fun _ => Spends.of_fail _

theorem nextOperand_spends (source : OperandSource) (i p : Nat)
    (h : source = .immediate → 1 ≤ p) : Spends p (·.2) (nextOperand source i p) := by
  unfold nextOperand
  split
  · exact Spends.of_pure rfl
  · exact (Spends.of_yields (readByte_yields.within .adjust) (h rfl)).bind' fun _ =>
      Spends.of_pure rfl
  · exact (store_spends p).bind' fun _ => (adjustLookup_spends p _).bind' fun _ =>
      Spends.of_pure rfl

/-- An operand taken from the stream is one byte less owed. -/
theorem nextOperand_rest {source : OperandSource} {i p : Nat} {s s' : Session}
    {a : UInt8 × Nat} (he : (nextOperand source i p).exec s = (.ok a, s')) :
    a.2 = if source = .immediate then p - 1 else p := by
  cases source with
  | none =>
    cases he
    rfl
  | immediate =>
    obtain ⟨b, s₁, -, hb⟩ := exec_bind_eq_ok he
    cases hb
    rfl
  | buffer id offset =>
    simp only [nextOperand, exec_store_bind] at he
    obtain ⟨b, s₁, -, hb⟩ := exec_bind_eq_ok he
    cases hb
    rfl

theorem adjustSteps_spends (op : AdjustOp) (cmd : AdjustCommand) (id : BufferId)
    (offset : Nat) (source : OperandSource) (single : UInt8) (i k : Nat) (value carry : UInt8)
    (p : Nat) (h : cmd.multiOperand = true → source = .immediate → k ≤ p) :
    Spends p (·.2.2) (adjustSteps op cmd id offset source single i k value carry p) := by
  induction k generalizing i value carry p with
  | zero => exact Spends.of_pure rfl
  | succ k ih =>
    unfold adjustSteps
    dsimp only
    -- the operand of a run of operands is one byte less owed when it comes from the stream
    have hnext : ∀ {β : Type} {r : β → Nat} {f : UInt8 × Nat → Exec β},
        cmd.multiOperand = true →
        (∀ x : UInt8 × Nat, (source = .immediate → k ≤ x.2) → Spends x.2 r (f x)) →
        Spends p r (nextOperand source i p >>= f) := by
      intro β r f hm hf
      refine (nextOperand_spends source i p fun hs => ?_).bind (fun _ _ _ he => nextOperand_rest he)
        fun x hx => hf x fun hs => ?_
      · have := h hm hs
        omega
      · have := h hm hs
        rw [hx, if_pos hs]
        omega
    split
    · refine (store_spends p).bind' fun _ => (adjustLookup_spends p _).bind' fun _ => ?_
      split
      · exact hnext ‹_› fun x hx => (store_spends _).bind' fun _ =>
          (adjustLookup_spends _ _).bind' fun _ => (poke_spends _ _ _).bind' fun _ =>
          ih _ _ _ _ fun _ hs => hx hs
      · exact (Spends.of_pure rfl).bind' fun _ => (store_spends _).bind' fun _ =>
          (adjustLookup_spends _ _).bind' fun _ => (poke_spends _ _ _).bind' fun _ =>
          ih _ _ _ _ fun hm => absurd hm ‹_›
    · refine (Spends.of_pure rfl : Spends p (fun _ => p) (pure value)).bind' fun _ => ?_
      split
      · exact hnext ‹_› fun x hx => ih _ _ _ _ fun _ hs => hx hs
      · exact (Spends.of_pure rfl).bind' fun _ => ih _ _ _ _ fun hm => absurd hm ‹_›

theorem adjustRun_spends (op : AdjustOp) (cmd : AdjustCommand) (id : BufferId)
    (offset count : Nat) (source : OperandSource) (p : Nat)
    (hmulti : source = .immediate → cmd.multiOperand = true → count ≤ p)
    (hsingle : source = .immediate → (cmd.hasOperand && !cmd.multiOperand) = true → 1 ≤ p) :
    Spends p (fun q => q) (adjustRun op cmd id offset count source p) := by
  unfold adjustRun
  dsimp only
  simp only [pure_bind]
  -- the single result, then the last carry, are stored in place owing what the steps left
  have hcarry : ∀ (c : UInt8) (q : Nat), Spends q (fun q => q) (if op = .addCarry then
      (store >>= fun st => adjustLookup q (st.locate id (offset + count)) >>= fun loc =>
        modifyStore (·.poke loc c) >>= fun _ => pure q) else pure q) := by
    intro c q
    split
    · exact (store_spends q).bind' fun _ => (adjustLookup_spends q _).bind' fun _ =>
        (poke_spends _ _ _).bind' fun _ => Spends.of_pure rfl
    · exact Spends.of_pure rfl
  have htail : ∀ y : UInt8 × UInt8 × Nat, Spends y.2.2 (fun q => q)
      (if (!cmd.multiTarget) = true then
        (store >>= fun st => adjustLookup y.2.2 (st.locate id offset) >>= fun loc =>
          modifyStore (·.poke loc y.1) >>= fun _ =>
            if op = .addCarry then
              (store >>= fun st => adjustLookup y.2.2 (st.locate id (offset + count)) >>=
                fun loc => modifyStore (·.poke loc y.2.1) >>= fun _ => pure y.2.2)
            else pure y.2.2)
      else if op = .addCarry then
        (store >>= fun st => adjustLookup y.2.2 (st.locate id (offset + count)) >>= fun loc =>
          modifyStore (·.poke loc y.2.1) >>= fun _ => pure y.2.2)
      else pure y.2.2) := by
    intro y
    split
    · exact (store_spends _).bind' fun _ => (adjustLookup_spends _ _).bind' fun _ =>
        (poke_spends _ _ _).bind' fun _ => hcarry _ _
    · exact hcarry _ _
  -- the target byte, looked up up front unless the targets run
  split
  all_goals first
    | refine (store_spends p).bind' fun _ => (adjustLookup_spends p _).bind' fun value => ?_
    | skip
  -- the single operand, read up front unless the operands run; the steps then read the
  -- run of operands, if any, from what is still owed
  all_goals split
  all_goals first
    | refine (nextOperand_spends source 0 p fun hs => hsingle hs ‹_›).bind
        (fun _ _ _ he => nextOperand_rest he) fun x hx => ?_
      refine (adjustSteps_spends _ _ _ _ _ _ _ _ _ _ _ fun hm _ => ?_).bind' fun y => htail y
      exact absurd ‹(cmd.hasOperand && !cmd.multiOperand) = true› (by simp [hm])
    | refine (adjustSteps_spends _ _ _ _ _ _ _ _ _ _ _ fun hm hs => hmulti hs hm).bind'
        fun y => htail y

theorem size?_skip_done (p : Nat) (bs : List UInt8) :
    (Shape.skip p .done).size? bs = if p ≤ bs.length then some p else none := by
  by_cases hp : p ≤ bs.length
  · rw [Shape.skip, Shape.size?_take_of_le hp, if_pos hp]
    rfl
  · rw [Shape.skip, Shape.size?_take_of_lt (Nat.lt_of_not_le hp), if_neg hp]

/-- Skipping whatever is still owed at the end settles the account: the whole takes
exactly the bytes owed at the start. -/
theorem Follows.owed {p : Nat} {R : Session → Prop} {x : Exec Nat}
    (hx : Spends p (fun q => q) x) (op : Operation) :
    Follows (.skip p .done) R (x >>= fun q => Exec.within op (discard q)) := by
  intro s
  have hleft : s.pending.length = s.left := rfl
  rw [size?_skip_done, hleft]
  have hskip : ∀ q, Yields q _ (Exec.within op (discard q)) := fun q =>
    (Classical.choose_spec (discard_takes q)).within op
  have hok : ∀ q s₁, x.exec s = (.ok q, s₁) →
      q ≤ p ∧ p - q ≤ s.left ∧ s.Took (p - q) s₁ ∧ s₁.left = s.left - (p - q) :=
    (hx s).1
  constructor
  · intro n hn
    by_cases hp : p ≤ s.left
    · rw [if_pos hp] at hn
      cases hn
      left
      rcases hxs : x.exec s with ⟨_ | q, s₁⟩
      · rw [exec_bind_of_error hxs]
        have := (hx s).2 _ _ hxs
        rwa [Nat.min_eq_left hp] at this
      · rw [exec_bind_of_ok hxs]
        obtain ⟨hq, -, ht₁, hl₁⟩ := hok q s₁ hxs
        obtain ⟨s₂, hd, ht₂, -⟩ := (hskip q s₁).1 (by omega)
        rw [hd]
        have := ht₁.trans ht₂
        rwa [Nat.sub_add_cancel hq] at this
    · rw [if_neg hp] at hn
      cases hn
  · intro hn
    have hp : s.left < p := by
      by_contra h
      rw [if_pos (by omega)] at hn
      cases hn
    rcases hxs : x.exec s with ⟨_ | q, s₁⟩
    · rw [exec_bind_of_error hxs]
      have := (hx s).2 _ _ hxs
      rw [Nat.min_eq_right (Nat.le_of_lt hp)] at this
      exact ⟨this, _, rfl⟩
    · rw [exec_bind_of_ok hxs]
      obtain ⟨hq, hql, ht₁, hl₁⟩ := hok q s₁ hxs
      obtain ⟨ht₂, e, he⟩ := (hskip q s₁).2 (by omega)
      refine ⟨?_, e, he⟩
      have := ht₁.trans ht₂
      rwa [hl₁, Nat.add_sub_cancel' hql] at this

/-! ## Adjust commands -/

theorem size?_skip_skip (a b : Nat) (next : Shape) (bs : List UInt8) :
    (Shape.skip a (Shape.skip b next)).size? bs = (Shape.skip (a + b) next).size? bs := by
  simp only [Shape.skip, Shape.size?, List.length_drop, List.drop_drop]
  by_cases ha : a ≤ bs.length
  · by_cases hb : b ≤ bs.length - a
    · rw [if_pos ha, if_pos hb, if_pos (by omega), Option.map_map]
      congr 1
      funext m
      simp only [Function.comp]
      omega
    · rw [if_pos ha, if_neg hb, if_neg (by omega)]
      rfl
  · rw [if_neg ha, if_neg (by omega)]

/-- The fields of an adjust command byte, read as the grammar reads them. -/
theorem adjustCommand_fields (b : UInt8) :
    (if (AdjustCommand.ofByte b).wide then 3 else 2) = Grammar.width b ∧
    ((AdjustCommand.ofByte b).bufferOperand = true ↔ b &&& 0x20 ≠ 0) ∧
    ((AdjustCommand.ofByte b).multiOperand = true ↔ b &&& 0x80 ≠ 0) ∧
    ((AdjustCommand.ofByte b).hasOperand = true ↔ b &&& 0x0F > 1) := by
  simp [AdjustCommand.ofByte, AdjustCommand.hasOperand, Grammar.width]

set_option maxRecDepth 4000 in
/-- A count follows exactly when a run flag is set. -/
theorem hasCount_iff (b : UInt8) :
    (AdjustCommand.ofByte b).hasCount = true ↔ b &&& 0xC0 ≠ 0 := by
  revert b
  decide

/-- What an adjust command does once its operand source is known: run the operation, if
its code names one, and skip what is still owed. -/
theorem adjustTail_follows {R : Session → Prop} (o : Option AdjustOp) (cmd : AdjustCommand)
    (id : BufferId) (offset count : Nat) (source : OperandSource) (p : Nat)
    (hmulti : source = .immediate → cmd.multiOperand = true → count ≤ p)
    (hsingle : source = .immediate → (cmd.hasOperand && !cmd.multiOperand) = true → 1 ≤ p) :
    Follows (.skip p .done) R (match o with
      | some op => adjustRun op cmd id offset count source p >>= fun q =>
          Exec.within .adjust (discard q)
      | none => Exec.within .adjust (discard p)) := by
  split
  · exact Follows.owed (adjustRun_spends _ _ _ _ _ _ _ hmulti hsingle) _
  · exact Follows.of_takes ((discard_takes p).within _)
      (Moves.within _ (discard_evolves _))

theorem bufferAdjust_follows {R : Session → Prop} (id : BufferId) :
    Follows (.byte Grammar.adjust) R (bufferAdjust id) := by
  unfold bufferAdjust
  dsimp only
  simp only [pure_bind]
  refine Follows.bind (readByte_yields.within _) (Moves.within _ readByte_evolves)
    (fun bs _ => ?_) fun _ _ _ _ _ _ (h : False) => h.elim
  generalize bs.headD 0 = b
  obtain ⟨hwidth, hbuf, hmul, hop⟩ := adjustCommand_fields b
  have hnumber : Yields (Grammar.width b) Shape.number
      (Exec.within .adjust (readOffset (AdjustCommand.ofByte b).wide)) :=
    hwidth ▸ (readOffset_yields _).within _
  rw [Grammar.adjust]
  -- the offset
  refine Follows.bind_takes hnumber.takes (Moves.within _ (readOffset_evolves _))
    (fun offset => ?_) fun _ _ _ (h : False) => h.elim
  -- the count, read when a run flag is set; without one the operands cannot run
  by_cases hc : b &&& 0xC0 ≠ 0
  all_goals first
    | rw [if_pos hc, if_pos ((hasCount_iff b).mpr hc)]
      refine Follows.bind hnumber (Moves.within _ (readOffset_evolves _))
        (fun cs _ => ?_) fun _ _ _ _ _ _ (h : False) => h.elim
      have hC : b &&& 0x80 ≠ 0 → Shape.number cs = Shape.number cs := fun _ => rfl
    | rw [if_neg hc, if_neg (by rwa [hasCount_iff])]
      have hC : b &&& 0x80 ≠ 0 → (0 : Nat) = 1 := fun hm => by
        refine absurd ((hasCount_iff b).mp ?_) hc
        simp [AdjustCommand.hasCount, hmul.mpr hm]
  -- the operands: none, a buffer's id and offset, or immediate bytes
  all_goals
    unfold Grammar.adjustOperands
    by_cases hops : b &&& 0x0F > 1
    · have hsome : ¬(!(AdjustCommand.ofByte b).hasOperand) = true := by simp [hop.mpr hops]
      rw [if_pos hops, if_neg hsome]
      by_cases hb : b &&& 0x20 ≠ 0
      · rw [if_pos hb, if_pos (hbuf.mpr hb)]
        refine Follows.congr ?_ fun bs => by
          rw [size?_skip_skip, size?_skip_skip, Nat.add_zero]
        refine Follows.bind_takes (readWord_yields.within _).takes
          (Moves.within _ readWord_evolves) (fun _ => ?_) fun _ _ _ (h : False) => h.elim
        refine Follows.bind_takes hnumber.takes
          (Moves.within _ (readOffset_evolves _)) (fun _ => ?_) fun _ _ _ (h : False) => h.elim
        exact adjustTail_follows _ _ _ _ _ _ _ (fun h => nomatch h) fun h => nomatch h
      · have himm : ¬(AdjustCommand.ofByte b).bufferOperand = true := fun h => hb (hbuf.mp h)
        rw [if_neg hb, if_neg himm, if_true]
        by_cases hm : b &&& 0x80 ≠ 0
        · rw [if_pos hm, if_pos (hmul.mpr hm), hC hm]
          exact adjustTail_follows _ _ _ _ _ _ _ (fun _ _ => Nat.le_refl _)
            fun _ h => by simp [hmul.mpr hm] at h
        · have hsingle : ¬(AdjustCommand.ofByte b).multiOperand = true := fun h => hm (hmul.mp h)
          rw [if_neg hm, if_neg hsingle]
          exact adjustTail_follows _ _ _ _ _ _ _ (fun _ h => absurd h hsingle)
            fun _ _ => Nat.le_refl _
    · have hnone : (!(AdjustCommand.ofByte b).hasOperand) = true := by
        simpa using fun h => hops (hop.mp h)
      rw [if_neg hops, if_pos hnone]
      refine Follows.congr (adjustTail_follows _ _ _ _ _ _ _ (fun h => nomatch h)
        fun h => nomatch h) fun bs => ?_
      rw [size?_skip_done]
      simp

/-! ## Buffered commands -/

/-- A part that reads nothing followed by parts that read nothing, restarting at most from
a state with the same buffer id. -/
theorem Follows.done_bind {R : Session → Prop} {x : Exec α} {f : α → Exec β}
    (hx : Moves Fixed x) (hxe : Moves Evolves x) (hf : ∀ a, Follows .done R (f a))
    (hR : ∀ s s₁, s₁.frame.id = s.frame.id → R s₁ → R s) : Follows .done R (x >>= f) := by
  intro s
  refine ⟨fun n hn => ?_, fun hn => nomatch hn⟩
  cases hn
  rcases hxs : x.exec s with ⟨_ | a, s₁⟩
  · rw [exec_bind_of_error hxs]
    have := (hx s).took
    rw [hxs] at this
    exact .inl this
  · rw [exec_bind_of_ok hxs]
    have ht := (hx s).took
    have hid := (hxe s).frame.id
    rw [hxs] at ht hid
    rcases (hf a s₁).1 0 rfl with ht' | ⟨hR', hr⟩
    · exact .inl (ht.trans ht')
    · exact .inr ⟨hR s s₁ hid hR', ht.restarted hr⟩

/-- A call takes nothing more from the caller's input, and restarts the caller's frame only
when it calls the caller's own buffer. -/
theorem bufferCall_follows {run : Frame → Exec Unit}
    (hrun : ∀ id r o d, Moves Fixed (run (Frame.nested id r o d))) (id : BufferId) :
    Follows .done (fun s => s.frame.id = id) (bufferCall run id) := by
  intro s
  refine ⟨fun n hn => ?_, fun hn => nomatch hn⟩
  cases hn
  unfold bufferCall
  rw [exec_frame_bind]
  split
  · exact .inl (Took.refl s)
  · split
    · rename_i hself
      -- the frame's own buffer: run it again from its first byte
      simp only [exec_setFrame]
      unfold Frame.rewind
      split
      · rename_i r hr
        exact .inr ⟨hself.symm, r, hr, rfl⟩
      · exact .inl (Took.zero_of_eq rfl rfl)
    · rw [exec_get_bind]
      split
      · exact .inl (Took.refl s)
      · dsimp only
        split
        · exact .inl (Took.refl s)
        · exact .inl (hrun _ _ _ _ s).took

theorem bufferWrite_follows {R : Session → Prop} (id : BufferId) :
    Follows (.take 2 fun len => .skip (Shape.number len) .done) R (bufferWrite id) := by
  unfold bufferWrite
  refine Follows.bind (readWord_yields.within _) (Moves.within _ readWord_evolves)
    (fun bs hbs => ?_) fun _ _ _ _ _ _ (h : False) => h.elim
  -- the length read is the number its two bytes spell
  have hlen : (UInt16.ofNat (Shape.number bs)).toNat = Shape.number bs := by
    match bs, hbs with
    | [lo, hi], _ => exact toNat_ofNat_number_pair lo hi
  dsimp only
  rw [hlen]
  -- a payload without room or without a block is read all the same, and dropped
  have refused : Follows (.skip (Shape.number bs) .done) (fun _ => False)
      (within .bufferWrite (discard (Shape.number bs)) >>= fun _ =>
        (fail ⟨.bufferWrite, .allocation (Shape.number bs)⟩ : Exec Unit)) :=
    Follows.bind_takes ((discard_takes _).within _) (Moves.within _ (discard_evolves _))
      (fun _ => Follows.of_fixed (Moves.of_fail _)) fun _ _ _ (h : False) => h.elim
  split
  · exact Follows.of_takes ((discard_takes _).within _) (Moves.within _ (discard_evolves _))
  · refine Follows.store_bind fun st => ?_
    split
    · refine Follows.allocator_bind fun a => ?_
      split
      · exact Follows.bind_takes ((readBytes_takes _).within _)
          (Moves.within _ (readBytes_evolves _))
          (fun _ => Follows.of_fixed (Moves.check_bind fun s _ _ => (modifyStore_fixed _) s))
          fun _ _ _ (h : False) => h.elim
      · exact refused
    · exact refused

theorem bufferCreate_follows {R : Session → Prop} (id : BufferId) :
    Follows (.skip 2 .done) R (bufferCreate id) := by
  unfold bufferCreate
  exact Follows.bind_takes (readWord_yields.within _).takes (Moves.within _ readWord_evolves)
    (fun _ => Follows.of_fixed (Moves.of_allocator.bind fun _ =>
      Moves.check_bind fun s _ _ => (modifyStore_fixed _) s))
    fun _ _ _ (h : False) => h.elim

theorem conditionCommand_fields (b : UInt8) :
    (if (ConditionCommand.ofByte b).wide then 3 else 2) = Grammar.width b ∧
    ((ConditionCommand.ofByte b).bufferOperand = true ↔ b &&& 0x20 ≠ 0) ∧
    ((ConditionCommand.ofByte b).hasImmediate = true ↔ ¬b &&& 0x20 ≠ 0 ∧ b &&& 0x0F > 1) := by
  simp [ConditionCommand.ofByte, ConditionCommand.hasImmediate, Grammar.width]

/-- A conditional call reads its operands in full before it tests anything, and restarts
the frame only through a call of the frame's own buffer. -/
theorem bufferConditional_follows {run : Frame → Exec Unit}
    (hrun : ∀ id r o d, Moves Fixed (run (Frame.nested id r o d))) (id : BufferId) :
    Follows (.byte Grammar.conditional) (fun s => s.frame.id = id) (bufferConditional run id) := by
  have hR : ∀ s s₁ : Session, s₁.frame.id = s.frame.id → s₁.frame.id = id → s.frame.id = id :=
    fun _ _ hid h => hid.symm.trans h
  unfold bufferConditional
  dsimp only
  refine Follows.bind (readByte_yields.within _) (Moves.within _ readByte_evolves)
    (fun bs _ => ?_) fun s s₁ _ _ _ hid h => hR s s₁ hid h
  generalize bs.headD 0 = b
  obtain ⟨hwidth, hbuf, himm⟩ := conditionCommand_fields b
  have hnumber : Yields (Grammar.width b) Shape.number
      (Exec.within .conditional (readOffset (ConditionCommand.ofByte b).wide)) :=
    hwidth ▸ (readOffset_yields _).within _
  rw [Grammar.conditional]
  -- the id and offset of the byte to test
  refine Follows.bind_takes (readWord_yields.within _).takes (Moves.within _ readWord_evolves)
    (fun _ => ?_) hR
  refine Follows.bind_takes hnumber.takes (Moves.within _ (readOffset_evolves _))
    (fun _ => ?_) hR
  by_cases hb : b &&& 0x20 ≠ 0
  case' pos =>
    -- an operand buffer's id and offset, and no immediate byte
    rw [if_pos hb, if_pos (hbuf.mpr hb)]
    simp only [pure_bind]
    refine Follows.congr ?_ fun bs => (size?_skip_skip 2 (Grammar.width b) .done bs).symm
    refine Follows.bind_takes (readWord_yields.within _).takes (Moves.within _ readWord_evolves)
      (fun _ => ?_) hR
    refine Follows.bind_takes hnumber.takes (Moves.within _ (readOffset_evolves _))
      (fun _ => ?_) hR
    rw [if_neg (fun h => (himm.mp h).1 hb)]
  case' neg =>
    rw [if_neg hb, if_neg (fun h => hb (hbuf.mp h)), pure_bind]
    by_cases hc : b &&& 0x0F > 1
    case' pos =>
      -- one immediate byte
      rw [if_pos hc, if_pos (himm.mpr ⟨hb, hc⟩)]
      refine Follows.bind_takes (readByte_yields.within _).takes
        (Moves.within _ readByte_evolves) (fun _ => ?_) hR
    case' neg =>
      rw [if_neg hc, if_neg (fun h => hc (himm.mp h).2), pure_bind]
  -- what is left reads nothing: the lookups and the test, then perhaps the call
  all_goals
    repeat' first
      | with_reducible exact bufferCall_follows hrun id
      | with_reducible exact Follows.of_fixed (Moves.of_pure _)
      | with_reducible refine Follows.store_bind fun _ => ?_
      | with_reducible
          refine Follows.done_bind (Moves.within _ (Moves.of_ofExcept _))
            (Moves.within _ (Moves.of_ofExcept _)) (fun _ => ?_) hR
      | with_reducible
          refine Follows.done_bind (Moves.of_pure _) (Moves.of_pure _) (fun _ => ?_) hR
      | split

/-! ## Commands -/

section Decode

variable {run : Frame → Exec Unit} (hrun : ∀ id r o d, Moves Fixed (run (Frame.nested id r o d)))
include hrun

/-- A buffered command restarts the frame only when its id bytes spell the frame's own id
and its sub-command is a call or a conditional call. -/
theorem buffered_follows :
    Follows (.skip 2 (.byte Grammar.buffered))
      (fun s => ∃ lo hi sub rest, s.pending = lo :: hi :: sub :: rest ∧
        s.frame.id.raw.toNat = Shape.number [lo, hi] ∧ (sub = 1 ∨ sub = 6))
      (buffered run) := by
  unfold buffered
  -- the id
  refine Follows.bind readWord_yields readWord_evolves (fun bs hbs => ?_)
    (Q := fun bs s₁ => ∃ sub rest, s₁.pending = sub :: rest ∧
      s₁.frame.id.raw.toNat = Shape.number bs ∧ (sub = 1 ∨ sub = 6)) ?_
  · obtain ⟨lo, hi, rfl⟩ : ∃ lo hi, bs = [lo, hi] := by
      match bs, hbs with
      | [lo, hi], _ => exact ⟨lo, hi, rfl⟩
    -- the sub-command
    refine Follows.bind readByte_yields readByte_evolves (fun cs _ => ?_)
      (Q := fun cs s₂ => s₂.frame.id = ⟨UInt16.ofNat (Shape.number [lo, hi])⟩ ∧
        (cs.headD 0 = 1 ∨ cs.headD 0 = 6)) ?_
    · generalize cs.headD 0 = sub
      unfold Grammar.buffered
      generalize hk : sub.toNat = k
      have hsub : ∀ {c : UInt8}, k = c.toNat → sub = c := fun h => UInt8.toNat_inj.mp (hk.trans h)
      rcases k with _ | _ | _ | _ | _ | _ | _ | k
      · exact bufferWrite_follows _
      · exact (bufferCall_follows hrun _).mono fun _ h => ⟨h, .inl (hsub rfl)⟩
      · exact Follows.of_fixed (bufferClear_fixed _)
      · exact bufferCreate_follows _
      · exact Follows.of_fixed (setOutput_fixed _)
      · exact bufferAdjust_follows _
      · exact (bufferConditional_follows hrun _).mono fun _ h => ⟨h, .inr (hsub rfl)⟩
      · exact Follows.of_fixed (Moves.of_pure _)
    · rintro s s₂ cs hcs hp hid ⟨hid₂, hsub⟩
      obtain ⟨c, rfl⟩ : ∃ c, cs = [c] := by
        match cs, hcs with
        | [c], _ => exact ⟨c, rfl⟩
      refine ⟨c, s₂.pending, hp, ?_, hsub⟩
      rw [← hid, hid₂]
      exact toNat_ofNat_number_pair lo hi
  · rintro s s₁ bs hbs hp hid ⟨sub, rest, hp₁, hid₁, hsub⟩
    obtain ⟨lo, hi, rfl⟩ : ∃ lo hi, bs = [lo, hi] := by
      match bs, hbs with
      | [lo, hi], _ => exact ⟨lo, hi, rfl⟩
    refine ⟨lo, hi, sub, rest, ?_, hid ▸ hid₁, hsub⟩
    rw [hp, hp₁]
    rfl

theorem video_follows :
    Follows (.byte Grammar.video)
      (fun s => ∃ lo hi sub rest, s.pending = 0xA0 :: lo :: hi :: sub :: rest ∧
        s.frame.id.raw.toNat = Shape.number [lo, hi] ∧ (sub = 1 ∨ sub = 6))
      (video run) := by
  unfold video
  refine Follows.bind readByte_yields readByte_evolves (fun cs _ => ?_)
    (Q := fun cs s₁ => cs.headD 0 = 0xA0 ∧ ∃ lo hi sub rest,
      s₁.pending = lo :: hi :: sub :: rest ∧
      s₁.frame.id.raw.toNat = Shape.number [lo, hi] ∧ (sub = 1 ∨ sub = 6)) ?_
  · generalize cs.headD 0 = c
    unfold Grammar.video Code.generalPoll Code.buffered
    by_cases hpoll : c = 0x80
    · -- the general poll takes its echo byte
      rw [if_pos hpoll, if_pos hpoll]
      unfold generalPoll
      exact Follows.bind_takes readByte_yields.takes readByte_evolves
        (fun _ => Follows.of_fixed ((sendPacket_fixed _ _).bind fun _ =>
          Moves.of_modify fun _ => ⟨rfl, rfl⟩))
        fun _ _ _ (h : False) => h.elim
    · rw [if_neg hpoll, if_neg hpoll]
      by_cases hbuf : c = 0xA0
      · rw [if_pos hbuf, if_pos hbuf]
        exact (buffered_follows hrun).mono fun _ h => ⟨hbuf, h⟩
      · rw [if_neg hbuf, if_neg hbuf]
        exact Follows.of_fixed (Moves.of_pure _)
  · rintro s s₁ cs hcs hp hid ⟨hc, lo, hi, sub, rest, hp₁, hid₁, hsub⟩
    obtain ⟨c, rfl⟩ : ∃ c, cs = [c] := by
      match cs, hcs with
      | [c], _ => exact ⟨c, rfl⟩
    refine ⟨lo, hi, sub, rest, ?_, hid ▸ hid₁, hsub⟩
    rw [hp, hp₁]
    exact congrArg (· :: _) hc

theorem system_follows :
    Follows (.byte Grammar.system)
      (fun s => ∃ lo hi sub rest, s.pending = 0x00 :: 0xA0 :: lo :: hi :: sub :: rest ∧
        s.frame.id.raw.toNat = Shape.number [lo, hi] ∧ (sub = 1 ∨ sub = 6))
      (system run) := by
  unfold system
  refine Follows.bind readByte_yields readByte_evolves (fun ms _ => ?_)
    (Q := fun ms s₁ => ms.headD 0 = 0x00 ∧ ∃ lo hi sub rest,
      s₁.pending = 0xA0 :: lo :: hi :: sub :: rest ∧
      s₁.frame.id.raw.toNat = Shape.number [lo, hi] ∧ (sub = 1 ∨ sub = 6)) ?_
  · generalize ms.headD 0 = m
    unfold Grammar.system Code.videoMode Code.cursorMode Code.firstGlyphMode
    -- the grammar asks for the cursor mode first, the decoder for the video mode
    by_cases hcursor : m = 0x01
    · have hvideo : ¬m = 0x00 := by
        rw [hcursor]
        decide
      rw [if_pos hcursor, if_neg hvideo, if_pos hcursor]
      exact Follows.bind_takes (readBytes_takes 1) (readBytes_evolves 1)
        (fun _ => Follows.of_fixed (present_fixed _)) fun _ _ _ (h : False) => h.elim
    · rw [if_neg hcursor, if_neg hcursor]
      by_cases hvideo : m = 0x00
      · rw [if_pos hvideo, if_pos hvideo]
        exact (video_follows hrun).mono fun _ h => ⟨hvideo, h⟩
      · rw [if_neg hvideo, if_neg hvideo]
        by_cases hglyph : m < 0x20
        · rw [if_pos hglyph, if_neg (UInt8.not_le.mpr hglyph)]
          exact Follows.of_fixed (present_fixed _)
        · rw [if_neg hglyph, if_pos (UInt8.not_lt.mp hglyph)]
          exact Follows.bind_takes (readBytes_takes Code.glyphLength)
            (readBytes_evolves _) (fun _ => Follows.of_fixed (present_fixed _))
            fun _ _ _ (h : False) => h.elim
  · rintro s s₁ ms hms hp hid ⟨hm, lo, hi, sub, rest, hp₁, hid₁, hsub⟩
    obtain ⟨m, rfl⟩ : ∃ m, ms = [m] := by
      match ms, hms with
      | [m], _ => exact ⟨m, rfl⟩
    refine ⟨lo, hi, sub, rest, ?_, hid ▸ hid₁, hsub⟩
    rw [hp, hp₁]
    exact congrArg (· :: _) hm

theorem command_follows (code : UInt8) :
    Follows (Grammar.command code) (fun s => Grammar.CallsOwn s.frame.id code s.pending)
      (command run code) := by
  unfold command Grammar.command Code.system
  by_cases hsys : code = 0x17
  · rw [if_pos hsys, if_pos hsys]
    exact (system_follows hrun).mono fun _ ⟨lo, hi, sub, rest, hp, hid, hsub⟩ =>
      ⟨hsys, lo, hi, sub, rest, hp, hid, hsub⟩
  · rw [if_neg hsys, if_neg hsys]
    exact Follows.bind_takes (readBytes_takes _) (readBytes_evolves _)
      (fun _ => Follows.of_fixed (present_fixed _)) fun _ _ _ (h : False) => h.elim

end Decode

/-- The framing of the decode loop: every command it runs, at any depth and with any fuel
left, takes from the stream waiting when it starts exactly the bytes its grammar gives it,
whatever the store, the options or how the command ends, and when the stream ends first it
takes the rest and stops. The only exception is a call of the frame's own buffer, which
starts the frame again from its first byte. -/
theorem command_framing (n : Nat) (code : UInt8) (s : Session) :
    (∀ k, (Grammar.command code).size? s.pending = some k →
      s.Took k ((command (fun nested => enter nested (runFrame n)) code).exec s).2 ∨
        (Grammar.CallsOwn s.frame.id code s.pending ∧
          s.Restarted ((command (fun nested => enter nested (runFrame n)) code).exec s).2)) ∧
    ((Grammar.command code).size? s.pending = none →
      s.Took s.left ((command (fun nested => enter nested (runFrame n)) code).exec s).2 ∧
        ∃ e, ((command (fun nested => enter nested (runFrame n)) code).exec s).1 = .error e) :=
  command_follows
    (fun _ _ _ _ => enter_fixed (Frame.isBuffer_nested _ _ _ _) (runFrame_evolves n)) code s

/-- A top-level command reads the transport, which no call restarts: it takes exactly the
bytes of its grammar. -/
theorem topCommand_took {s : Session} (hin : s.frame.input = .transport) {code : UInt8} {k : Nat}
    (hk : (Grammar.command code).size? s.pending = some k) :
    s.Took k ((topCommand code).exec s).2 := by
  have hrun : ∀ id r o d, Moves Fixed (enter (Frame.nested id r o d) (runFrame stepBudget)) :=
    fun _ _ _ _ => enter_fixed (Frame.isBuffer_nested _ _ _ _) (runFrame_evolves _)
  rcases (@command_follows (fun nested => enter nested (runFrame stepBudget)) hrun code s).1 k hk
    with ht | ⟨-, r, hr, -⟩
  · exact ht
  · rw [hin] at hr
    cases hr

end Exec

end Coprocessor
