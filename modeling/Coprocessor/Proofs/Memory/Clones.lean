import Mathlib
import Coprocessor.Memory.Pool
import Coprocessor.Proofs.Store.Steps

/-!
# Clones share bytes, not cursors

A pool holds segments in slots over one heap. A caller adds read-only or zeroed writable
segments, clones and drops them, and through any slot reads, sets, writes at the cursor,
rewinds the cursor or asks the length. `Pool.happen` is one such event, as the segment
operations do it, and `Pool.run` a sequence of them.

Clones are the slots whose segments name one heap cell. They show one memory: the same
bytes and the same length, since both are read from the cell. What separates them is the
cursor, which each slot carries in its own segment. Each event is first put in closed form
over the segment in the slot it names (`happen_set`, `happen_write`, ...). The facts below
then say what one event does to the slot it aims at and to every other slot
(`happen_target`, `get?_happen_of_target_ne`), and from them what every run does: no cell
ever changes length, a slot's segment changes only by an event aimed at that slot, a
read-only segment never gains a cursor, and every cursor stays within its segment
(`Pool.Inv`). The main theorem is `clones_share_bytes_not_cursors`.
-/

namespace Coprocessor

/-- One operation on the segments of a pool: adding a read-only segment or a zeroed writable
one, cloning or dropping the segment in a slot, and through a slot reading a byte, setting a
byte, writing at the cursor, rewinding the cursor or asking the length. -/
inductive SegmentEvent
  | readOnly (bytes : Array UInt8)
  | writable (len : Nat)
  | clone (slot : Nat)
  | drop (slot : Nat)
  | get (slot offset : Nat)
  | set (slot offset : Nat) (value : UInt8)
  | write (slot : Nat) (value : UInt8)
  | rewindWrite (slot : Nat)
  | len (slot : Nat)
  deriving DecidableEq, Repr

namespace SegmentEvent

/-- The slot whose segment the event replaces: a write or a rewind moves its cursor, and a
drop gives the segment up. -/
def target? : SegmentEvent → Option Nat
  | .write slot _ | .rewindWrite slot | .drop slot => some slot
  | _ => none

/-- The slot the event names, if any: every event but the two that add a new segment. -/
def slot? : SegmentEvent → Option Nat
  | .readOnly _ | .writable _ => none
  | .clone slot | .drop slot | .get slot _ | .set slot _ _ | .write slot _ | .rewindWrite slot
  | .len slot => some slot

theorem slot?_of_target? {e : SegmentEvent} {k : Nat} (ht : e.target? = some k) :
    e.slot? = some k := by
  cases e <;> simp_all [target?, slot?]

end SegmentEvent

namespace Segment

/-- A segment fits a heap when its cell was allocated there and its cursor, if any, lies
within its length. -/
def Fits (h : Heap) (s : Segment) : Prop :=
  s.cell < h.cells.size ∧ ∀ q, s.cursor = some q → q ≤ s.length h

/-- A segment that fits a heap fits every heap that keeps its cells at their lengths. -/
theorem Fits.extend {h h' : Heap} {s : Segment} (hs : s.Fits h) (hh : h.Extends h') :
    s.Fits h' := by
  obtain ⟨hcell, hcur⟩ := hs
  have hlen : s.length h' = s.length h := hh.2 s.cell hcell
  refine ⟨Nat.lt_of_lt_of_le hcell hh.1, fun q hq => ?_⟩
  rw [hlen]
  exact hcur q hq

/-- A segment over an allocated cell whose cursor, if any, is at the start fits. -/
theorem fits_of_start {h : Heap} {s : Segment} (hcell : s.cell < h.cells.size)
    (hcur : s.cursor = none ∨ s.cursor = some 0) : s.Fits h := by
  refine ⟨hcell, fun q hq => ?_⟩
  rcases hcur with hc | hc <;> rw [hc] at hq <;> cases hq
  exact Nat.zero_le _

theorem isSome_set?_iff {h : Heap} {s : Segment} {offset : Nat} {value : UInt8} :
    (s.set? h offset value).isSome ↔ offset < s.length h := by
  unfold set?
  split <;> simp [*]

theorem room_eq_some_iff {h : Heap} {s : Segment} {q : Nat} :
    s.room h = some q ↔ s.cursor = some q ∧ q < s.length h := by
  unfold room
  rcases s.cursor with _ | r
  · simp
  · by_cases hr : r < s.length h <;> simp [hr] <;> omega

/-- A write succeeds exactly on a writable segment with room at its cursor. -/
theorem isSome_write?_iff {h : Heap} {s : Segment} {value : UInt8} :
    (s.write? h value).isSome ↔ ∃ q, s.cursor = some q ∧ q < s.length h := by
  unfold write?
  rw [Option.isSome_map, Option.isSome_iff_exists]
  simp only [room_eq_some_iff]

theorem room_eq_none_of_write? {h : Heap} {s : Segment} {value : UInt8}
    (hw : s.write? h value = none) : s.room h = none :=
  Option.map_eq_none_iff.mp hw

/-- A byte stored through one segment is read back through every segment naming its cell. -/
theorem get?_set_of_cell_eq {h : Heap} {s t : Segment} {offset : Nat} {value : UInt8}
    (hcell : t.cell = s.cell) (hlt : offset < s.length h) :
    t.get? (h.set s.cell offset value) offset = some value := by
  unfold get?
  rw [hcell]
  exact Heap.get?_set_self h s.cell offset value hlt

theorem length_set_heap (h : Heap) (s : Segment) (cell offset : Nat) (value : UInt8) :
    s.length (h.set cell offset value) = s.length h :=
  Heap.size_set h cell offset value s.cell

@[simp] theorem cell_rewind (s : Segment) : s.rewind.cell = s.cell := by
  unfold rewind
  split <;> rfl

@[simp] theorem cursor_rewind (s : Segment) : s.rewind.cursor = s.cursor.map fun _ => 0 := by
  unfold rewind
  split <;> simp [*]

@[simp] theorem isWritable_rewind (s : Segment) : s.rewind.isWritable = s.isWritable := by
  cases hc : s.cursor <;> simp [isWritable, hc]

end Segment

namespace Pool

/-! ## Slots -/

variable {a : Allocator} {p p' : Pool} {k j : Nat} {s t : Segment}

theorem get?_put (p : Pool) (j : Nat) (s : Segment) (k : Nat) :
    (p.put j s).get? k = if j = k then (p.get? k).map fun _ => s else p.get? k := by
  unfold put get?
  rw [Array.set!, Array.getElem?_setIfInBounds]
  by_cases hjk : j = k
  · subst hjk
    by_cases hj : j < p.slots.size <;> simp [hj]
  · simp [hjk]

theorem get?_put_self (hj : p.get? j = some s) (t : Segment) : (p.put j t).get? j = some t := by
  simp [get?_put, hj]

theorem get?_put_of_ne (hjk : j ≠ k) (t : Segment) : (p.put j t).get? k = p.get? k := by
  simp [get?_put, hjk]

@[simp] theorem heap_put (p : Pool) (j : Nat) (s : Segment) : (p.put j s).heap = p.heap := rfl

theorem get?_add (p : Pool) (s : Segment) (k : Nat) :
    (p.add s).2.get? k = if k = p.slots.size then some s else p.get? k := by
  simp [add, get?, Array.getElem?_push]

@[simp] theorem heap_add (p : Pool) (s : Segment) : (p.add s).2.heap = p.heap := rfl

/-- An add keeps every slot but the next one, which was empty and now holds the segment. -/
theorem get?_add_cases (p : Pool) (s : Segment) (k : Nat) :
    (p.add s).2.get? k = p.get? k ∨ (p.get? k = none ∧ (p.add s).2.get? k = some s) := by
  rw [get?_add]
  split
  · rename_i hk
    subst hk
    exact .inr ⟨by simp [get?], rfl⟩
  · exact .inl rfl

/-! ## Events -/

/-- The pool after one event; `none` when the event names a slot that holds no segment. Reads
and length queries leave the pool as it is, and so does a set or a write that fails. -/
def happen (a : Allocator) (p : Pool) : SegmentEvent → Option Pool
  | .readOnly bytes => some (p.addReadOnly bytes).2
  | .writable len => some (p.addZeroed a len).2
  | .clone slot => (p.get? slot).map fun _ => (p.clone slot).2
  | .drop slot => (p.get? slot).map fun _ => p.release slot
  | .get slot _ => (p.get? slot).map fun _ => p
  | .set slot offset value => (p.get? slot).map fun s =>
      match s.set? p.heap offset value with
      | some heap => { p with heap }
      | none => p
  | .write slot value => (p.get? slot).map fun s =>
      match s.write? p.heap value with
      | some (heap, s') => { p with heap }.put slot s'
      | none => p
  | .rewindWrite slot => (p.get? slot).map fun s => p.put slot s.rewind
  | .len slot => (p.get? slot).map fun _ => p

/-- Events one after another, until one names an empty slot. -/
def run (a : Allocator) : Pool → List SegmentEvent → Option Pool
  | p, [] => some p
  | p, e :: es => (p.happen a e).bind (run a · es)

theorem run_cons (p : Pool) (e : SegmentEvent) (es : List SegmentEvent) :
    p.run a (e :: es) = (p.happen a e).bind (run a · es) := rfl

/-! Each event in closed form, over the segment in the slot it names. -/

theorem happen_readOnly (p : Pool) (bytes : Array UInt8) :
    p.happen a (.readOnly bytes) =
      some ({ p with heap := p.heap.push bytes }.add ⟨p.heap.cells.size, none⟩).2 := rfl

theorem happen_writable (p : Pool) (len : Nat) :
    p.happen a (.writable len) =
      some (if a.grants len then
        ({ p with heap := p.heap.push (Array.replicate len 0) }.add
          ⟨p.heap.cells.size, some 0⟩).2
        else p) := by
  by_cases hcan : a.grants len <;>
    simp [happen, addZeroed, Segment.zeroed?, hcan, Heap.alloc, Heap.push]

theorem happen_clone (hj : p.get? j = some s) : p.happen a (.clone j) = some (p.add s).2 := by
  simp [happen, clone, hj]

theorem happen_drop (hj : p.get? j = some s) :
    p.happen a (.drop j) =
      some ({ p with heap := p.heap.push #[] }.put j ⟨p.heap.cells.size, none⟩) := by
  simp [happen, release, Segment.readOnly, Heap.alloc, Heap.push, hj]

theorem happen_get (hj : p.get? j = some s) (offset : Nat) :
    p.happen a (.get j offset) = some p := by
  simp [happen, hj]

theorem happen_len (hj : p.get? j = some s) : p.happen a (.len j) = some p := by
  simp [happen, hj]

theorem happen_set (hj : p.get? j = some s) (offset : Nat) (value : UInt8) :
    p.happen a (.set j offset value) =
      some (if offset < s.length p.heap then { p with heap := p.heap.set s.cell offset value }
        else p) := by
  by_cases hlt : offset < s.length p.heap <;> simp [happen, hj, Segment.set?, hlt]

theorem happen_write (hj : p.get? j = some s) (value : UInt8) :
    p.happen a (.write j value) = some (match s.room p.heap with
      | some q =>
        { p with heap := p.heap.set s.cell q value }.put j { s with cursor := some (q + 1) }
      | none => p) := by
  cases hr : s.room p.heap <;> simp [happen, hj, Segment.write?, hr]

theorem happen_rewindWrite (hj : p.get? j = some s) :
    p.happen a (.rewindWrite j) = some (p.put j s.rewind) := by
  simp [happen, hj]

/-- An event that names a slot happens only when the slot holds a segment. -/
theorem get?_of_happen {e : SegmentEvent} (he : p.happen a e = some p') (hj : e.slot? = some j) :
    ∃ s, p.get? j = some s := by
  cases e <;> simp only [SegmentEvent.slot?, Option.some.injEq, reduceCtorEq] at hj <;>
    subst hj <;> unfold happen at he <;>
    exact (Option.map_eq_some_iff.mp he).imp fun s hs => hs.1

/-! ## What one event does -/

/-- No event shrinks the heap or changes the length of a cell. -/
theorem happen_extends {e : SegmentEvent} (he : p.happen a e = some p') :
    p.heap.Extends p'.heap := by
  cases e with
  | readOnly bytes =>
    rw [happen_readOnly, Option.some.injEq] at he
    subst he
    exact Heap.extends_push p.heap bytes
  | writable len =>
    rw [happen_writable, Option.some.injEq] at he
    subst he
    split
    · exact Heap.extends_push p.heap _
    · exact Heap.Extends.refl _
  | drop slot =>
    obtain ⟨s, hj⟩ := get?_of_happen he rfl
    rw [happen_drop hj, Option.some.injEq] at he
    subst he
    exact Heap.extends_push p.heap #[]
  | set slot offset value =>
    obtain ⟨s, hj⟩ := get?_of_happen he rfl
    rw [happen_set hj, Option.some.injEq] at he
    subst he
    split
    · exact Heap.extends_set p.heap _ _ _
    · exact Heap.Extends.refl _
  | write slot value =>
    obtain ⟨s, hj⟩ := get?_of_happen he rfl
    rw [happen_write hj, Option.some.injEq] at he
    subst he
    split
    · exact Heap.extends_set p.heap _ _ _
    · exact Heap.Extends.refl _
  | clone slot =>
    obtain ⟨s, hj⟩ := get?_of_happen he rfl
    rw [happen_clone hj, Option.some.injEq] at he
    subst he
    exact Heap.Extends.refl _
  | rewindWrite slot =>
    obtain ⟨s, hj⟩ := get?_of_happen he rfl
    rw [happen_rewindWrite hj, Option.some.injEq] at he
    subst he
    exact Heap.Extends.refl _
  | get slot offset =>
    obtain ⟨s, hj⟩ := get?_of_happen he rfl
    rw [happen_get hj, Option.some.injEq] at he
    subst he
    exact Heap.Extends.refl _
  | len slot =>
    obtain ⟨s, hj⟩ := get?_of_happen he rfl
    rw [happen_len hj, Option.some.injEq] at he
    subst he
    exact Heap.Extends.refl _

/-- What an event does to a slot it does not aim at: nothing, unless the slot was empty and
the event fills it, with a clone of a segment the pool holds or with a segment over a fresh
cell whose cursor, if any, is at the start. -/
theorem get?_happen_of_target_ne {e : SegmentEvent} (he : p.happen a e = some p')
    (ht : e.target? ≠ some k) :
    p'.get? k = p.get? k ∨
      (p.get? k = none ∧ ∃ t, p'.get? k = some t ∧
        ((∃ j, p.get? j = some t) ∨
          (t.cell = p.heap.cells.size ∧ p.heap.cells.size < p'.heap.cells.size ∧
            (t.cursor = none ∨ t.cursor = some 0)))) := by
  cases e with
  | readOnly bytes =>
    rw [happen_readOnly, Option.some.injEq] at he
    subst he
    rcases get?_add_cases { p with heap := p.heap.push bytes } ⟨p.heap.cells.size, none⟩ k
      with hsame | ⟨hnone, hnew⟩
    · exact .inl hsame
    · exact .inr ⟨hnone, _, hnew, .inr ⟨rfl, by simp, .inl rfl⟩⟩
  | writable len =>
    rw [happen_writable, Option.some.injEq] at he
    subst he
    split
    · rcases get?_add_cases { p with heap := p.heap.push (Array.replicate len 0) }
        ⟨p.heap.cells.size, some 0⟩ k with hsame | ⟨hnone, hnew⟩
      · exact .inl hsame
      · exact .inr ⟨hnone, _, hnew, .inr ⟨rfl, by simp, .inr rfl⟩⟩
    · exact .inl rfl
  | clone slot =>
    obtain ⟨s, hj⟩ := get?_of_happen he rfl
    rw [happen_clone hj, Option.some.injEq] at he
    subst he
    rcases get?_add_cases p s k with hsame | ⟨hnone, hnew⟩
    · exact .inl hsame
    · exact .inr ⟨hnone, s, hnew, .inl ⟨slot, hj⟩⟩
  | drop slot =>
    obtain ⟨s, hj⟩ := get?_of_happen he rfl
    rw [happen_drop hj, Option.some.injEq] at he
    subst he
    exact .inl (get?_put_of_ne (fun h => ht (congrArg some h)) _)
  | write slot value =>
    obtain ⟨s, hj⟩ := get?_of_happen he rfl
    rw [happen_write hj, Option.some.injEq] at he
    subst he
    split
    · exact .inl (get?_put_of_ne (fun h => ht (congrArg some h)) _)
    · exact .inl rfl
  | rewindWrite slot =>
    obtain ⟨s, hj⟩ := get?_of_happen he rfl
    rw [happen_rewindWrite hj, Option.some.injEq] at he
    subst he
    exact .inl (get?_put_of_ne (fun h => ht (congrArg some h)) _)
  | set slot offset value =>
    obtain ⟨s, hj⟩ := get?_of_happen he rfl
    rw [happen_set hj, Option.some.injEq] at he
    subst he
    split <;> exact .inl rfl
  | get slot offset =>
    obtain ⟨s, hj⟩ := get?_of_happen he rfl
    rw [happen_get hj, Option.some.injEq] at he
    subst he
    exact .inl rfl
  | len slot =>
    obtain ⟨s, hj⟩ := get?_of_happen he rfl
    rw [happen_len hj, Option.some.injEq] at he
    subst he
    exact .inl rfl

/-- What an event does to the slot it aims at: rewinds its segment, moves its cursor on by one
within its length, leaves it as it was when a write finds no room, or, for a drop, puts there
an empty read-only segment over a fresh cell. -/
theorem happen_target {e : SegmentEvent} (he : p.happen a e = some p') (hk : p.get? k = some s)
    (ht : e.target? = some k) :
    ∃ t, p'.get? k = some t ∧
      (t = s ∨ t = s.rewind ∨
        (∃ q, s.cursor = some q ∧ q < s.length p.heap ∧ t = { s with cursor := some (q + 1) }) ∨
        (e = .drop k ∧ t = ⟨p.heap.cells.size, none⟩ ∧ p'.heap = p.heap.push #[])) := by
  cases e with
  | drop slot =>
    simp only [SegmentEvent.target?, Option.some.injEq] at ht
    subst ht
    rw [happen_drop hk, Option.some.injEq] at he
    subst he
    exact ⟨_, get?_put_self hk _, .inr (.inr (.inr ⟨rfl, rfl, rfl⟩))⟩
  | write slot value =>
    simp only [SegmentEvent.target?, Option.some.injEq] at ht
    subst ht
    rw [happen_write hk, Option.some.injEq] at he
    subst he
    cases hr : s.room p.heap with
    | none => exact ⟨s, hk, .inl rfl⟩
    | some q =>
      obtain ⟨hq, hlt⟩ := Segment.room_eq_some_iff.mp hr
      exact ⟨_, get?_put_self hk _, .inr (.inr (.inl ⟨q, hq, hlt, rfl⟩))⟩
  | rewindWrite slot =>
    simp only [SegmentEvent.target?, Option.some.injEq] at ht
    subst ht
    rw [happen_rewindWrite hk, Option.some.injEq] at he
    subst he
    exact ⟨_, get?_put_self hk _, .inr (.inl rfl)⟩
  | readOnly _ | writable _ | clone _ | get _ _ | set _ _ _ | len _ =>
    simp [SegmentEvent.target?] at ht

/-- An event leaves a slot it does not aim at with the segment the slot held. -/
theorem get?_happen_of_get? {e : SegmentEvent} (he : p.happen a e = some p')
    (hk : p.get? k = some s) (ht : e.target? ≠ some k) : p'.get? k = some s := by
  rcases get?_happen_of_target_ne he ht with hsame | ⟨hnone, -⟩
  · rw [hsame, hk]
  · simp [hk] at hnone

/-- One event and a slot that holds a segment: the slot still holds one, the same unless the
event aims at the slot, with the same cell and kind unless the event drops it, and read-only
if it was. -/
theorem happen_slot {e : SegmentEvent} (he : p.happen a e = some p') (hk : p.get? k = some s) :
    ∃ t, p'.get? k = some t ∧ (e.target? ≠ some k → t = s) ∧
      (e ≠ .drop k → t.cell = s.cell ∧ t.isWritable = s.isWritable) ∧
      (s.cursor = none → t.cursor = none) := by
  by_cases ht : e.target? = some k
  · obtain ⟨t, hk', hform⟩ := happen_target he hk ht
    refine ⟨t, hk', fun hne => absurd ht hne, ?_⟩
    rcases hform with rfl | rfl | ⟨q, hq, -, rfl⟩ | ⟨rfl, rfl, -⟩
    · exact ⟨fun _ => ⟨rfl, rfl⟩, id⟩
    · exact ⟨fun _ => ⟨Segment.cell_rewind s, Segment.isWritable_rewind s⟩,
        fun hc => by simp [hc]⟩
    · -- a cursor that moves was there: the segment was writable, and stays so
      exact ⟨fun _ => ⟨rfl, by simp [Segment.isWritable, hq]⟩, fun hc => by simp [hc] at hq⟩
    · exact ⟨fun h => absurd rfl h, fun _ => rfl⟩
  · exact ⟨s, get?_happen_of_get? he hk ht, fun _ => rfl, fun _ => ⟨rfl, rfl⟩, id⟩

/-! ## The pool invariant -/

/-- What every pool made by segment operations keeps: each slot's segment fits the heap. -/
def Inv (p : Pool) : Prop := ∀ k s, p.get? k = some s → s.Fits p.heap

theorem inv_empty : ({} : Pool).Inv := by
  intro k s hk
  simp [get?] at hk

/-- Every event keeps the invariant. -/
theorem Inv.happen {e : SegmentEvent} (hi : p.Inv) (he : p.happen a e = some p') : p'.Inv := by
  have hh := happen_extends he
  intro k t hk'
  by_cases ht : e.target? = some k
  · -- the slot the event aims at held a segment, since the event happened
    obtain ⟨s, hk⟩ := get?_of_happen he (SegmentEvent.slot?_of_target? ht)
    obtain ⟨t', ht', hform⟩ := happen_target he hk ht
    rw [hk', Option.some.injEq] at ht'
    subst ht'
    have hs := hi k s hk
    rcases hform with rfl | rfl | ⟨q, hq, hlt, rfl⟩ | ⟨-, rfl, hheap⟩
    · exact hs.extend hh
    · -- a rewound cursor is at the start
      refine Segment.fits_of_start ?_ ?_
      · rw [Segment.cell_rewind]
        exact Nat.lt_of_lt_of_le hs.1 hh.1
      · cases hc : s.cursor <;> simp [hc]
    · -- a cursor moved on stays within the length, which the heap keeps
      have hlen : s.length p'.heap = s.length p.heap := hh.2 s.cell hs.1
      refine ⟨Nat.lt_of_lt_of_le hs.1 hh.1, fun r hr => ?_⟩
      cases hr
      change q + 1 ≤ s.length p'.heap
      omega
    · exact Segment.fits_of_start (by simp [hheap]) (.inl rfl)
  · rcases get?_happen_of_target_ne he ht with hsame | ⟨-, t', ht', hnew⟩
    · exact (hi k t (hsame.symm.trans hk')).extend hh
    · rw [hk', Option.some.injEq] at ht'
      subst ht'
      rcases hnew with ⟨j, hj⟩ | ⟨hcell, hsize, hcur⟩
      · exact (hi j t hj).extend hh
      · exact Segment.fits_of_start (hcell ▸ hsize) hcur

/-! ## Runs -/

/-- What each event carries from the pool before it to the pool after it, a run carries from
its start to its end. -/
theorem run_rel {R : Pool → Pool → Prop} (hrefl : ∀ p, R p p)
    (htrans : ∀ {p₁ p₂ p₃}, R p₁ p₂ → R p₂ p₃ → R p₁ p₃)
    (hstep : ∀ {p₁ p₂ e}, p₁.happen a e = some p₂ → R p₁ p₂) {es : List SegmentEvent}
    (hr : p.run a es = some p') : R p p' := by
  induction es generalizing p with
  | nil =>
    cases hr
    exact hrefl _
  | cons e es ih =>
    rw [run_cons, Option.bind_eq_some_iff] at hr
    obtain ⟨p₁, he, hrest⟩ := hr
    exact htrans (hstep he) (ih hrest)

theorem run_extends {es : List SegmentEvent} (hr : p.run a es = some p') :
    p.heap.Extends p'.heap :=
  run_rel (R := fun p₁ p₂ => p₁.heap.Extends p₂.heap) (fun p => Heap.Extends.refl p.heap)
    Heap.Extends.trans happen_extends hr

theorem Inv.run {es : List SegmentEvent} (hi : p.Inv) (hr : p.run a es = some p') : p'.Inv :=
  run_rel (R := fun p₁ p₂ => p₁.Inv → p₂.Inv) (fun _ => id) (fun h₁ h₂ hi => h₂ (h₁ hi))
    (fun he hi => hi.happen he) hr hi

/-- Along a run, a slot that holds a segment keeps holding one: the same while no event aims
at the slot, with the same cell and kind while none drops it, and read-only if it was. -/
theorem run_slot {es : List SegmentEvent} (hr : p.run a es = some p') (hk : p.get? k = some s) :
    ∃ t, p'.get? k = some t ∧ ((∀ e ∈ es, e.target? ≠ some k) → t = s) ∧
      (SegmentEvent.drop k ∉ es → t.cell = s.cell ∧ t.isWritable = s.isWritable) ∧
      (s.cursor = none → t.cursor = none) := by
  induction es generalizing p s with
  | nil =>
    cases hr
    exact ⟨s, hk, fun _ => rfl, fun _ => ⟨rfl, rfl⟩, id⟩
  | cons e es ih =>
    rw [run_cons, Option.bind_eq_some_iff] at hr
    obtain ⟨p₁, he, hrest⟩ := hr
    obtain ⟨t₁, hk₁, hsame₁, hkeep₁, hro₁⟩ := happen_slot he hk
    obtain ⟨t, hk', hsame, hkeep, hro⟩ := ih hrest hk₁
    refine ⟨t, hk', fun hall => ?_, fun hnd => ?_, fun hc => hro (hro₁ hc)⟩
    · rw [hsame fun e' he' => hall e' (List.mem_cons_of_mem e he'),
        hsame₁ (hall e List.mem_cons_self)]
    · have hne : e ≠ .drop k := fun h => hnd (h ▸ List.mem_cons_self)
      obtain ⟨hcell₁, hw₁⟩ := hkeep₁ hne
      obtain ⟨hcell, hw⟩ := hkeep fun h => hnd (List.mem_cons_of_mem e h)
      exact ⟨hcell.trans hcell₁, hw.trans hw₁⟩

/-! ## Sets and writes through a clone -/

/-- A set through a slot succeeds exactly below the segment's length; then every segment
naming the same cell reads the byte back, and otherwise the pool is as it was. -/
theorem set_seen_by_clones (hj : p.get? j = some s) (offset : Nat) (value : UInt8) :
    ∃ p', p.happen a (.set j offset value) = some p' ∧
      (offset < s.length p.heap →
        ∀ t : Segment, t.cell = s.cell → t.get? p'.heap offset = some value) ∧
      (s.length p.heap ≤ offset → p' = p) := by
  refine ⟨_, happen_set hj offset value, fun hlt t hcell => ?_, fun hge => ?_⟩
  · rw [if_pos hlt]
    exact Segment.get?_set_of_cell_eq hcell hlt
  · rw [if_neg (Nat.not_lt.mpr hge)]

/-- A write through a slot whose segment has room at its cursor stores the byte there for
every segment naming the same cell to read, and moves that slot's cursor on by one, within
the length. A write that fails leaves the pool as it was. -/
theorem write_seen_by_clones (hj : p.get? j = some s) (value : UInt8) :
    ∃ p', p.happen a (.write j value) = some p' ∧
      (∀ q, s.cursor = some q → q < s.length p.heap →
        p'.get? j = some { s with cursor := some (q + 1) } ∧ q + 1 ≤ s.length p'.heap ∧
        ∀ t : Segment, t.cell = s.cell → t.get? p'.heap q = some value) ∧
      (s.write? p.heap value = none → p' = p) := by
  refine ⟨_, happen_write hj value, fun q hq hlt => ?_, fun hw => ?_⟩
  · have hr : s.room p.heap = some q := Segment.room_eq_some_iff.mpr ⟨hq, hlt⟩
    simp only [hr]
    refine ⟨get?_put_self hj _, ?_, fun t hcell => Segment.get?_set_of_cell_eq hcell hlt⟩
    simp only [heap_put, Segment.length_set_heap]
    omega
  · simp only [Segment.room_eq_none_of_write? hw]

end Pool

/-- Clones of a segment share its bytes, not its cursor. Take any pool that a run of segment
operations makes from an empty one. Clones, the slots naming one cell, show the same bytes and
the same length. A set through a slot succeeds exactly below the length and every clone reads
the byte back; a failed set changes nothing. A write through a slot succeeds exactly when its
segment is writable with room at the cursor; it stores the byte at the cursor for every clone
to read and moves that slot's cursor on by one, within the length, and a failed write, as on a
read-only segment, changes nothing. Along every further run, no segment's length changes; a
slot keeps its cell and kind until it is dropped, and its segment, cursor included, changes
only by a write, rewind or drop through that slot; a read-only segment never gains a cursor;
and every cursor lies within its segment. -/
theorem clones_share_bytes_not_cursors {a : Allocator} {es₀ : List SegmentEvent} {p : Pool}
    (hp : ({} : Pool).run a es₀ = some p) :
    (∀ j k s t, p.get? j = some s → p.get? k = some t → t.cell = s.cell →
      t.data p.heap = s.data p.heap ∧ t.length p.heap = s.length p.heap) ∧
    (∀ j s offset value, p.get? j = some s →
      ((s.set? p.heap offset value).isSome ↔ offset < s.length p.heap) ∧
      ∃ p', p.happen a (.set j offset value) = some p' ∧
        (offset < s.length p.heap → ∀ k t, p'.get? k = some t → t.cell = s.cell →
          t.get? p'.heap offset = some value) ∧
        (s.length p.heap ≤ offset → p' = p)) ∧
    (∀ j s value, p.get? j = some s →
      ((s.write? p.heap value).isSome ↔ ∃ q, s.cursor = some q ∧ q < s.length p.heap) ∧
      ∃ p', p.happen a (.write j value) = some p' ∧
        (∀ q, s.cursor = some q → q < s.length p.heap →
          p'.get? j = some { s with cursor := some (q + 1) } ∧ q + 1 ≤ s.length p'.heap ∧
          ∀ k t, p'.get? k = some t → t.cell = s.cell → t.get? p'.heap q = some value) ∧
        (s.write? p.heap value = none → p' = p)) ∧
    (∀ es p', p.run a es = some p' → ∀ j s, p.get? j = some s →
      s.length p'.heap = s.length p.heap ∧
      ∃ t, p'.get? j = some t ∧
        ((∀ e ∈ es, e.target? ≠ some j) → t = s) ∧
        (SegmentEvent.drop j ∉ es → t.cell = s.cell ∧ t.isWritable = s.isWritable) ∧
        (s.cursor = none → t.cursor = none)) ∧
    (∀ j s q, p.get? j = some s → s.cursor = some q → q ≤ s.length p.heap) := by
  have hi : p.Inv := Pool.inv_empty.run hp
  refine ⟨fun j k s t _ _ hcell => ?_, fun j s offset value hj => ?_,
    fun j s value hj => ?_, fun es p' hr j s hj => ?_, fun j s q hj hq => (hi j s hj).2 q hq⟩
  · -- both read the one cell
    simp [Segment.data, Segment.length, Heap.size, hcell]
  · obtain ⟨p', he, hseen, hfail⟩ := Pool.set_seen_by_clones hj offset value
    exact ⟨Segment.isSome_set?_iff, p', he, fun hlt k t _ hcell => hseen hlt t hcell, hfail⟩
  · obtain ⟨p', he, hseen, hfail⟩ := Pool.write_seen_by_clones hj value
    refine ⟨Segment.isSome_write?_iff, p', he, fun q hq hlt => ?_, hfail⟩
    obtain ⟨hslot, hle, hread⟩ := hseen q hq hlt
    exact ⟨hslot, hle, fun k t _ hcell => hread t hcell⟩
  · -- the heap keeps the length of every allocated cell, and the slot's cell is allocated
    have hlen : s.length p'.heap = s.length p.heap := (Pool.run_extends hr).2 s.cell (hi j s hj).1
    exact ⟨hlen, Pool.run_slot hr hj⟩

/-- Two clones of a two-byte writable segment, after a write through the first: they share
the written byte but not the cursor. -/
theorem clones_share_bytes_not_cursors_pair :
    let a := Allocator.upTo 2 (by decide)
    let p : Pool := ⟨⟨#[#[9, 0]]⟩, #[⟨0, some 1⟩, ⟨0, some 0⟩]⟩
    ({} : Pool).run a [.writable 2, .clone 0, .write 0 9] = some p ∧
    (∀ j k s t, p.get? j = some s → p.get? k = some t → t.cell = s.cell →
      t.data p.heap = s.data p.heap ∧ t.length p.heap = s.length p.heap) ∧
    (∀ j s offset value, p.get? j = some s →
      ((s.set? p.heap offset value).isSome ↔ offset < s.length p.heap) ∧
      ∃ p', p.happen a (.set j offset value) = some p' ∧
        (offset < s.length p.heap → ∀ k t, p'.get? k = some t → t.cell = s.cell →
          t.get? p'.heap offset = some value) ∧
        (s.length p.heap ≤ offset → p' = p)) ∧
    (∀ j s value, p.get? j = some s →
      ((s.write? p.heap value).isSome ↔ ∃ q, s.cursor = some q ∧ q < s.length p.heap) ∧
      ∃ p', p.happen a (.write j value) = some p' ∧
        (∀ q, s.cursor = some q → q < s.length p.heap →
          p'.get? j = some { s with cursor := some (q + 1) } ∧ q + 1 ≤ s.length p'.heap ∧
          ∀ k t, p'.get? k = some t → t.cell = s.cell → t.get? p'.heap q = some value) ∧
        (s.write? p.heap value = none → p' = p)) ∧
    (∀ es p', p.run a es = some p' → ∀ j s, p.get? j = some s →
      s.length p'.heap = s.length p.heap ∧
      ∃ t, p'.get? j = some t ∧
        ((∀ e ∈ es, e.target? ≠ some j) → t = s) ∧
        (SegmentEvent.drop j ∉ es → t.cell = s.cell ∧ t.isWritable = s.isWritable) ∧
        (s.cursor = none → t.cursor = none)) ∧
    (∀ j s q, p.get? j = some s → s.cursor = some q → q ≤ s.length p.heap) :=
  ⟨rfl, @clones_share_bytes_not_cursors _ [.writable 2, .clone 0, .write 0 9] _ rfl⟩

end Coprocessor
