import Mathlib
import Coprocessor.Proofs.Store.Addressing
import Coprocessor.Proofs.Store.Capacity
import Coprocessor.Proofs.Session.Host

/-!
# Operations on different buffers commute

What a store shows of a buffer is its segments in order, each as its bytes and its cursor:
the heap cells behind them are names only, and two orders of the same operations hand out
different names. `Store.view` maps every id to that list, or to nothing.

Each store operation is a function of the view of the one id it names: `Op.effect` gives its
answer, the id's new view and the bytes it adds to and takes from the count, from the view of
that id alone (`apply_realizes`). The only thing the effect does not see is the limit: an
append or a create also asks whether the count has room, and the count is shared by all
buffers. So whenever the limit lets every such check through, as it always does when there
is no limit, two operations on different ids give the same answers and leave the same view
and the same count in either order (`ops_on_distinct_ids_commute`). Under a limit the order
can decide whether an append fits (`admission_depends_on_order`).

All of this asks that the store keep its invariant: no cell is held by two segments, so
writing through one buffer never shows in another.
-/

namespace Coprocessor

/-- What a segment shows: its bytes and, if writable, its cursor. -/
structure SegmentView where
  bytes : Array UInt8
  cursor : Option Nat
  deriving DecidableEq, Repr

namespace SegmentView

/-- The bytes of a run of segments, one after another. -/
def flat (segs : List SegmentView) : List UInt8 := segs.flatMap fun s => s.bytes.toList

/-- The number of bytes a run of segments holds. -/
def total (segs : List SegmentView) : Nat := (segs.map fun s => s.bytes.size).sum

/-- Sets the byte at an offset running across a run of segments; `none` past its end. -/
def setAt : List SegmentView → Nat → UInt8 → Option (List SegmentView)
  | [], _, _ => none
  | s :: rest, offset, value =>
    if offset < s.bytes.size then some (⟨s.bytes.set! offset value, s.cursor⟩ :: rest)
    else (setAt rest (offset - s.bytes.size) value).map (s :: ·)

end SegmentView

/-- What a segment shows over a heap. -/
def Segment.shown (h : Heap) (s : Segment) : SegmentView := ⟨h.bytes s.cell, s.cursor⟩

/-- What a buffer shows over a heap: its segments, oldest first. -/
def Buffer.shown (h : Heap) (b : Buffer) : List SegmentView := b.segments.map (Segment.shown h)

namespace Heap

@[simp] theorem bytes_push_self (h : Heap) (data : Array UInt8) :
    (h.push data).bytes h.cells.size = data := by
  simp [push, bytes]

end Heap

namespace Buffer

/-- A buffer shows the same over two heaps that agree on its cells. -/
theorem shown_congr {h h' : Heap} {segs : List Segment}
    (hb : ∀ c ∈ segs.map (·.cell), h'.bytes c = h.bytes c) :
    segs.map (Segment.shown h') = segs.map (Segment.shown h) := by
  refine List.map_congr_left fun s hs => ?_
  simp only [Segment.shown, hb s.cell (List.mem_map_of_mem hs)]

theorem flat_shown (h : Heap) (b : Buffer) : SegmentView.flat (b.shown h) = h.flat b.cells := by
  simp [SegmentView.flat, shown, Segment.shown, Heap.flat, cells, List.flatMap_map]

/-- Writing a cell that no segment of a run holds leaves what the run shows. -/
theorem shown_set_of_not_mem {h : Heap} {segs : List Segment} {c : Nat} (o : Nat) (v : UInt8)
    (hc : c ∉ segs.map (·.cell)) :
    segs.map (Segment.shown (h.set c o v)) = segs.map (Segment.shown h) :=
  shown_congr fun _ hc' => Heap.bytes_set_ne h o v fun e => hc (e ▸ hc')

@[simp] theorem shown_push (h : Heap) (b : Buffer) (s : Segment) :
    (b.push s).shown h = b.shown h ++ [s.shown h] := by
  simp [shown, push]

theorem total_shown (h : Heap) (b : Buffer) : SegmentView.total (b.shown h) = b.length h := by
  simp [SegmentView.total, shown, Segment.shown, length, Heap.totalSize_eq_sum, cells,
    Heap.size, Function.comp_def]

/-- Setting a byte through a heap location, in a run of segments over distinct cells, is
setting it in what the run shows. -/
theorem setAt_shown_of_locate {h : Heap} {segs : List Segment} {offset c o : Nat}
    (value : UInt8) (hnd : (segs.map (·.cell)).Nodup)
    (hl : h.locate (segs.map (·.cell)) offset = some (c, o)) :
    SegmentView.setAt (segs.map (Segment.shown h)) offset value =
      some (segs.map (Segment.shown (h.set c o value))) := by
  induction segs generalizing offset with
  | nil => simp [Heap.locate] at hl
  | cons s rest ih =>
    rw [List.map_cons] at hnd hl
    obtain ⟨hs, hrest⟩ := List.nodup_cons.mp hnd
    have hsize : (Segment.shown h s).bytes.size = h.size s.cell := rfl
    by_cases hlt : offset < h.size s.cell
    · -- the offset falls in the first segment, whose cell no later segment holds
      simp only [Heap.locate, hlt, if_true, Option.some.injEq, Prod.mk.injEq] at hl
      obtain ⟨rfl, rfl⟩ := hl
      rw [List.map_cons, List.map_cons, SegmentView.setAt, hsize, if_pos hlt,
        shown_set_of_not_mem offset value hs]
      simp [Segment.shown, Heap.bytes_set_self]
    · simp only [Heap.locate, hlt, if_false] at hl
      have hne : c ≠ s.cell := fun e => hs (e ▸ (Heap.locate_mem hl).1)
      rw [List.map_cons, List.map_cons, SegmentView.setAt, hsize, if_neg hlt, ih hrest hl]
      simp [Segment.shown, Heap.bytes_set_ne h o value hne]

/-- An offset past the end of the cells is past the end of what they show. -/
theorem setAt_shown_of_locate_none {h : Heap} {segs : List Segment} {offset : Nat}
    (value : UInt8) (hl : h.locate (segs.map (·.cell)) offset = none) :
    SegmentView.setAt (segs.map (Segment.shown h)) offset value = none := by
  induction segs generalizing offset with
  | nil => rfl
  | cons s rest ih =>
    rw [List.map_cons] at hl
    have hsize : (Segment.shown h s).bytes.size = h.size s.cell := rfl
    by_cases hlt : offset < h.size s.cell
    · simp [Heap.locate, hlt] at hl
    · simp only [Heap.locate, hlt, if_false] at hl
      rw [List.map_cons, SegmentView.setAt, hsize, if_neg hlt, ih hl]
      rfl

end Buffer

namespace Store

/-- What the store shows under every id: the buffer's segments, or nothing. -/
def view (st : Store) (id : BufferId) : Option (List SegmentView) :=
  (st.find? id).map (Buffer.shown st.heap)

variable {st : Store} {id : BufferId}

/-- A new cell shows as a new last segment of its buffer, and every other buffer shows as
it did. -/
theorem view_addCell (hi : st.Inv) (id : BufferId) (data : Array UInt8) (cursor : Option Nat) :
    (st.addCell id data cursor).view =
      Function.update st.view id (some ((st.view id).getD [] ++ [⟨data, cursor⟩])) := by
  funext k
  -- the stored cells are below the new one, so the new heap shows them alike
  have hold : ∀ b, st.find? k = some b →
      b.shown (st.heap.push data) = b.shown st.heap := fun b hf =>
    Buffer.shown_congr fun c hc => Heap.bytes_push_of_lt _ _ (hi.allocated c (mem_cells hf hc))
  unfold view
  rw [find?_addCell, heap_addCell]
  by_cases hk : k = id
  · subst hk
    rw [if_pos rfl, Function.update_self]
    cases hf : st.find? k with
    | none => simp [Buffer.shown, Buffer.push, Segment.shown]
    | some b => simp [hold b hf, Segment.shown]
  · rw [if_neg hk, Function.update_of_ne hk]
    cases hf : st.find? k with
    | none => rfl
    | some b => simp [hold b hf]

/-- Setting a byte through the cell an offset of a buffer falls on sets it in that buffer's
view, and in no other. -/
theorem view_poke (hi : st.Inv) {b : Buffer} {offset c o : Nat} (hf : st.find? id = some b)
    (hl : st.heap.locate b.cells offset = some (c, o)) (v : UInt8) :
    (st.poke (c, o) v).view =
      Function.update st.view id (SegmentView.setAt (b.shown st.heap) offset v) := by
  funext k
  unfold view
  show ((st.find? k).map (Buffer.shown (st.heap.set c o v))) = _
  by_cases hk : k = id
  · subst hk
    rw [Function.update_self, hf, Option.map_some, Buffer.shown, Buffer.shown,
      Buffer.setAt_shown_of_locate v (hi.cells_nodup hf) hl]
  · rw [Function.update_of_ne hk]
    cases hfk : st.find? k with
    | none => rfl
    | some b' =>
      -- the cell written is one of the buffer set, so no other buffer holds it
      have hc := not_mem_cells_of_ne hi.nodup hf hfk hk (Heap.locate_mem hl).1
      simp only [Option.map_some, Buffer.shown, Buffer.shown_set_of_not_mem o v hc]

/-- Output at a cursor of a buffer's first segment sets the byte there and moves the cursor
on, in that buffer's view only. -/
theorem view_putOutput (hi : st.Inv) {first : Segment} {rest : List Segment}
    (hf : st.find? id = some ⟨first :: rest⟩) (p : Nat) (v : UInt8) :
    (st.putOutput id p v).view = Function.update st.view id
      (some (⟨(st.heap.bytes first.cell).set! p v, some (p + 1)⟩ ::
        rest.map (Segment.shown st.heap))) := by
  have hnd : (first.cell :: rest.map (·.cell)).Nodup := hi.cells_nodup hf
  funext k
  unfold putOutput view
  rw [hf]
  show ((st.buffers.insert id _).find? k).map (Buffer.shown (st.heap.set first.cell p v)) = _
  rw [Table.find?_insert]
  by_cases hk : k = id
  · subst hk
    rw [if_pos rfl, Function.update_self]
    -- the later segments hold other cells than the first
    have hrest := Buffer.shown_set_of_not_mem (h := st.heap) p v (List.nodup_cons.mp hnd).1
    simp [Buffer.shown, hrest, Segment.shown, Heap.bytes_set_self]
  · rw [if_neg hk, Function.update_of_ne hk]
    show (st.find? k).map _ = (st.find? k).map _
    cases hfk : st.find? k with
    | none => rfl
    | some b' =>
      have hfirst : first.cell ∈ (⟨first :: rest⟩ : Buffer).cells := List.mem_cons_self
      have hc := not_mem_cells_of_ne hi.nodup hf hfk hk hfirst
      simp only [Option.map_some, Buffer.shown, Buffer.shown_set_of_not_mem p v hc]

/-- Clearing a stored buffer removes its view and no other. -/
theorem view_clear {b : Buffer} (hf : st.find? id = some b) :
    (st.clear id).2.view = Function.update st.view id none := by
  funext k
  unfold clear view
  rw [hf]
  show ((st.buffers.erase id).find? k).map (Buffer.shown st.heap) = _
  rw [Table.find?_erase]
  by_cases hk : k = id
  · rw [if_pos hk, hk, Function.update_self]
    rfl
  · rw [if_neg hk, Function.update_of_ne hk]
    rfl

@[simp] theorem used_putOutput (st : Store) (id : BufferId) (p : Nat) (v : UInt8) :
    (st.putOutput id p v).used = st.used := by
  unfold putOutput
  split <;> rfl

@[simp] theorem limit_putOutput (st : Store) (id : BufferId) (p : Nat) (v : UInt8) :
    (st.putOutput id p v).limit = st.limit := by
  unfold putOutput
  split <;> rfl

theorem view_of_find? {b : Buffer} (hf : st.find? id = some b) :
    st.view id = some (b.shown st.heap) := by
  simp [view, hf]

theorem view_of_find?_none (hf : st.find? id = none) : st.view id = none := by
  simp [view, hf]

/-! ## Operations as changes of one view -/

/-- An operation of the store on one buffer, with its arguments but not the id. An
allocating operation carries the allocator that answers its request. -/
inductive Op
  | append (a : Allocator) (n : NewSegment)
  | create (a : Allocator) (len : Nat)
  | setByte (offset : Nat) (value : UInt8)
  | writeOutput (value : UInt8)
  | clear
  | getByte (offset : Nat)

/-- What an operation answers when it does not fail. -/
inductive Reply
  | done
  | flag (b : Bool)
  | byte (value : UInt8)
  deriving DecidableEq, Repr

/-- The answer of an operation that may fail, and the store it leaves: the one it made, or
the one it was given when it failed. -/
def settle (st : Store) : Except Fault (Reply × Store) → Except Fault Reply × Store
  | .ok (r, st') => (.ok r, st')
  | .error f => (.error f, st)

/-- Runs an operation on buffer `id`. -/
def Op.apply (id : BufferId) (st : Store) : Op → Except Fault Reply × Store
  | .append a n => st.settle ((st.append a id n).map (.done, ·))
  | .create a len => st.settle ((st.createWritable a id len).map (.done, ·))
  | .setByte offset value => st.settle ((st.setByte id offset value).map (.done, ·))
  | .writeOutput value => st.settle ((st.writeOutput id value).map fun r => (.flag r.1, r.2))
  | .clear => (.ok (.flag (st.clear id).1), (st.clear id).2)
  | .getByte offset => ((st.getByte id offset).map .byte, st)

/-- What an operation does to the one buffer it names: its answer, the buffer's new view,
and the bytes it adds to the count and takes from it. -/
structure Effect where
  reply : Except Fault Reply
  view : Option (List SegmentView)
  added : Nat
  removed : Nat

/-- An answer that leaves the view as it was. -/
def Effect.keep (v : Option (List SegmentView)) (reply : Except Fault Reply) : Effect :=
  ⟨reply, v, 0, 0⟩

/-- What an operation does to buffer `id`, from the view `v` of that buffer alone, when the
limit lets its capacity check through. The faults are those of the store, in the order it
checks them. -/
def Op.effect (id : BufferId) (v : Option (List SegmentView)) : Op → Effect
  | .append a n =>
    if id.isReserved then .keep v (.error ⟨.bufferWrite, .reserved id⟩)
    else
      match n with
      | .readOnly bytes => ⟨.ok .done, some (v.getD [] ++ [⟨bytes, none⟩]), bytes.size, 0⟩
      | .zeroed len =>
        if a.grants len then
          ⟨.ok .done, some (v.getD [] ++ [⟨.replicate len 0, some 0⟩]), len, 0⟩
        else .keep v (.error ⟨.bufferWrite, .allocation len⟩)
  | .create a len =>
    if id.isReserved then .keep v (.error ⟨.create, .reserved id⟩)
    else if v.isSome then .keep v (.error ⟨.create, .alreadyExists id⟩)
    else if a.grants len then ⟨.ok .done, some [⟨.replicate len 0, some 0⟩], len, 0⟩
    else .keep v (.error ⟨.create, .allocation len⟩)
  | .setByte offset value =>
    match v with
    | none => .keep v (.error ⟨.lookup, .notFound id⟩)
    | some segs =>
      match SegmentView.setAt segs offset value with
      | some segs' => ⟨.ok .done, some segs', 0, 0⟩
      | none => .keep v (.error ⟨.lookup, .outOfRange id offset⟩)
  | .writeOutput value =>
    match v with
    | some (s :: rest) =>
      match s.cursor with
      | some p =>
        if p < s.bytes.size then
          ⟨.ok (.flag true), some (⟨s.bytes.set! p value, some (p + 1)⟩ :: rest), 0, 0⟩
        else .keep v (.ok (.flag false))
      | none => .keep v (.error ⟨.write, .readOnly id⟩)
    | _ => .keep v (.error ⟨.write, .notFound id⟩)
  | .clear =>
    match v with
    | some segs => ⟨.ok (.flag true), none, 0, SegmentView.total segs⟩
    | none => .keep v (.ok (.flag false))
  | .getByte offset =>
    match v with
    | some segs =>
      match (SegmentView.flat segs)[offset]? with
      | some b => .keep v (.ok (.byte b))
      | none => .keep v (.error ⟨.lookup, .outOfRange id offset⟩)
    | none => .keep v (.error ⟨.lookup, .notFound id⟩)

/-- The capacity check an operation on buffer `id` makes passes: an append makes one when
the id is not reserved, a create when the id is also free, and no other operation makes
one. -/
def Op.Admits (id : BufferId) (st : Store) : Op → Prop
  | .append _ n => id.isReserved = false → st.checkCapacity n.length = .ok ()
  | .create _ len => id.isReserved = false → st.find? id = none → st.checkCapacity len = .ok ()
  | _ => True

theorem Op.admits_of_unlimited (hL : st.limit = none) (o : Op) (id : BufferId) :
    o.Admits id st := by
  cases o with
  | append _ n => exact fun _ => checkCapacity_of_unlimited hL _
  | create _ len => exact fun _ _ => checkCapacity_of_unlimited hL _
  | setByte | writeOutput | clear | getByte => trivial

/-- A run `r` of an operation on buffer `id` from `st` has the effect `e`: it answers as `e`
says, changes the view of `id` to that of `e` and no other view, moves the count by what `e`
adds and takes, and keeps the limit and the invariant. -/
structure Realizes (st : Store) (id : BufferId) (r : Except Fault Reply × Store) (e : Effect) :
    Prop where
  reply : r.1 = e.reply
  view : r.2.view = Function.update st.view id e.view
  used : r.2.used + e.removed = st.used + e.added
  limit : r.2.limit = st.limit
  inv : r.2.Inv

/-- An answer that leaves the store as it was leaves every view. -/
theorem Realizes.keep (hi : st.Inv) {v : Option (List SegmentView)} (hv : st.view id = v)
    (reply : Except Fault Reply) : Realizes st id (reply, st) (.keep v reply) := by
  subst hv
  exact ⟨rfl, (Function.update_eq_self id st.view).symm, rfl, rfl, hi⟩

theorem Realizes.view_of_ne {r : Except Fault Reply × Store} {e : Effect}
    (h : Realizes st id r e) {k : BufferId} (hk : k ≠ id) : r.2.view k = st.view k := by
  rw [h.view, Function.update_of_ne hk]

/-- Appending and creating both add a cell at the end of the buffer. -/
theorem realizes_addCell (hi : st.Inv) {data : Array UInt8} {cursor : Option Nat}
    (hres : id.isReserved = false) (hcap : st.checkCapacity data.size = .ok ())
    (hcur : cursor = none ∨ cursor = some 0) :
    Realizes st id (.ok .done, st.addCell id data cursor)
      ⟨.ok .done, some ((st.view id).getD [] ++ [⟨data, cursor⟩]), data.size, 0⟩ :=
  ⟨rfl, view_addCell hi id data cursor, rfl, rfl, hi.addCell hres (checkCapacity_ok hcap) hcur⟩

/-- A zeroed writable segment is a cell of zeros with its cursor at the start. -/
theorem realizes_addZeroed (hi : st.Inv) {len : Nat} (hres : id.isReserved = false)
    (hcap : st.checkCapacity len = .ok ()) :
    Realizes st id (.ok .done, st.addCell id (.replicate len 0) (some 0))
      ⟨.ok .done, some ((st.view id).getD [] ++ [⟨.replicate len 0, some 0⟩]), len, 0⟩ := by
  have hcap' : st.checkCapacity (Array.replicate len (0 : UInt8)).size = .ok () := by
    rw [Array.size_replicate]
    exact hcap
  have h := realizes_addCell hi hres hcap' (.inr rfl)
  rw [Array.size_replicate] at h
  exact h

theorem realizes_append (hi : st.Inv) (a : Allocator) (n : NewSegment)
    (hadm : (Op.append a n).Admits id st) :
    Realizes st id ((Op.append a n).apply id st) ((Op.append a n).effect id (st.view id)) := by
  cases hres : id.isReserved
  case true =>
    have happ : st.append a id n = .error ⟨.bufferWrite, .reserved id⟩ := by
      unfold append checkAppend checkId
      rw [if_pos hres]
      rfl
    simp only [Op.apply, Op.effect, happ, hres, if_true]
    exact Realizes.keep hi rfl _
  case false =>
    have hcap : st.checkCapacity n.length = .ok () := hadm hres
    have hcheck : st.checkAppend .bufferWrite id n.length = .ok () := by
      rw [checkAppend_of_not_reserved hres, hcap]
      rfl
    cases n with
    | readOnly bytes =>
      have happ : st.append a id (.readOnly bytes) = .ok (st.addCell id bytes none) := by
        unfold append
        rw [hcheck]
        rfl
      simp only [Op.apply, Op.effect, happ, hres, Bool.false_eq_true, if_false]
      exact realizes_addCell hi hres hcap (.inl rfl)
    | zeroed len =>
      -- past the checks, a zeroed segment is refused only by the allocator
      cases hcan : a.grants len
      case false =>
        have happ : st.append a id (.zeroed len) = .error ⟨.bufferWrite, .allocation len⟩ := by
          unfold append
          rw [hcheck]
          simp [Segment.zeroed?, hcan]
          rfl
        simp only [Op.apply, Op.effect, happ, hres, hcan, Bool.false_eq_true, if_false]
        exact Realizes.keep hi rfl _
      case true =>
        have happ : st.append a id (.zeroed len) =
            .ok (st.addCell id (.replicate len 0) (some 0)) := by
          unfold append
          rw [hcheck]
          simp [Segment.zeroed?, hcan, addCell, attach, Heap.alloc, Heap.push, find?]
        simp only [Op.apply, Op.effect, happ, hres, hcan, Bool.false_eq_true, if_false, if_true]
        exact realizes_addZeroed hi hres hcap

theorem realizes_create (hi : st.Inv) (a : Allocator) (len : Nat)
    (hadm : (Op.create a len).Admits id st) :
    Realizes st id ((Op.create a len).apply id st) ((Op.create a len).effect id (st.view id)) := by
  cases hres : id.isReserved
  case true =>
    have hcr : st.createWritable a id len = .error ⟨.create, .reserved id⟩ := by
      unfold createWritable checkCreate checkId
      rw [if_pos hres]
      rfl
    simp only [Op.apply, Op.effect, hcr, hres, if_true]
    exact Realizes.keep hi rfl _
  case false =>
    cases hf : st.find? id with
    | some b =>
      have hcontains : st.contains id = true := by
        show (st.find? id).isSome = true
        rw [hf]
        rfl
      have hcr : st.createWritable a id len = .error ⟨.create, .alreadyExists id⟩ := by
        simp [createWritable, checkCreate, checkId, hres, hcontains]
        rfl
      simp only [Op.apply, Op.effect, hcr, hres, view_of_find? hf, Option.isSome_some,
        Bool.false_eq_true, if_false, if_true]
      exact Realizes.keep hi (view_of_find? hf) _
    | none =>
      have hcontains : st.contains id = false := by
        show (st.find? id).isSome = false
        rw [hf]
        rfl
      have hcap : st.checkCapacity len = .ok () := hadm hres hf
      have hv := view_of_find?_none hf
      cases hcan : a.grants len
      case false =>
        have hcr : st.createWritable a id len = .error ⟨.create, .allocation len⟩ := by
          simp [createWritable, checkCreate, checkId, hres, hcontains, hcap, hcan]
          rfl
        simp only [Op.apply, Op.effect, hcr, hres, hv, hcan, Option.isSome_none,
          Bool.false_eq_true, if_false]
        exact Realizes.keep hi hv _
      case true =>
        have hcr : st.createWritable a id len =
            .ok (st.addCell id (.replicate len 0) (some 0)) := by
          simp [createWritable, checkCreate, checkId, hres, hcontains, hcap, hcan, chargeTo]
          simp [createZeroed, Segment.zeroed?, hcan, addCell, Heap.alloc, Heap.push, hf,
            Buffer.push]
          rfl
        have h := realizes_addZeroed hi hres hcap
        rw [hv] at h
        simp only [Op.apply, Op.effect, hcr, hres, hv, hcan, Option.isSome_none,
          Bool.false_eq_true, if_false, if_true]
        exact h

theorem realizes_setByte (hi : st.Inv) (offset : Nat) (value : UInt8) :
    Realizes st id ((Op.setByte offset value).apply id st)
      ((Op.setByte offset value).effect id (st.view id)) := by
  cases hf : st.find? id with
  | none =>
    have hset : st.setByte id offset value = .error ⟨.lookup, .notFound id⟩ := by
      simp [setByte, locate, hf, Except.map]
    simp only [Op.apply, settle, Except.map, Op.effect, hset, view_of_find?_none hf]
    exact Realizes.keep hi (view_of_find?_none hf) _
  | some b =>
    have hv := view_of_find? hf
    cases hl : st.heap.locate b.cells offset with
    | none =>
      have hset : st.setByte id offset value = .error ⟨.lookup, .outOfRange id offset⟩ := by
        simp [setByte, locate, hf, hl, Except.map]
      simp only [Op.apply, settle, Except.map, Op.effect, hset, hv, Buffer.shown,
        Buffer.setAt_shown_of_locate_none value hl]
      exact Realizes.keep hi hv _
    | some loc =>
      obtain ⟨c, o⟩ := loc
      have hset : st.setByte id offset value = .ok (st.poke (c, o) value) := by
        simp [setByte, locate, hf, hl, Except.map]
      have hat := Buffer.setAt_shown_of_locate value (hi.cells_nodup hf) hl
      simp only [Op.apply, settle, Except.map, Op.effect, hset, hv, Buffer.shown, hat]
      refine ⟨rfl, ?_, rfl, rfl, hi.poke _ _⟩
      rw [view_poke hi hf hl, Buffer.shown, hat]

theorem realizes_writeOutput (hi : st.Inv) (value : UInt8) :
    Realizes st id ((Op.writeOutput value).apply id st)
      ((Op.writeOutput value).effect id (st.view id)) := by
  cases hf : st.find? id with
  | none =>
    have hw : st.writeOutput id value = .error ⟨.write, .notFound id⟩ := by
      simp [writeOutput, outputSlot, hf, Except.map]
    simp only [Op.apply, settle, Except.map, Op.effect, hw, view_of_find?_none hf]
    exact Realizes.keep hi (view_of_find?_none hf) _
  | some b =>
    have hv := view_of_find? hf
    rcases b with ⟨_ | ⟨first, rest⟩⟩
    case nil =>
      have hw : st.writeOutput id value = .error ⟨.write, .notFound id⟩ := by
        simp [writeOutput, outputSlot, hf, Except.map]
      simp only [Op.apply, settle, Except.map, Op.effect, hw, hv, Buffer.shown, List.map_nil]
      exact Realizes.keep hi hv _
    case cons =>
      have hv' : st.view id =
          some (⟨st.heap.bytes first.cell, first.cursor⟩ :: rest.map (Segment.shown st.heap)) := hv
      -- the first segment decides: read-only, full, or room at its cursor
      cases hc : first.cursor with
      | none =>
        have hw : st.writeOutput id value = .error ⟨.write, .readOnly id⟩ := by
          simp [writeOutput, outputSlot, hf, Segment.isWritable, hc, Except.map]
        simp only [Op.apply, settle, Except.map, Op.effect, hw, hv', hc]
        exact Realizes.keep hi (by rw [hv', hc]) _
      | some p =>
        by_cases hp : p < first.length st.heap
        · have hw : st.writeOutput id value = .ok (true, st.putOutput id p value) := by
            simp [writeOutput, outputSlot, hf, Segment.isWritable, hc, Segment.room, hp,
              Except.map]
          have hp' : p < (st.heap.bytes first.cell).size := hp
          simp only [Op.apply, settle, Except.map, Op.effect, hw, hv', hc, hp', if_true]
          exact ⟨rfl, view_putOutput hi hf p value, by simp, by simp, hi.putOutput hf hp value⟩
        · have hw : st.writeOutput id value = .ok (false, st) := by
            simp [writeOutput, outputSlot, hf, Segment.isWritable, hc, Segment.room, hp,
              Except.map]
          have hp' : ¬p < (st.heap.bytes first.cell).size := hp
          simp only [Op.apply, settle, Except.map, Op.effect, hw, hv', hc, hp', if_false]
          exact Realizes.keep hi (by rw [hv', hc]) _

theorem realizes_clear (hi : st.Inv) :
    Realizes st id (Op.clear.apply id st) (Op.clear.effect id (st.view id)) := by
  cases hf : st.find? id with
  | none =>
    have hc : st.clear id = (false, st) := by simp [clear, hf]
    simp only [Op.apply, Op.effect, hc, view_of_find?_none hf]
    exact Realizes.keep hi (view_of_find?_none hf) _
  | some b =>
    have hc : st.clear id =
        (true, { st with buffers := st.buffers.erase id, used := st.used - b.length st.heap }) := by
      simp [clear, hf]
    -- the count held the cleared bytes, so giving them back does not stop at zero
    have hle := hi.length_le_used hf
    simp only [Op.apply, Op.effect, view_of_find? hf, Buffer.total_shown]
    refine ⟨by rw [hc], view_clear hf, ?_, by rw [hc], ?_⟩
    · rw [hc]
      show st.used - b.length st.heap + b.length st.heap = st.used + 0
      omega
    · rw [hc]
      exact hi.clear hf

theorem realizes_getByte (hi : st.Inv) (offset : Nat) :
    Realizes st id ((Op.getByte offset).apply id st)
      ((Op.getByte offset).effect id (st.view id)) := by
  cases hf : st.find? id with
  | none =>
    have hg : st.getByte id offset = .error ⟨.lookup, .notFound id⟩ := by simp [getByte, hf]
    simp only [Op.apply, Except.map, Op.effect, hg, view_of_find?_none hf]
    exact Realizes.keep hi (view_of_find?_none hf) _
  | some b =>
    have hv := view_of_find? hf
    have hflat : (SegmentView.flat (b.shown st.heap))[offset]? = b.get? st.heap offset := by
      rw [Buffer.flat_shown, Buffer.get?_eq]
    simp only [Op.apply, Except.map, Op.effect, hv, hflat]
    cases hb : b.get? st.heap offset with
    | none =>
      have hg : st.getByte id offset = .error ⟨.lookup, .outOfRange id offset⟩ := by
        simp [getByte, hf, hb]
      rw [hg]
      exact Realizes.keep hi hv _
    | some x =>
      have hg : st.getByte id offset = .ok x := by simp [getByte, hf, hb]
      rw [hg]
      exact Realizes.keep hi hv _

/-- Every operation on buffer `id` whose capacity check passes has the effect its definition
on views gives, from the view of `id` alone. -/
theorem apply_realizes (hi : st.Inv) (o : Op) (hadm : o.Admits id st) :
    Realizes st id (o.apply id st) (o.effect id (st.view id)) := by
  cases o with
  | append a n => exact realizes_append hi a n hadm
  | create a len => exact realizes_create hi a len hadm
  | setByte offset value => exact realizes_setByte hi offset value
  | writeOutput value => exact realizes_writeOutput hi value
  | clear => exact realizes_clear hi
  | getByte offset => exact realizes_getByte hi offset

/-! ## Commuting -/

/-- Two operations on different ids, from a store that keeps its invariant, give the same
answers and leave every buffer showing the same segments, bytes and cursors, and the same
count, in either order, when there is no limit or every capacity check they make passes in
both orders. -/
theorem ops_on_distinct_ids_commute (st : Store) (hi : st.Inv) (a b : BufferId) (hab : a ≠ b)
    (p q : Op)
    (hcap : st.limit = none ∨ (p.Admits a st ∧ q.Admits b (p.apply a st).2 ∧
      q.Admits b st ∧ p.Admits a (q.apply b st).2)) :
    (p.apply a (q.apply b st).2).1 = (p.apply a st).1 ∧
    (q.apply b (p.apply a st).2).1 = (q.apply b st).1 ∧
    (q.apply b (p.apply a st).2).2.view = (p.apply a (q.apply b st).2).2.view ∧
    (q.apply b (p.apply a st).2).2.used = (p.apply a (q.apply b st).2).2.used := by
  -- with no limit every check passes, and each operation keeps the limit away
  have hadm : p.Admits a st ∧ q.Admits b (p.apply a st).2 ∧ q.Admits b st ∧
      p.Admits a (q.apply b st).2 := by
    rcases hcap with hL | h
    · have hp := apply_realizes hi p (Op.admits_of_unlimited hL p a)
      have hq := apply_realizes hi q (Op.admits_of_unlimited hL q b)
      exact ⟨Op.admits_of_unlimited hL p a, Op.admits_of_unlimited (hp.limit.trans hL) q b,
        Op.admits_of_unlimited hL q b, Op.admits_of_unlimited (hq.limit.trans hL) p a⟩
    · exact h
  obtain ⟨hpa, hqb', hqb, hpa'⟩ := hadm
  have rp := apply_realizes hi p hpa
  have rq := apply_realizes hi q hqb
  have rpq := apply_realizes rp.inv q hqb'
  have rqp := apply_realizes rq.inv p hpa'
  -- each operation, run second, finds its own buffer as it was at the start
  rw [rp.view_of_ne hab.symm] at rpq
  rw [rq.view_of_ne hab] at rqp
  refine ⟨?reply_p, ?reply_q, ?view, ?used⟩
  case reply_p => rw [rqp.reply, rp.reply]
  case reply_q => rw [rpq.reply, rq.reply]
  case view =>
    rw [rpq.view, rqp.view, rp.view, rq.view]
    exact Function.update_comm hab _ _ _
  case used =>
    have h₁ := rp.used
    have h₂ := rq.used
    have h₃ := rpq.used
    have h₄ := rqp.used
    omega

/-- A store under a limit of sixteen with a zeroed four-byte buffer 1: output into buffer 1
and an append of two bytes to buffer 2 commute. -/
theorem output_append_commute :
    let st := (withLimit (some 16)).addCell ⟨1⟩ (.replicate 4 0) (some 0)
    let p := Op.writeOutput 9
    let q := Op.append (Allocator.upTo 0 (by decide)) (.readOnly #[1, 2])
    st.Inv ∧ (⟨1⟩ : BufferId) ≠ ⟨2⟩ ∧
    (st.limit = none ∨ (p.Admits ⟨1⟩ st ∧ q.Admits ⟨2⟩ (p.apply ⟨1⟩ st).2 ∧
      q.Admits ⟨2⟩ st ∧ p.Admits ⟨1⟩ (q.apply ⟨2⟩ st).2)) ∧
    (p.apply ⟨1⟩ (q.apply ⟨2⟩ st).2).1 = (p.apply ⟨1⟩ st).1 ∧
    (q.apply ⟨2⟩ (p.apply ⟨1⟩ st).2).1 = (q.apply ⟨2⟩ st).1 ∧
    (q.apply ⟨2⟩ (p.apply ⟨1⟩ st).2).2.view = (p.apply ⟨1⟩ (q.apply ⟨2⟩ st).2).2.view ∧
    (q.apply ⟨2⟩ (p.apply ⟨1⟩ st).2).2.used = (p.apply ⟨1⟩ (q.apply ⟨2⟩ st).2).2.used :=
  have hi : ((withLimit (some 16)).addCell ⟨1⟩ (.replicate 4 0) (some 0)).Inv :=
    (inv_withLimit _).addCell rfl (fun L hL => by cases hL; decide) (.inr rfl)
  have hcap := Or.inr ⟨trivial, fun _ => rfl, fun _ => rfl, trivial⟩
  ⟨hi, by decide, hcap, ops_on_distinct_ids_commute _ hi ⟨1⟩ ⟨2⟩ (by decide) _ _ hcap⟩

/-- Without the condition on the limit the order can matter: under a limit of four, with two
bytes held in buffer 1, an append of three bytes to buffer 2 fits after buffer 1 is cleared
and not before. -/
theorem admission_depends_on_order :
    ¬ ∀ st : Store, st.Inv → ∀ a b : BufferId, a ≠ b → ∀ p q : Op,
      (p.apply a (q.apply b st).2).1 = (p.apply a st).1 := by
  intro h
  have hi : ((withLimit (some 4)).addCell ⟨1⟩ #[1, 2] none).Inv :=
    (inv_withLimit _).addCell rfl (fun L hL => by cases hL; decide) (.inl rfl)
  have hord := h _ hi ⟨2⟩ ⟨1⟩ (by decide) (.append (Allocator.upTo 0 (by decide))
    (.readOnly #[7, 8, 9])) .clear
  have hafter : ((Op.append (Allocator.upTo 0 (by decide)) (.readOnly #[7, 8, 9])).apply ⟨2⟩
      (Op.clear.apply ⟨1⟩ ((withLimit (some 4)).addCell ⟨1⟩ #[1, 2] none)).2).1 = .ok .done := rfl
  have hbefore : ((Op.append (Allocator.upTo 0 (by decide)) (.readOnly #[7, 8, 9])).apply ⟨2⟩
      ((withLimit (some 4)).addCell ⟨1⟩ #[1, 2] none)).1 = .error ⟨.bufferWrite, .allocation 3⟩ :=
    rfl
  rw [hafter, hbefore] at hord
  cases hord

end Store

end Coprocessor
