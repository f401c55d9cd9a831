import Mathlib
import Coprocessor.Proofs.Session.Evolves
import Coprocessor.Proofs.Store.Invariant

/-!
# Sessions the host can make

The host makes a session, gives its transport bytes, lets it run commands and collects what
it answered. `Session.HostStep` is one such action, and `Session.Reachable` the sessions a
sequence of them makes from a new session. Every command moves the store by the store's own
operations and leaves the options alone (`Exec.topCommand_evolves`), so the store of every
reachable session is one the operations make from an empty store under the session's
memory limit (`Session.Reachable.store`). Running a session over its input, with `run` or
`processAll`, only takes host steps.

`Store.Facts` is what such a store promises its users, read off the invariant: the reserved
ids name no buffer, the byte count is the sum of the segment lengths and stays under the
limit, segments never change length, cursors stay inside their segments, and no buffer
holds more bytes than the count, so taking a buffer's length off the count never goes
below zero.
-/

namespace Coprocessor

namespace Store

/-- What every store made by the operations promises. The count stays under a limit below
the largest word, and under any limit while the count itself fits a word: the capacity
check adds with a sum that stops at the largest word, so past it the check no longer sees
the sum. -/
structure Facts (limit : Option Nat) (st : Store) : Prop where
  reserved : st.find? BufferId.default = none ∧ st.find? BufferId.none = none
  used_eq : st.used = ((st.buffers.entries.flatMap (·.2.segments)).map (·.length st.heap)).sum
  used_le : ∀ L, limit = some L → (L < wordMax ∨ st.used ≤ wordMax) → st.used ≤ L
  lengths_kept : ∀ st', Steps st st' → ∀ id b, st.find? id = some b →
    ∀ seg ∈ b.segments, seg.length st'.heap = seg.length st.heap
  cursor_le : ∀ id b, st.find? id = some b → ∀ seg ∈ b.segments, ∀ p,
    seg.cursor = some p → p ≤ seg.length st.heap
  length_le_used : ∀ id b, st.find? id = some b → b.length st.heap ≤ st.used

/-- The bytes the buffers of a list of entries hold, segment by segment. -/
theorem sum_length_eq_sum_segments (h : Heap) (l : List (BufferId × Buffer)) :
    (l.map (·.2.length h)).sum = ((l.flatMap (·.2.segments)).map (·.length h)).sum := by
  induction l with
  | nil => rfl
  | cons e rest ih =>
    rw [List.map_cons, List.sum_cons, ih, List.flatMap_cons, List.map_append, List.sum_append]
    congr 1
    rw [Buffer.length, Heap.totalSize_eq_sum, Buffer.cells, List.map_map]
    rfl

theorem Inv.length_le_used {st : Store} (hi : st.Inv) {id : BufferId} {b : Buffer}
    (hf : st.find? id = some b) : b.length st.heap ≤ st.used := by
  rw [hi.used_eq, total_split hi.sorted id, hf]
  exact Nat.le_add_right _ _

theorem Inv.segment_allocated {st : Store} (hi : st.Inv) {id : BufferId} {b : Buffer}
    (hf : st.find? id = some b) {seg : Segment} (hseg : seg ∈ b.segments) :
    seg.cell < st.heap.cells.size :=
  hi.allocated _ (mem_cells hf (List.mem_map_of_mem hseg))

theorem Reachable.facts {limit : Option Nat} {st : Store} (h : Reachable limit st) :
    st.Facts limit := by
  have hi := h.inv
  have hlimit : st.limit = limit := Steps.limit_eq h
  refine ⟨⟨hi.reserved _ rfl, hi.reserved _ rfl⟩, ?_, ?_, ?_, hi.cursor_le,
    fun _ _ hf => hi.length_le_used hf⟩
  · rw [hi.used_eq, total, sum_length_eq_sum_segments]
  · intro L hL hword
    -- under a limit of a word or more the check never refuses, but then the count is
    -- under the limit as long as it fits a word
    rcases hi.within_limit L (hlimit.trans hL) with hle | hle
    · exact hle
    · rcases hword with hlt | hfits
      · exact absurd hle (Nat.not_le.mpr hlt)
      · exact Nat.le_trans hfits hle
  · -- later steps only add cells, and a stored segment's cell is already there
    intro st' hst id b hf seg hseg
    exact (Steps.heap_extends hst).2 seg.cell (hi.segment_allocated hf hseg)

end Store

namespace Session

/-- One thing the host does with a session: run a command from its code, take the next
command from the transport, collect the answers, or change the transport, to give it
bytes or close it. -/
inductive HostStep : Session → Session → Prop
  | dispatch (s : Session) (code : UInt8) : HostStep s (s.dispatch code)
  | processNext (s : Session) : HostStep s s.processNext.2
  | collect (s : Session) : HostStep s s.collect.2
  | link (s : Session) (t : Transport) : HostStep s { s with transport := t }

/-- The sessions that the host can make from a new one, over any allocator. -/
def Reachable (s : Session) : Prop :=
  ∃ a t scr o, Relation.ReflTransGen HostStep (Session.create a t scr o) s

/-- The dispatcher changes nothing but the transport and the log after the command. -/
theorem dispatch_eq (s : Session) (code : UInt8) :
    ∃ tr ab, s.dispatch code =
      { ((Exec.topCommand code).exec s).2 with transport := tr, aborts := ab } := by
  unfold dispatch flush Exec.exec
  rcases (Exec.topCommand code).run.run s with ⟨r, s'⟩
  dsimp only
  split
  · exact ⟨_, _, rfl⟩
  · exact ⟨_, _, rfl⟩

theorem dispatch_moves (s : Session) (code : UInt8) :
    Store.Steps s.store (s.dispatch code).store ∧ (s.dispatch code).options = s.options := by
  obtain ⟨tr, ab, heq⟩ := dispatch_eq s code
  have hev := Exec.topCommand_evolves code s
  rw [heq]
  exact ⟨hev.store, hev.options⟩

/-- A host step moves the store by the store's operations and keeps the options. -/
theorem HostStep.moves {s s' : Session} (h : HostStep s s') :
    Store.Steps s.store s'.store ∧ s'.options = s.options := by
  cases h with
  | dispatch code => exact dispatch_moves s code
  | processNext =>
    unfold Session.processNext
    dsimp only
    -- the code byte, if one is read, is dispatched; a failed read is only logged
    split
    · split
      · rename_i code t _
        have h := dispatch_moves { s with transport := t } code
        exact h
      · exact ⟨Relation.ReflTransGen.refl, rfl⟩
      · exact ⟨Relation.ReflTransGen.refl, rfl⟩
    · exact ⟨Relation.ReflTransGen.refl, rfl⟩
  | collect => exact ⟨Relation.ReflTransGen.refl, rfl⟩
  | link t => exact ⟨Relation.ReflTransGen.refl, rfl⟩

theorem reaches_moves {s s' : Session} (h : Relation.ReflTransGen HostStep s s') :
    Store.Steps s.store s'.store ∧ s'.options = s.options := by
  induction h with
  | refl => exact ⟨Relation.ReflTransGen.refl, rfl⟩
  | tail _ hstep ih =>
    obtain ⟨hst, hopt⟩ := hstep.moves
    exact ⟨ih.1.trans hst, hopt.trans ih.2⟩

/-- The store of every session the host can make is one the store's operations make from
an empty store under the session's memory limit. -/
theorem Reachable.store {s : Session} (h : s.Reachable) :
    Store.Reachable s.options.memoryLimit s.store := by
  obtain ⟨a, t, scr, o, hreach⟩ := h
  obtain ⟨hst, hopt⟩ := reaches_moves hreach
  rw [hopt]
  exact hst

/-! ## Running over the input takes host steps -/

theorem processWithin_reaches (n : Nat) (s : Session) :
    Relation.ReflTransGen HostStep s (processWithin n s) := by
  induction n generalizing s with
  | zero => exact Relation.ReflTransGen.refl
  | succ n ih =>
    unfold processWithin
    -- one command taken from the transport, then the rest
    rcases hp : s.processNext with ⟨_ | _, s'⟩
    · have hstep : HostStep s s' := by
        have := HostStep.processNext s
        rwa [hp] at this
      exact Relation.ReflTransGen.single hstep
    · have hstep : HostStep s s' := by
        have := HostStep.processNext s
        rwa [hp] at this
      exact Relation.ReflTransGen.head hstep (ih s')

theorem runWithin_reaches (n : Nat) (s : Session) :
    Relation.ReflTransGen HostStep s (runWithin n s) := by
  induction n generalizing s with
  | zero => exact Relation.ReflTransGen.refl
  | succ n ih =>
    unfold runWithin
    split
    · exact Relation.ReflTransGen.refl
    · -- a code byte read with the timeout is dispatched; a timeout only moves the transport
      split
      · exact Relation.ReflTransGen.head (HostStep.link _ _)
          (Relation.ReflTransGen.head (HostStep.dispatch _ _) (ih _))
      · split
        · exact Relation.ReflTransGen.head (HostStep.link _ _) (ih _)
        · exact Relation.ReflTransGen.single (HostStep.link _ _)

theorem Reachable.processAll {s : Session} (h : s.Reachable) : s.processAll.Reachable := by
  obtain ⟨a, t, scr, o, hreach⟩ := h
  exact ⟨a, t, scr, o, hreach.trans (processWithin_reaches _ s)⟩

theorem Reachable.run {s : Session} (h : s.Reachable) : s.run.Reachable := by
  obtain ⟨a, t, scr, o, hreach⟩ := h
  exact ⟨a, t, scr, o, hreach.trans (runWithin_reaches _ s)⟩

theorem reachable_create (a : Allocator) (t : Transport) (scr : Screen) (o : Options) :
    (Session.create a t scr o).Reachable :=
  ⟨a, t, scr, o, Relation.ReflTransGen.refl⟩

theorem run_options (s : Session) : s.run.options = s.options :=
  (reaches_moves (runWithin_reaches _ s)).2

theorem processAll_options (s : Session) : s.processAll.options = s.options :=
  (reaches_moves (processWithin_reaches _ s)).2

end Session

/-- The store's representation invariant, for every store the operations make from an
empty one and so for the store of every session the host can make, whatever input the
session ran, nested calls included: no reserved id names a buffer, the count is the sum of
the segment lengths and stays under the limit while it fits a word, a segment never
changes length, a cursor stays inside its segment, and no buffer holds more bytes than the
count. -/
theorem store_invariant :
    (∀ limit st, Store.Reachable limit st → st.Facts limit) ∧
    (∀ s : Session, s.Reachable → s.store.Facts s.options.memoryLimit) ∧
    (∀ a t scr o, (Session.create a t scr o).run.store.Facts o.memoryLimit ∧
      (Session.create a t scr o).processAll.store.Facts o.memoryLimit) := by
  refine ⟨fun _ _ h => h.facts, fun s h => h.store.facts, fun a t scr o => ⟨?_, ?_⟩⟩
  · -- running keeps the options the session was made with
    have h := (Session.reachable_create a t scr o).run.store.facts
    rw [Session.run_options] at h
    exact h
  · have h := (Session.reachable_create a t scr o).processAll.store.facts
    rw [Session.processAll_options] at h
    exact h

end Coprocessor
