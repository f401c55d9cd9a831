import Mathlib
import Coprocessor.Session.Run

/-!
# Running commands

`Exec.exec x s` runs the command `x` from the session state `s` and gives its outcome
together with the state it ends in. The equations below take one step of a command at a
time: a bind runs its second part only when the first one finished, a handler runs only
on an early exit, and each primitive of the session changes the fields it names. Later
proofs follow the code through them and never unfold the monad.

On top of the equations sit two kinds of facts about whole commands:

* `Moves R x` — every run of `x` ends in a state that `R` relates to its start, whatever
  its outcome. For a reflexive and transitive `R` this is closed under sequencing and
  handlers, so it is proved for a command from its parts.
* `Exits E x` — every early exit of `x` satisfies `E`, in the state where it stops. This
  too is proved for a command from its parts.
-/

namespace Coprocessor

namespace Exec

variable {α β : Type}

/-- Runs a command from a session state, giving its outcome and the state it ends in. -/
def exec (x : Exec α) (s : Session) : Except Interrupt α × Session := x.run.run s

/-! ## One step at a time -/

@[simp] theorem exec_pure (a : α) (s : Session) : (pure a : Exec α).exec s = (.ok a, s) := rfl

@[simp] theorem exec_throw (e : Interrupt) (s : Session) :
    (throw e : Exec α).exec s = (.error e, s) := rfl

@[simp] theorem exec_bind (x : Exec α) (f : α → Exec β) (s : Session) :
    (x >>= f).exec s = match x.exec s with
      | (.ok a, s') => (f a).exec s'
      | (.error e, s') => (.error e, s') := by
  unfold exec
  rw [ExceptT.run_bind, StateT.run_bind]
  rcases x.run.run s with ⟨_ | a, s'⟩ <;> rfl

@[simp] theorem exec_tryCatch (x : Exec α) (h : Interrupt → Exec α) (s : Session) :
    (tryCatch x h).exec s = match x.exec s with
      | (.ok a, s') => (.ok a, s')
      | (.error e, s') => (h e).exec s' := by
  unfold exec
  rw [ExceptT.run_tryCatch, StateT.run_bind]
  rcases x.run.run s with ⟨_ | a, s'⟩ <;> rfl

theorem exec_bind_of_ok {x : Exec α} {f : α → Exec β} {s s' : Session} {a : α}
    (h : x.exec s = (.ok a, s')) : (x >>= f).exec s = (f a).exec s' := by
  rw [exec_bind, h]

theorem exec_bind_of_error {x : Exec α} {f : α → Exec β} {s s' : Session} {e : Interrupt}
    (h : x.exec s = (.error e, s')) : (x >>= f).exec s = (.error e, s') := by
  rw [exec_bind, h]

theorem exec_bind_eq_ok {x : Exec α} {f : α → Exec β} {s s₂ : Session} {b : β}
    (h : (x >>= f).exec s = (.ok b, s₂)) :
    ∃ a s₁, x.exec s = (.ok a, s₁) ∧ (f a).exec s₁ = (.ok b, s₂) := by
  rw [exec_bind] at h
  rcases hx : x.exec s with ⟨_ | a, s₁⟩
  · rw [hx] at h
    cases h
  · rw [hx] at h
    exact ⟨a, s₁, rfl, h⟩

theorem exec_bind_eq_error {x : Exec α} {f : α → Exec β} {s s₂ : Session} {e : Interrupt}
    (h : (x >>= f).exec s = (.error e, s₂)) :
    x.exec s = (.error e, s₂) ∨ ∃ a s₁, x.exec s = (.ok a, s₁) ∧ (f a).exec s₁ = (.error e, s₂) := by
  rw [exec_bind] at h
  rcases hx : x.exec s with ⟨_ | a, s₁⟩
  · rw [hx] at h
    exact .inl (by simpa using h)
  · rw [hx] at h
    exact .inr ⟨a, s₁, rfl, h⟩

@[simp] theorem exec_modifyGet (f : Session → α × Session) (s : Session) :
    (modifyGet f : Exec α).exec s = (.ok (f s).1, (f s).2) := rfl

@[simp] theorem exec_modify (f : Session → Session) (s : Session) :
    (modify f : Exec Unit).exec s = (.ok (), f s) := rfl

@[simp] theorem exec_get (s : Session) : (get : Exec Session).exec s = (.ok s, s) := rfl

@[simp] theorem exec_frame (s : Session) : frame.exec s = (.ok s.frame, s) := rfl

@[simp] theorem exec_setFrame (f : Frame) (s : Session) :
    (setFrame f).exec s = (.ok (), { s with frame := f }) := rfl

@[simp] theorem exec_store (s : Session) : store.exec s = (.ok s.store, s) := rfl

@[simp] theorem exec_allocator (s : Session) : allocator.exec s = (.ok s.allocator, s) := rfl

@[simp] theorem exec_frame_bind (f : Frame → Exec α) (s : Session) :
    (frame >>= f).exec s = (f s.frame).exec s := rfl

@[simp] theorem exec_store_bind (f : Store → Exec α) (s : Session) :
    (store >>= f).exec s = (f s.store).exec s := rfl

@[simp] theorem exec_allocator_bind (f : Allocator → Exec α) (s : Session) :
    (allocator >>= f).exec s = (f s.allocator).exec s := rfl

@[simp] theorem exec_get_bind (f : Session → Exec α) (s : Session) :
    (get >>= f).exec s = (f s).exec s := rfl

@[simp] theorem exec_modifyStore (g : Store → Store) (s : Session) :
    (modifyStore g).exec s = (.ok (), { s with store := g s.store }) := rfl

@[simp] theorem exec_fail (f : Fault) (s : Session) :
    (fail f : Exec α).exec s = (.error (.fault f), s) := rfl

/-- Nothing runs after a fault. -/
@[simp] theorem fail_bind (f : Fault) (k : α → Exec β) : (fail f >>= k) = fail f := rfl

@[simp] theorem exec_present (c : ScreenCall) (s : Session) :
    (present c).exec s = (.ok (), { s with screen := s.screen.present c }) := rfl

@[simp] theorem exec_logAbort (f : Fault) (s : Session) :
    (logAbort f).exec s = (.ok (), s.logAbort f) := rfl

@[simp] theorem exec_ofExcept (r : Except Fault α) (s : Session) :
    (ofExcept r).exec s = (match r with | .ok a => .ok a | .error f => .error (.fault f), s) := by
  cases r <;> rfl

@[simp] theorem exec_check (c : Store → Except Fault α) (s : Session) :
    (check c).exec s =
      (match c s.store with | .ok a => .ok a | .error f => .error (.fault f), s) := by
  unfold check
  rw [exec_bind, exec_get]
  exact exec_ofExcept _ _

/-- A part run `within` an operation keeps its result and its state; only a fault it
stops with is charged to the operation. -/
@[simp] theorem exec_within (op : Operation) (x : Exec α) (s : Session) :
    (within op x).exec s = match x.exec s with
      | (.ok a, s') => (.ok a, s')
      | (.error (.fault f), s') => (.error (.fault (f.during op)), s')
      | (.error .outOfFuel, s') => (.error .outOfFuel, s') := by
  unfold within
  rw [exec_tryCatch]
  rcases x.exec s with ⟨_ | _, s'⟩
  · rename_i e
    cases e <;> rfl
  · rfl

theorem exec_readByte_transport {s : Session} (h : s.frame.input = .transport) :
    readByte.exec s =
      (match s.transport.readTimeout.1 with | .ok v => .ok v | .error f => .error (.fault f),
       { s with transport := s.transport.readTimeout.2 }) := by
  simp only [readByte, exec_bind, exec_modifyGet, h]
  cases s.transport.readTimeout.1 <;> rfl

theorem exec_readByte_buffer {s : Session} {rd : Reader} (h : s.frame.input = .buffer rd) :
    readByte.exec s =
      (match (rd.read s.store.heap).1 with
        | some v => .ok v
        | none => .error (.fault ⟨.read, .endOfStream⟩),
       { s with frame := { s.frame with input := .buffer (rd.read s.store.heap).2 } }) := by
  simp only [readByte, exec_bind, exec_modifyGet, h]
  cases (rd.read s.store.heap).1 <;> rfl

theorem exec_inputAvailable_transport {s : Session} (h : s.frame.input = .transport) :
    inputAvailable.exec s =
      (.ok s.transport.available.1, { s with transport := s.transport.available.2 }) := by
  simp only [inputAvailable, exec_modifyGet, h]

theorem exec_inputAvailable_buffer {s : Session} {rd : Reader} (h : s.frame.input = .buffer rd) :
    inputAvailable.exec s = (.ok (rd.available s.store.heap), s) := by
  simp only [inputAvailable, exec_modifyGet, h]

/-! ## Where a run may end -/

/-- Every run of `x` ends in a state that `R` relates to the one it started from. -/
def Moves (R : Session → Session → Prop) (x : Exec α) : Prop := ∀ s, R s (x.exec s).2

section Moves

variable {R : Session → Session → Prop} [IsPreorder Session R]

theorem Moves.of_pure (a : α) : Moves R (pure a : Exec α) := fun s => refl_of R s

theorem Moves.of_throw (e : Interrupt) : Moves R (throw e : Exec α) := fun s => refl_of R s

theorem Moves.bind {x : Exec α} {f : α → Exec β} (hx : Moves R x) (hf : ∀ a, Moves R (f a)) :
    Moves R (x >>= f) := by
  intro s
  rcases h : x.exec s with ⟨_ | a, s'⟩
  · rw [exec_bind_of_error h]
    simpa [h] using hx s
  · rw [exec_bind_of_ok h]
    have hs' : R s s' := by simpa [h] using hx s
    exact trans_of R hs' (hf a s')

theorem Moves.tryCatch {x : Exec α} {h : Interrupt → Exec α} (hx : Moves R x)
    (hh : ∀ e, Moves R (h e)) : Moves R (tryCatch x h) := by
  intro s
  rw [exec_tryCatch]
  rcases hr : x.exec s with ⟨_ | a, s'⟩
  · have hs' : R s s' := by simpa [hr] using hx s
    exact trans_of R hs' (hh _ s')
  · simpa [hr] using hx s

theorem Moves.within (op : Operation) {x : Exec α} (hx : Moves R x) : Moves R (within op x) :=
  hx.tryCatch fun e => by cases e <;> exact Moves.of_throw _

theorem Moves.of_fail (f : Fault) : Moves R (fail f : Exec α) := Moves.of_throw _

theorem Moves.of_ofExcept (r : Except Fault α) : Moves R (ofExcept r) := by
  intro s
  rw [exec_ofExcept]
  exact refl_of R s

theorem Moves.of_frame : Moves R frame := fun s => refl_of R s

theorem Moves.of_store : Moves R store := fun s => refl_of R s

theorem Moves.of_allocator : Moves R allocator := fun s => refl_of R s

theorem Moves.of_check (c : Store → Except Fault α) : Moves R (check c) := by
  intro s
  rw [exec_check]
  exact refl_of R s

theorem Moves.of_get : Moves R (get : Exec Session) := fun s => refl_of R s

theorem Moves.check_bind {c : Store → Except Fault α} {f : α → Exec β}
    (h : ∀ s a, c s.store = .ok a → R s ((f a).exec s).2) : Moves R (check c >>= f) := by
  intro s
  rw [exec_bind, exec_check]
  cases hc : c s.store with
  | error e => exact refl_of R s
  | ok a => exact h s a hc

theorem Moves.forIn {β σ : Type} {xs : List β} {b : σ} {f : β → σ → Exec (ForInStep σ)}
    (hf : ∀ x b, Moves R (f x b)) : Moves R (forIn xs b f) := by
  induction xs generalizing b with
  | nil =>
    rw [List.forIn_nil]
    exact Moves.of_pure b
  | cons x xs ih =>
    rw [List.forIn_cons]
    refine (hf x b).bind fun r => ?_
    cases r with
    | done b' => exact Moves.of_pure b'
    | yield b' => exact ih

end Moves

section Updates

variable {R : Session → Session → Prop}

theorem Moves.of_modify {f : Session → Session} (h : ∀ s, R s (f s)) :
    Moves R (modify f : Exec Unit) := by
  intro s
  rw [exec_modify]
  exact h s

theorem Moves.of_modifyGet {f : Session → α × Session} (h : ∀ s, R s (f s).2) :
    Moves R (modifyGet f : Exec α) := by
  intro s
  rw [exec_modifyGet]
  exact h s

/-! A command that first looks at the state moves as its rest does from that same state;
these keep the link between what was looked at and where the rest starts. -/

theorem Moves.frame_bind {f : Frame → Exec α} (h : ∀ s, R s ((f s.frame).exec s).2) :
    Moves R (frame >>= f) := by
  intro s
  rw [exec_frame_bind]
  exact h s

theorem Moves.store_bind {f : Store → Exec α} (h : ∀ s, R s ((f s.store).exec s).2) :
    Moves R (store >>= f) := by
  intro s
  rw [exec_store_bind]
  exact h s

theorem Moves.ite {c : Prop} {_ : Decidable c} {x y : Exec α} (hx : Moves R x) (hy : Moves R y) :
    Moves R (if c then x else y) := by
  split
  · exact hx
  · exact hy

end Updates

/-- A command that moves as `R'` moves as every relation that contains `R'`. -/
theorem Moves.mono {R R' : Session → Session → Prop} {x : Exec α} (hx : Moves R' x)
    (h : ∀ s s', R' s s' → R s s') : Moves R x :=
  fun s => h _ _ (hx s)

/-- The state one run of `x` ends in is related to the one it started from. -/
theorem Moves.of_exec {R : Session → Session → Prop} {x : Exec α} (hx : Moves R x)
    {s : Session} {r : Except Interrupt α} {s' : Session} (h : x.exec s = (r, s')) : R s s' := by
  have hs := hx s
  rw [h] at hs
  exact hs

/-! ## How a run may stop early -/

/-- Every early exit of `x` satisfies `E`, which also sees the state the run stops in. -/
def Exits (E : Interrupt → Session → Prop) (x : Exec α) : Prop :=
  ∀ s e s', x.exec s = (.error e, s') → E e s'

section Exits

variable {E : Interrupt → Session → Prop}

theorem Exits.of_pure (a : α) : Exits E (pure a : Exec α) := by
  intro s e s' h
  cases h

theorem Exits.of_throw {e : Interrupt} (he : ∀ s, E e s) : Exits E (throw e : Exec α) := by
  intro s e' s' h
  cases h
  exact he s

theorem Exits.of_fail {f : Fault} (hf : ∀ s, E (.fault f) s) : Exits E (fail f : Exec α) :=
  Exits.of_throw hf

/-- A part that never stops early is no source of exits. -/
theorem Exits.of_never {x : Exec α} (hx : ∀ s, ∃ a, (x.exec s).1 = .ok a) : Exits E x := by
  intro s e s' he
  obtain ⟨a, ha⟩ := hx s
  rw [he] at ha
  cases ha

theorem Exits.of_modify (f : Session → Session) : Exits E (modify f : Exec Unit) :=
  Exits.of_never fun _ => ⟨(), rfl⟩

theorem Exits.of_modifyGet (f : Session → α × Session) : Exits E (modifyGet f : Exec α) :=
  Exits.of_never fun s => ⟨(f s).1, rfl⟩

theorem Exits.of_store : Exits E store := Exits.of_never fun s => ⟨s.store, rfl⟩

theorem Exits.of_allocator : Exits E allocator := Exits.of_never fun s => ⟨s.allocator, rfl⟩

theorem Exits.of_frame : Exits E frame := Exits.of_never fun s => ⟨s.frame, rfl⟩

theorem Exits.of_get : Exits E (get : Exec Session) := Exits.of_never fun s => ⟨s, rfl⟩

theorem Exits.of_ofExcept {r : Except Fault α} (h : ∀ f, r = .error f → ∀ s, E (.fault f) s) :
    Exits E (ofExcept r) := by
  cases r with
  | error f => exact Exits.of_fail (h f rfl)
  | ok a => exact Exits.of_pure a

theorem Exits.of_check {c : Store → Except Fault α}
    (h : ∀ s f, c s.store = .error f → E (.fault f) s) : Exits E (check c) := by
  intro s e s' he
  rw [exec_check] at he
  cases hc : c s.store with
  | error f =>
    rw [hc] at he
    cases he
    exact h s f hc
  | ok a =>
    rw [hc] at he
    cases he

/-- A run stops early where its first part did, or where its rest did. -/
theorem Exits.bind {x : Exec α} {f : α → Exec β} (hx : Exits E x) (hf : ∀ a, Exits E (f a)) :
    Exits E (x >>= f) := by
  intro s e s' he
  rcases exec_bind_eq_error he with hxe | ⟨a, s₁, -, hfe⟩
  · exact hx s e s' hxe
  · exact hf a s₁ e s' hfe

theorem Exits.ite {c : Prop} {_ : Decidable c} {x y : Exec α} (hx : Exits E x) (hy : Exits E y) :
    Exits E (if c then x else y) := by
  split
  · exact hx
  · exact hy

/-- Charging the faults of a part to an operation maps its exits as the charge does. -/
theorem Exits.within {E' : Interrupt → Session → Prop} (op : Operation) {x : Exec α}
    (hx : Exits E' x) (hf : ∀ f s, E' (.fault f) s → E (.fault (f.during op)) s)
    (ho : ∀ s, E' .outOfFuel s → E .outOfFuel s) : Exits E (within op x) := by
  intro s e s' he
  rw [exec_within] at he
  rcases hxs : x.exec s with ⟨_ | a, s₁⟩
  · rename_i e'
    have h := hx s e' s₁ hxs
    rw [hxs] at he
    cases e' with
    | fault f =>
      cases he
      exact hf f s' h
    | outOfFuel =>
      cases he
      exact ho s' h
  · rw [hxs] at he
    cases he

theorem Exits.forIn {β σ : Type} {xs : List β} {b : σ} {f : β → σ → Exec (ForInStep σ)}
    (hf : ∀ x b, Exits E (f x b)) : Exits E (forIn xs b f) := by
  induction xs generalizing b with
  | nil =>
    rw [List.forIn_nil]
    exact Exits.of_pure b
  | cons x xs ih =>
    rw [List.forIn_cons]
    refine (hf x b).bind fun r => ?_
    cases r with
    | done b' => exact Exits.of_pure b'
    | yield b' => exact ih

theorem Exits.mono {E' : Interrupt → Session → Prop} {x : Exec α} (hx : Exits E' x)
    (h : ∀ e s, E' e s → E e s) : Exits E x :=
  fun s e s' he => h e s' (hx s e s' he)

end Exits

end Exec

end Coprocessor
