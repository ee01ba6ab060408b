import Mathlib.Logic.Basic

/-!
# State with exceptions that keep the state

`EStateM ε σ` is the shape of an imperative method: it ends normally or with an exception, and
in both cases the state it has written so far stays written. This file gives that monad the
rules the proofs use.

* `wp x Q E s`: started in `s`, the computation `x` ends normally with `Q`, or in an exception
  with `E`. One rule for each construct (`wp_bind`, `wp_throw`, `wp_zoom`, …), all of them
  simp lemmas, and `wp_mono` to use the specification of a callee.
* `endState`: the state left behind, whichever way the computation ended. `wp_endState`
  carries an invariant of a step over to it.
* `zoom`: a computation on a part of the state. `mapError`: with other exceptions.
* `timesM`: a bounded loop. `okState_timesM`: what it is on the states of normal ends.
-/

namespace Cwhost.Lib

variable {ε σ τ α β : Type}

/-- The state left by a computation, normal or not. -/
def endState : EStateM.Result ε σ α → σ
  | .ok _ s => s
  | .error _ s => s

/-- The state left by a normal end. -/
def okState : EStateM.Result ε σ α → Option σ
  | .ok _ s => some s
  | .error _ _ => none

/-- The value of a normal end. -/
def okValue : EStateM.Result ε σ α → Option α
  | .ok a _ => some a
  | .error _ _ => none

/-- From `s`, `x` ends normally in `Q` or with an exception in `E`. -/
def wp (x : EStateM ε σ α) (Q : α → σ → Prop) (E : ε → σ → Prop) (s : σ) : Prop :=
  match x s with
  | .ok a s' => Q a s'
  | .error e s' => E e s'

/-- Run a computation on the part of the state that `get` reads and `put` writes back. -/
def zoom (get : τ → σ) (put : τ → σ → τ) (x : EStateM ε σ α) : EStateM ε τ α := fun t =>
  match x (get t) with
  | .ok a s => .ok a (put t s)
  | .error e s => .error e (put t s)

/-- Turn the exceptions of a computation into others. -/
def mapError {ε' : Type} (f : ε → ε') (x : EStateM ε σ α) : EStateM ε' σ α := fun s =>
  match x s with
  | .ok a s' => .ok a s'
  | .error e s' => .error (f e) s'

/-- `for _ in range(n): x`. -/
def timesM {m : Type → Type} [Monad m] : Nat → m Unit → m Unit
  | 0, _ => pure ()
  | n + 1, x => do
    x
    timesM n x

section Rules

variable {Q : α → σ → Prop} {E : ε → σ → Prop} {s : σ}

@[simp] theorem wp_pure (a : α) : wp (pure a : EStateM ε σ α) Q E s ↔ Q a s := Iff.rfl

@[simp] theorem wp_throw (e : ε) : wp (throw e : EStateM ε σ α) Q E s ↔ E e s := Iff.rfl

@[simp] theorem wp_get {Q : σ → σ → Prop} : wp (get : EStateM ε σ σ) Q E s ↔ Q s s := Iff.rfl

@[simp] theorem wp_set {Q : PUnit → σ → Prop} (s' : σ) :
    wp (set s' : EStateM ε σ PUnit) Q E s ↔ Q ⟨⟩ s' := Iff.rfl

@[simp] theorem wp_modify {Q : PUnit → σ → Prop} (f : σ → σ) :
    wp (modify f : EStateM ε σ PUnit) Q E s ↔ Q ⟨⟩ (f s) := Iff.rfl

@[simp] theorem wp_bind {Q : β → σ → Prop} (x : EStateM ε σ α) (f : α → EStateM ε σ β) :
    wp (x >>= f) Q E s ↔ wp x (fun a s' => wp (f a) Q E s') E s := by
  show (match EStateM.bind x f s with | .ok a s' => Q a s' | .error e s' => E e s') ↔ _
  unfold EStateM.bind wp
  cases x s <;> rfl

@[simp] theorem wp_map {Q : β → σ → Prop} (x : EStateM ε σ α) (f : α → β) :
    wp (f <$> x) Q E s ↔ wp x (fun a s' => Q (f a) s') E s := by
  show (match EStateM.map f x s with | .ok a s' => Q a s' | .error e s' => E e s') ↔ _
  unfold EStateM.map wp
  cases x s <;> rfl

theorem wp_discard {x : EStateM ε σ α} {Q : PUnit → σ → Prop} :
    wp (discard x) Q E s ↔ wp x (fun _ s' => Q ⟨⟩ s') E s :=
  wp_map x (Function.const α PUnit.unit)

@[simp] theorem wp_zoom {t : τ} {get : τ → σ} {put : τ → σ → τ} {x : EStateM ε σ α}
    {Q : α → τ → Prop} {E : ε → τ → Prop} :
    wp (zoom get put x) Q E t ↔
      wp x (fun a s => Q a (put t s)) (fun e s => E e (put t s)) (get t) := by
  unfold wp zoom
  cases x (get t) <;> rfl

@[simp] theorem wp_tryCatch (x : EStateM ε σ α) (f : ε → EStateM ε σ α) :
    wp (tryCatch x f) Q E s ↔ wp x Q (fun e s' => wp (f e) Q E s') s := by
  show (match EStateM.tryCatch x f s with | .ok a s' => Q a s' | .error e s' => E e s') ↔ _
  unfold EStateM.tryCatch wp
  cases x s <;> rfl

@[simp] theorem wp_mapError {ε' : Type} {E : ε' → σ → Prop} (f : ε → ε') (x : EStateM ε σ α) :
    wp (mapError f x) Q E s ↔ wp x Q (fun e s' => E (f e) s') s := by
  unfold wp mapError
  cases x s <;> rfl

theorem wp_ofExcept {x : Except ε α} (hQ : ∀ a, x = .ok a → Q a s)
    (hE : ∀ e, x = .error e → E e s) :
    wp (MonadExcept.ofExcept x : EStateM ε σ α) Q E s := by
  cases x with
  | ok a => exact hQ a rfl
  | error e => exact hE e rfl

theorem wp_ite {p : Prop} [Decidable p] {x y : EStateM ε σ α} :
    wp (if p then x else y) Q E s ↔ (p → wp x Q E s) ∧ (¬p → wp y Q E s) := by
  split <;> simp_all

/-- A value comes with the state left behind. -/
theorem eq_ok_of_okValue {r : EStateM.Result ε σ α} {a : α} (h : okValue r = some a) :
    r = .ok a (endState r) := by
  cases r with
  | ok a' s => rw [Option.some.inj h, endState]
  | error e s => cases h

theorem okValue_mapError {ε' : Type} (f : ε → ε') (x : EStateM ε σ α) (s : σ) :
    okValue (mapError f x s) = okValue (x s) := by
  unfold mapError
  cases x s <;> rfl

/-- **Using a specification**: weaker postconditions. -/
theorem wp_mono {x : EStateM ε σ α} {Q' : α → σ → Prop} {E' : ε → σ → Prop} (h : wp x Q E s)
    (hQ : ∀ a s', Q a s' → Q' a s') (hE : ∀ e s', E e s' → E' e s') : wp x Q' E' s := by
  unfold wp at h ⊢
  cases hx : x s with
  | ok a s' =>
    rw [hx] at h
    exact hQ a s' h
  | error e s' =>
    rw [hx] at h
    exact hE e s' h

theorem wp_and {x : EStateM ε σ α} {Q' : α → σ → Prop} {E' : ε → σ → Prop} (h : wp x Q E s)
    (h' : wp x Q' E' s) : wp x (fun a s' => Q a s' ∧ Q' a s') (fun e s' => E e s' ∧ E' e s') s := by
  unfold wp at h h' ⊢
  cases hx : x s <;> rw [hx] at h h' <;> exact ⟨h, h'⟩

/-- How a computation ends. -/
theorem wp_self (x : EStateM ε σ α) (s : σ) :
    wp x (fun a s' => x s = .ok a s') (fun e s' => x s = .error e s') s := by
  unfold wp
  cases x s <;> rfl

/-- What a specification says of the state left behind. -/
theorem wp_endState {x : EStateM ε σ α} {I : σ → Prop} (h : wp x (fun _ s' => I s')
    (fun _ s' => I s') s) : I (endState (x s)) := by
  unfold wp at h
  cases hx : x s <;> rw [hx] at h <;> exact h

/-- A computation with a known end. -/
theorem wp_iff_of_ok {x : EStateM ε σ α} {a : α} {s' : σ} (hx : x s = .ok a s') :
    wp x Q E s ↔ Q a s' := by
  unfold wp
  rw [hx]

theorem wp_iff_of_error {x : EStateM ε σ α} {e : ε} {s' : σ} (hx : x s = .error e s') :
    wp x Q E s ↔ E e s' := by
  unfold wp
  rw [hx]

theorem wp_of_ok {x : EStateM ε σ α} {a : α} {s' : σ} (h : wp x Q E s) (hx : x s = .ok a s') :
    Q a s' := (wp_iff_of_ok hx).mp h

theorem wp_of_error {x : EStateM ε σ α} {e : ε} {s' : σ} (h : wp x Q E s)
    (hx : x s = .error e s') : E e s' := (wp_iff_of_error hx).mp h

/-- **Exactly when** a computation ends normally, from a specification that says so of both ends. -/
theorem wp_iff_of_exact {x : EStateM ε σ α} {C : Prop}
    (h : wp x (fun a s' => C ∧ Q a s') (fun _ _ => ¬ C) s) : wp x Q (fun _ _ => False) s ↔ C := by
  unfold wp at h ⊢
  cases hx : x s with
  | ok a s' =>
    rw [hx] at h
    exact iff_of_true h.2 h.1
  | error e s' =>
    rw [hx] at h
    exact iff_of_false id h

/-- A specification that excludes exceptions gives a normal end. -/
theorem wp_exists_ok {x : EStateM ε σ α} (h : wp x Q (fun _ _ => False) s) :
    ∃ a s', x s = .ok a s' ∧ Q a s' := by
  unfold wp at h
  cases hx : x s with
  | ok a s' =>
    rw [hx] at h
    exact ⟨a, s', rfl, h⟩
  | error e s' =>
    rw [hx] at h
    exact h.elim

end Rules

/-- Sequencing after a normal end. -/
theorem bind_of_ok {x : EStateM ε σ α} {f : α → EStateM ε σ β} {s s' : σ} {a : α}
    (h : x s = .ok a s') : (x >>= f) s = f a s' := by
  show EStateM.bind x f s = _
  unfold EStateM.bind
  rw [h]

/-- Sequencing after an exception. -/
theorem bind_of_error {x : EStateM ε σ α} (f : α → EStateM ε σ β) {s s' : σ} {e : ε}
    (h : x s = .error e s') : (x >>= f) s = .error e s' := by
  show EStateM.bind x f s = _
  unfold EStateM.bind
  rw [h]

/-- A part of the state after a normal end. -/
theorem zoom_of_ok {get : τ → σ} {put : τ → σ → τ} {x : EStateM ε σ α} {t : τ} {a : α} {s : σ}
    (h : x (get t) = .ok a s) : zoom get put x t = .ok a (put t s) := by
  unfold zoom
  rw [h]

theorem map_of_ok (f : α → β) {x : EStateM ε σ α} {s s' : σ} {a : α} (h : x s = .ok a s') :
    (f <$> x) s = .ok (f a) s' := by
  show EStateM.map f x s = _
  unfold EStateM.map
  rw [h]

theorem map_of_error (f : α → β) {x : EStateM ε σ α} {s s' : σ} {e : ε}
    (h : x s = .error e s') : (f <$> x) s = .error e s' := by
  show EStateM.map f x s = _
  unfold EStateM.map
  rw [h]

theorem discard_of_ok {x : EStateM ε σ α} {s s' : σ} {a : α} (h : x s = .ok a s') :
    discard x s = .ok ⟨⟩ s' := map_of_ok (Function.const α PUnit.unit) h

theorem discard_of_error {x : EStateM ε σ α} {s s' : σ} {e : ε} (h : x s = .error e s') :
    discard x s = .error e s' := map_of_error (Function.const α PUnit.unit) h

theorem get_eq (s : σ) : (get : EStateM ε σ σ) s = .ok s s := rfl

/-! ## Runs seen as partial functions on the state -/

theorem okState_bind (x : EStateM ε σ α) (f : α → EStateM ε σ β) (s : σ) :
    okState ((x >>= f) s) =
      match x s with
      | .ok a s' => okState (f a s')
      | .error _ _ => none := by
  show okState (EStateM.bind x f s) = _
  unfold EStateM.bind
  cases x s <;> rfl

/-- Sequencing is composition of partial functions. -/
theorem okState_seq (x : EStateM ε σ Unit) (y : EStateM ε σ β) (s : σ) :
    okState ((x >>= fun _ => y) s) = (okState (x s)).bind fun s' => okState (y s') := by
  rw [okState_bind]
  cases x s <;> rfl

/-- `n` times a partial function. -/
def times (f : σ → Option σ) : Nat → σ → Option σ
  | 0, s => some s
  | n + 1, s => (f s).bind (times f n)

/-- The bounded loop repeats its partial function. -/
theorem okState_timesM (x : EStateM ε σ Unit) (n : Nat) (s : σ) :
    okState (timesM n x s) = times (fun s => okState (x s)) n s := by
  induction n generalizing s with
  | zero => rfl
  | succ n ih =>
    show okState ((x >>= fun _ => timesM n x) s) = _
    rw [okState_seq, times]
    exact congrArg _ (funext ih)

/-- The bounded loop, given what its body does. -/
theorem okState_timesM_of {x : EStateM ε σ Unit} {f : σ → Option σ}
    (h : ∀ s, okState (x s) = f s) (n : Nat) (s : σ) : okState (timesM n x s) = times f n s := by
  rw [okState_timesM, funext h]

theorem okState_get (f : σ → EStateM ε σ β) (s : σ) :
    okState ((get >>= f) s) = okState (f s s) := rfl

theorem okState_modify (f : σ → σ) (s : σ) :
    okState ((modify f : EStateM ε σ PUnit) s) = some (f s) := rfl

/-! ## Computations without state -/

/-- What a successful sequence has done. -/
theorem bind_eq_ok {x : Except ε α} {f : α → Except ε β} {b : β} (h : x >>= f = .ok b) :
    ∃ a, x = .ok a ∧ f a = .ok b := by
  cases x with
  | error e => cases h
  | ok a => exact ⟨a, rfl, h⟩

theorem map_eq_ok {f : α → β} {x : Except ε α} {b : β} (h : f <$> x = .ok b) :
    ∃ a, x = .ok a ∧ b = f a := by
  cases x with
  | error e => cases h
  | ok a => exact ⟨a, rfl, (Except.ok.inj h).symm⟩

end Cwhost.Lib
