import Cwhost.Lib.Outcome

/-!
# What holds between the states before and after a computation

* `Along R x`: started anywhere and ended in any way, `x` leaves a state that `R` relates to the one
  before. For a relation that can be composed (`Steps`) there is one rule for each construct, so the
  frame of a long method is the frames of its parts.
* `finallyDo`: `try: x finally: y`.
-/

namespace Cwhost.Lib

variable {ε σ τ α β : Type}

/-- From every state, `x` leaves a state that `R` relates to it. -/
def Along (R : σ → σ → Prop) (x : EStateM ε σ α) : Prop := ∀ s, R s (endState (x s))

/-- A relation that holds over no step and over two steps in turn. -/
structure Steps (R : σ → σ → Prop) : Prop where
  refl : ∀ s, R s s
  trans : ∀ {s t u}, R s t → R t u → R s u

/-- Having the same part. -/
theorem Steps.same (f : σ → β) : Steps fun s s' => f s' = f s :=
  ⟨fun _ => rfl, fun h h' => h'.trans h⟩

/-- Having no smaller a count. -/
theorem Steps.count (f : σ → Nat) : Steps fun s s' => f s ≤ f s' :=
  ⟨fun _ => Nat.le_refl _, Nat.le_trans⟩

/-- Keeping an invariant. -/
theorem Steps.keeps (I : σ → Prop) : Steps fun s s' => I s → I s' :=
  ⟨fun _ => id, fun h h' => h' ∘ h⟩

/-- `try: x finally: y`. -/
def finallyDo (x : EStateM ε σ α) (y : EStateM ε σ Unit) : EStateM ε σ α := fun s =>
  match x s with
  | .ok a s' =>
    match y s' with
    | .ok _ s'' => .ok a s''
    | .error e s'' => .error e s''
  | .error e s' =>
    match y s' with
    | .ok _ s'' => .error e s''
    | .error e' s'' => .error e' s''

/-- A sequence on a part of the state, for a part that is read back as it was put. -/
theorem zoom_bind {get : τ → σ} {put : τ → σ → τ} (hget : ∀ t s, get (put t s) = s)
    (hput : ∀ t s s', put (put t s) s' = put t s') (x : EStateM ε σ α) (f : α → EStateM ε σ β) :
    zoom get put (x >>= f) = zoom get put x >>= fun a => zoom get put (f a) := by
  funext t
  cases hx : x (get t) with
  | ok a s =>
    have hzoom : zoom get put x t = .ok a (put t s) := by
      rw [zoom, hx]
    rw [bind_of_ok hzoom, zoom, zoom, bind_of_ok hx, hget]
    cases f a s <;> simp only [hput]
  | error e s =>
    have hzoom : zoom get put x t = .error e (put t s) := by
      rw [zoom, hx]
    rw [bind_of_error _ hzoom, zoom, bind_of_error f hx]

/-- The first part of a sequence that has ended normally. -/
theorem exists_of_bind_ok {x : EStateM ε σ α} {f : α → EStateM ε σ β} {s s' : σ} {b : β}
    (h : (x >>= f) s = .ok b s') : ∃ a s₁, x s = .ok a s₁ ∧ f a s₁ = .ok b s' := by
  cases hx : x s with
  | ok a s₁ => exact ⟨a, s₁, rfl, (bind_of_ok hx).symm.trans h⟩
  | error e s₁ =>
    rw [bind_of_error f hx] at h
    cases h

/-- Where a sequence ends whose first part has ended normally. -/
theorem endState_bind_ok {x : EStateM ε σ α} {f : α → EStateM ε σ β} {s s' : σ} {a : α}
    (h : x s = .ok a s') : endState ((x >>= f) s) = endState (f a s') := by
  rw [bind_of_ok h]

theorem endState_bind_error {x : EStateM ε σ α} (f : α → EStateM ε σ β) {s s' : σ} {e : ε}
    (h : x s = .error e s') : endState ((x >>= f) s) = s' := by
  rw [bind_of_error f h]
  rfl

theorem endState_discard (x : EStateM ε σ α) (s : σ) :
    endState (discard x s) = endState (x s) := by
  refine wp_endState (I := fun s' => s' = endState (x s)) (wp_discard.mpr ?_)
  unfold wp
  cases x s <;> rfl

theorem endState_finallyDo (x : EStateM ε σ α) (y : EStateM ε σ Unit) (s : σ) :
    endState (finallyDo x y s) = endState (y (endState (x s))) := by
  unfold finallyDo
  cases x s with
  | ok a s' =>
    show endState (match y s' with | .ok _ s'' => _ | .error e s'' => _) = endState (y s')
    cases y s' <;> rfl
  | error e s' =>
    show endState (match y s' with | .ok _ s'' => _ | .error e s'' => _) = endState (y s')
    cases y s' <;> rfl

namespace Along

variable {R : σ → σ → Prop} {x : EStateM ε σ α} {f : α → EStateM ε σ β}

/-- As a specification. -/
theorem wp (h : Along R x) (s : σ) : Lib.wp x (fun _ s' => R s s') (fun _ s' => R s s') s := by
  have hs := h s
  unfold Lib.wp
  cases hx : x s <;> rw [hx] at hs <;> exact hs

theorem of_wp (h : ∀ s, Lib.wp x (fun _ s' => R s s') (fun _ s' => R s s') s) : Along R x :=
  fun s => wp_endState (h s)

theorem pure (hR : Steps R) (a : α) : Along R (Pure.pure a : EStateM ε σ α) := fun s => hR.refl s

theorem throw (hR : Steps R) (e : ε) : Along R (throw e : EStateM ε σ α) := fun s => hR.refl s

theorem get (hR : Steps R) : Along R (get : EStateM ε σ σ) := fun s => hR.refl s

theorem modify {g : σ → σ} (h : ∀ s, R s (g s)) : Along R (modify g : EStateM ε σ PUnit) :=
  fun s => h s

theorem ofExcept (hR : Steps R) (r : Except ε α) :
    Along R (MonadExcept.ofExcept r : EStateM ε σ α) := fun s => by
  cases r <;> exact hR.refl s

theorem bind (hR : Steps R) (hx : Along R x) (hf : ∀ a, Along R (f a)) : Along R (x >>= f) := by
  intro s
  have hs := hx s
  show R s (endState (EStateM.bind x f s))
  unfold EStateM.bind
  cases h : x s with
  | ok a s' =>
    rw [h] at hs
    exact hR.trans hs (hf a s')
  | error e s' =>
    rw [h] at hs
    exact hs

theorem discard (hx : Along R x) : Along R (discard x) :=
  of_wp fun s => wp_discard.mpr (hx.wp s)

theorem ite {p : Prop} [Decidable p] {y : EStateM ε σ α} (hx : Along R x) (hy : Along R y) :
    Along R (if p then x else y) := by
  split
  · exact hx
  · exact hy

/-- A computation on a part that `R` does not look at. -/
theorem zoom {get : σ → τ} {put : σ → τ → σ} {y : EStateM ε τ α} (h : ∀ s t, R s (put s t)) :
    Along R (zoom get put y) := fun s => by
  unfold Lib.zoom
  cases y (get s) <;> exact h s _

/-- A computation on a part, along what it does there. -/
theorem part {S : τ → τ → Prop} {get : σ → τ} {put : σ → τ → σ} {y : EStateM ε τ α}
    (h : ∀ s t, S (get s) t → R s (put s t)) (hy : Along S y) :
    Along R (Lib.zoom get put y) := fun s => by
  have hs := hy (get s)
  unfold Lib.zoom
  cases hres : y (get s) <;> rw [hres] at hs <;> exact h s _ hs

theorem mapError {ε' : Type} (f : ε → ε') (hx : Along R x) : Along R (Lib.mapError f x) :=
  of_wp fun s => (wp_mapError f x).mpr (hx.wp s)

theorem tryCatch (hR : Steps R) {f : ε → EStateM ε σ α} (hx : Along R x)
    (hf : ∀ e, Along R (f e)) : Along R (tryCatch x f) :=
  of_wp fun s => (wp_tryCatch x f).mpr (wp_mono (hx.wp s) (fun _ _ h => h) fun e s' h =>
    wp_mono ((hf e).wp s') (fun _ _ h' => hR.trans h h') fun _ _ h' => hR.trans h h')

theorem finallyDo (hR : Steps R) {y : EStateM ε σ Unit} (hx : Along R x) (hy : Along R y) :
    Along R (finallyDo x y) := fun s => by
  rw [endState_finallyDo]
  exact hR.trans (hx s) (hy _)

end Along

end Cwhost.Lib
