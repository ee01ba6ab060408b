import Cwhost.Lib.Along

/-!
# Instrumented computations

A computation may be written twice: plainly, and on a larger state, with a check before every access
and a log of what it has touched. `Mirrors view I E x y` says that the second one, `x`, does what
the first one, `y`, does on the part of the state that `view` shows: it ends with the same value or
the same exception, the exception is in `E`, and the invariant `I` of the log holds again. One rule
for each construct; `Mirrors.silent` is the step that only `x` takes.
-/

namespace Cwhost.Lib

variable {ε σ τ α β : Type}

/-- `x` ends as `y` does on the part `view` shows, within `E` and keeping `I`. -/
def Mirrors (view : τ → σ) (I : τ → Prop) (E : ε → Prop) (x : EStateM ε τ α)
    (y : EStateM ε σ α) : Prop :=
  ∀ t, I t → wp x (fun a t' => y (view t) = .ok a (view t') ∧ I t')
    (fun e t' => (y (view t) = .error e (view t') ∧ E e) ∧ I t') t

namespace Mirrors

variable {view : τ → σ} {I : τ → Prop} {E : ε → Prop} {x : EStateM ε τ α} {y : EStateM ε σ α}

theorem pure (a : α) :
    Mirrors view I E (Pure.pure a : EStateM ε τ α) (Pure.pure a : EStateM ε σ α) :=
  fun _ ht => ⟨rfl, ht⟩

theorem throw {e : ε} (he : E e) :
    Mirrors view I E (throw e : EStateM ε τ α) (throw e : EStateM ε σ α) :=
  fun _ ht => ⟨⟨rfl, he⟩, ht⟩

/-- Two steps in turn; the second one may use that the first has ended normally. -/
theorem bind {f : α → EStateM ε τ β} {g : α → EStateM ε σ β} (hx : Mirrors view I E x y)
    (hf : ∀ a, (∃ s s', y s = .ok a s') → Mirrors view I E (f a) (g a)) :
    Mirrors view I E (x >>= f) (y >>= g) := by
  intro t ht
  refine (wp_bind x f).mpr (wp_mono (hx t ht) ?_ ?_)
  · rintro a t' ⟨hy, ht'⟩
    rw [bind_of_ok hy]
    exact hf a ⟨_, _, hy⟩ t' ht'
  · rintro e t' ⟨⟨hy, he⟩, ht'⟩
    exact ⟨⟨bind_of_error g hy, he⟩, ht'⟩

/-- **A step only the instrumented computation takes**: it shows nothing and does not fail. -/
theorem silent {P : α → Prop} {f : α → EStateM ε τ β} {z : EStateM ε σ β}
    (hx : ∀ t, I t → wp x (fun a t' => P a ∧ view t' = view t ∧ I t') (fun _ _ => False) t)
    (hf : ∀ a, P a → Mirrors view I E (f a) z) : Mirrors view I E (x >>= f) z := by
  intro t ht
  refine (wp_bind x f).mpr (wp_mono (hx t ht) ?_ (fun _ _ h => h.elim))
  rintro a t' ⟨ha, hview, ht'⟩
  rw [← hview]
  exact hf a ha t' ht'

theorem ite {p : Prop} [Decidable p] {x' : EStateM ε τ α} {y' : EStateM ε σ α}
    (hx : p → Mirrors view I E x y) (hx' : ¬p → Mirrors view I E x' y') :
    Mirrors view I E (if p then x else x') (if p then y else y') := by
  split
  · exact hx ‹_›
  · exact hx' ‹_›

/-- A step both computations take, on the shown part. -/
theorem modify {f : τ → τ} {g : σ → σ} (hview : ∀ t, view (f t) = g (view t))
    (hI : ∀ t, I t → I (f t)) :
    Mirrors view I E (modify f : EStateM ε τ PUnit) (modify g : EStateM ε σ PUnit) := by
  intro t ht
  refine (wp_modify f).mpr ⟨?_, hI t ht⟩
  rw [hview t]
  rfl

/-- Reading the state, when only the shown part matters for what follows. -/
theorem get_bind {f : τ → EStateM ε τ β} {g : σ → EStateM ε σ β}
    (hf : ∀ t, Mirrors view I E (f t) (g (view t))) :
    Mirrors view I E (get >>= f) (get >>= g) :=
  fun t ht => (wp_bind get f).mpr (hf t t ht)

theorem timesM {x : EStateM ε τ Unit} {y : EStateM ε σ Unit} (hx : Mirrors view I E x y) :
    ∀ n, Mirrors view I E (timesM n x) (timesM n y)
  | 0 => Mirrors.pure ()
  | n + 1 => hx.bind fun _ _ => Mirrors.timesM hx n

/-- What the shown part says of the end of the instrumented computation. -/
theorem wp {Q : α → σ → Prop} (hx : Mirrors view I E x y) {t : τ} (ht : I t)
    (hQ : ∀ a s, y (view t) = .ok a s → Q a s) :
    Lib.wp x (fun a t' => Q a (view t') ∧ I t') (fun e t' => E e ∧ I t') t :=
  wp_mono (hx t ht) (fun _ _ h => ⟨hQ _ _ h.1, h.2⟩) (fun _ _ h => ⟨h.1.2, h.2⟩)

end Mirrors

/-! ## Computations without state -/

theorem ofExcept_bind (x : Except ε α) (f : α → Except ε β) :
    (MonadExcept.ofExcept (x >>= f) : EStateM ε σ β) =
      MonadExcept.ofExcept x >>= fun a => MonadExcept.ofExcept (f a) := by
  cases x <;> rfl

end Cwhost.Lib
