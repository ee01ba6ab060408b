import Cwhost.Lib.ByteMemory
import Cwhost.Lib.Instrumented

/-!
# Reads of byte strings

A parser of a byte string can be written with functions that are total, and again with every read as
it is made, which a log keeps. `ParsesIn E x y`: the second one, `x`, ends as the first one, `y`,
does, its reads stay inside, and it fails within `E` only.

* `sliceAt_bind`, `parsesIn_bind`: the rules for a slice and for two parsers in turn.
* `cleanIn_of_parses`, `parsesIn_error`: what a parser that follows a plain one does.
-/

namespace Cwhost.Lib

variable {ε α : Type}

/-- A read of the bytes from `start` to `stop` of a byte string of `size` bytes. -/
structure Access where
  size : Nat
  start : Nat
  stop : Nat
  deriving DecidableEq, Repr

/-- The read stays inside its byte string. -/
def Access.Inside (a : Access) : Prop := a.start ≤ a.stop ∧ a.stop ≤ a.size

/-- Every read of the log stayed inside. -/
def AllInside (log : List Access) : Prop := ∀ a ∈ log, a.Inside

@[simp] theorem allInside_nil : AllInside [] := fun _ h => nomatch h

@[simp] theorem allInside_cons {a : Access} {log : List Access} :
    AllInside (a :: log) ↔ a.Inside ∧ AllInside log := List.forall_mem_cons

/-- Parsing: exceptions, and the log of the reads. -/
abbrev ReadM (ε : Type) := EStateM ε (List Access)

/-- A read of the bytes from `start` to `stop` of `buf`. -/
def note (buf : List UInt8) (start stop : Nat) : ReadM ε Unit :=
  modify fun log => { size := buf.length, start := start, stop := stop } :: log

/-- `buf[start:stop]`. -/
def sliceAt (buf : List UInt8) (start stop : Nat) : ReadM ε (List UInt8) := do
  note buf start stop
  return slice buf start stop

/-- `x` parses as `y` does, its reads stay inside, and it fails within `E` only. -/
abbrev ParsesIn (E : ε → Prop) (x : ReadM ε α) (y : Except ε α) : Prop :=
  Mirrors (fun _ => ()) AllInside E x (MonadExcept.ofExcept y : EStateM ε Unit α)

variable {E : ε → Prop}

theorem note_inside {buf : List UInt8} {start stop : Nat} (h : start ≤ stop)
    (h' : stop ≤ buf.length) {log : List Access} (hlog : AllInside log) :
    wp (note buf start stop : ReadM ε Unit) (fun _ log' => AllInside log') (fun _ _ => False) log :=
  allInside_cons.mpr ⟨⟨h, h'⟩, hlog⟩

theorem sliceAt_bind {buf : List UInt8} {start stop : Nat} (h : start ≤ stop)
    (h' : stop ≤ buf.length) {f : List UInt8 → ReadM ε α} {y : Except ε α}
    (hf : ParsesIn E (f (slice buf start stop)) y) :
    ParsesIn E (sliceAt buf start stop >>= f) y := by
  refine Mirrors.silent (P := fun bytes => bytes = slice buf start stop) ?_ ?_
  · intro log hlog
    refine (wp_bind _ _).mpr (wp_mono (note_inside h h' hlog) ?_ fun _ _ => id)
    intro _ log' hlog'
    exact ⟨rfl, rfl, hlog'⟩
  · rintro _ rfl
    exact hf

/-- Two parsers in turn. -/
theorem parsesIn_bind {β : Type} {x : ReadM ε α} {y : Except ε α} {f : α → ReadM ε β}
    {g : α → Except ε β} (hx : ParsesIn E x y) (hf : ∀ a, y = .ok a → ParsesIn E (f a) (g a)) :
    ParsesIn E (x >>= f) (y >>= g) := by
  unfold ParsesIn
  rw [ofExcept_bind]
  refine Mirrors.bind hx ?_
  rintro a ⟨s, s', hy⟩
  refine hf a ?_
  cases y with
  | ok b =>
    cases hy
    rfl
  | error e => cases hy

/-- `x` ends with a result in `Q` or with an exception in `E`, and reads nothing outside. -/
def CleanIn (E : ε → Prop) (x : ReadM ε α) (Q : α → Prop) : Prop :=
  wp x (fun a log => Q a ∧ AllInside log) (fun e log => E e ∧ AllInside log) []

/-- What a parser that follows a plain one does. -/
theorem cleanIn_of_parses {x : ReadM ε α} {y : Except ε α} {Q : α → Prop}
    (hx : ParsesIn E x y) (hQ : ∀ a, y = .ok a → Q a) : CleanIn E x Q := by
  refine Mirrors.wp (Q := fun a _ => Q a) hx allInside_nil ?_
  intro a s hy
  refine hQ a ?_
  cases y with
  | ok b =>
    cases hy
    rfl
  | error e => cases hy

/-- An exception of the plain parser is one of `E`. -/
theorem parsesIn_error {x : ReadM ε α} {y : Except ε α} (h : ParsesIn E x y) {e : ε}
    (hy : y = .error e) : E e := by
  subst hy
  have hwp := h [] allInside_nil
  unfold wp at hwp
  cases hx : x [] with
  | ok a log =>
    rw [hx] at hwp
    cases hwp.1
  | error e' log =>
    rw [hx] at hwp
    cases hwp.1.1
    exact hwp.1.2

end Cwhost.Lib
