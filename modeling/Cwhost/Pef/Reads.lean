import Cwhost.Lib.Reads
import Cwhost.Pef.Container

/-!
# The reads of the parsers

The parsers of the repository read fields with `struct.unpack_from`, with an index or as a slice:
the first two fail outside their byte string.
-/

namespace Cwhost.Pef

open Lib

/-- `struct.unpack_from` of a format of `size` bytes: the read, and the failure outside `buf`. -/
def unpackFrom (buf : List UInt8) (offset size : Nat) : ReadM Exc Unit := do
  note buf offset (offset + size)
  MonadExcept.ofExcept (PEF.unpackCheck buf offset size)

/-- `buf[offset]`. -/
def byteAt (buf : List UInt8) (offset : Nat) : ReadM Exc Nat := do
  note buf offset (offset + 1)
  match buf[offset]? with
  | some byte => pure byte.toNat
  | none => throw .indexError

variable {E : Exc → Prop}

theorem unpackFrom_inside {buf : List UInt8} {offset size : Nat} (h : offset + size ≤ buf.length)
    (hoff : offset < 2 ^ 63) {log : List Access} (hlog : AllInside log) :
    wp (unpackFrom buf offset size) (fun _ log' => AllInside log') (fun _ _ => False) log := by
  refine (wp_bind _ _).mpr (wp_mono (note_inside (Nat.le_add_right _ _) h hlog) ?_ fun _ _ => id)
  intro _ log' hlog'
  rw [PEF.unpackCheck_ok h hoff]
  exact hlog'

theorem unpackFrom_bind {α : Type} {buf : List UInt8} {offset size : Nat}
    (h : offset + size ≤ buf.length) (hoff : offset < 2 ^ 63) {f : Unit → ReadM Exc α}
    {y : Except Exc α} (hf : ParsesIn E (f ()) y) :
    ParsesIn E (unpackFrom buf offset size >>= f) y :=
  Mirrors.silent (P := fun _ => True)
    (fun _ hlog => wp_mono (unpackFrom_inside h hoff hlog) (fun _ _ h => ⟨trivial, rfl, h⟩)
      fun _ _ => id)
    fun _ _ => hf

theorem byteAt_bind {α : Type} {buf : List UInt8} {offset : Nat} (h : offset < buf.length)
    {f : Nat → ReadM Exc α} {y : Except Exc α} (hf : ParsesIn E (f (u8 buf offset)) y) :
    ParsesIn E (byteAt buf offset >>= f) y := by
  refine Mirrors.silent (P := fun byte => byte = u8 buf offset) ?_ ?_
  · intro log hlog
    refine (wp_bind _ _).mpr (wp_mono (note_inside (Nat.le_succ _) h hlog) ?_ fun _ _ => id)
    intro _ log' hlog'
    rw [List.getElem?_eq_getElem h]
    refine ⟨?_, rfl, hlog'⟩
    rw [u8, List.getD_eq_getElem?_getD, List.getElem?_eq_getElem h, Option.getD_some]
  · rintro _ rfl
    exact hf

/-- A parser that fails with `HostError` only. -/
def HostFailure (e : Exc) : Prop := e.isHostError = true

theorem parsesIn_hostError {α : Type} {text : String} :
    ParsesIn HostFailure (throw (.hostError text) : ReadM Exc α) (throw (.hostError text)) :=
  Mirrors.throw rfl

end Cwhost.Pef
