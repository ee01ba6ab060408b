import Mathlib.Logic.Function.Basic

/-!
# A store in two tiers

Values by key, in a front store and in a back store. A write goes to the front store, and to the
back store when the front one refuses it. A read asks the front store first, and the back store
when that has no value or does not answer. No write removes anything, so what is read depends on
which of the earlier writes the front store took.

* `Tiers.read_write_self`, `Tiers.read_write_of_ne`: what is read after a write.
* `Tiers.read_write_self_iff`: that is the value written unless the write was shadowed, that is,
  refused by a front store that holds another value.
* `Tiers.read_silent_iff`: a silent front store does not show when it holds nothing, or what the
  back store repeats.
-/

namespace Cwhost.Lib

/-- What the two stores hold. -/
@[ext] structure Tiers (κ ν : Type) where
  front : κ → Option ν
  back : κ → Option ν

namespace Tiers

variable {κ ν : Type}

/-- What is read at `k` when the front store answers, or when it is silent. -/
def read (s : Tiers κ ν) (answers : Bool) (k : κ) : Option ν :=
  (if answers then s.front k else none).or (s.back k)

/-- A silent front store does not show. -/
def Repeats (s : Tiers κ ν) (answers : Bool) (k : κ) : Prop :=
  answers = true ∨ s.front k = none ∨ s.back k = s.front k

/-- The front store refuses `v` and holds another value. -/
def Shadows (s : Tiers κ ν) (accepts : Bool) (k : κ) (v : ν) : Prop :=
  accepts = false ∧ s.front k ≠ none ∧ s.front k ≠ some v

instance [DecidableEq ν] (s : Tiers κ ν) (answers : Bool) (k : κ) :
    Decidable (s.Repeats answers k) :=
  inferInstanceAs (Decidable (_ ∨ _))

instance [DecidableEq ν] (s : Tiers κ ν) (accepts : Bool) (k : κ) (v : ν) :
    Decidable (s.Shadows accepts k v) :=
  inferInstanceAs (Decidable (_ ∧ _))

/-- **A silent front store** reads as one that answers, exactly when it does not show. -/
theorem read_silent_iff (s : Tiers κ ν) (answers : Bool) (k : κ) :
    s.read answers k = s.read true k ↔ s.Repeats answers k := by
  cases answers with
  | true => simp [Repeats]
  | false => cases hfront : s.front k <;> simp [read, Repeats, hfront]

/-- Without a front value it makes no difference whether the front store answers. -/
theorem read_of_front_none {s : Tiers κ ν} {k : κ} (h : s.front k = none) (answers : Bool) :
    s.read answers k = s.read true k :=
  (s.read_silent_iff answers k).mpr (Or.inr (Or.inl h))

/-- When something is read from a silent front store, an answer gives something as well. -/
theorem exists_read {s : Tiers κ ν} {answers : Bool} {k : κ} {v : ν}
    (h : s.read answers k = some v) : ∃ held, s.read true k = some held := by
  cases answers with
  | true => exact ⟨v, h⟩
  | false =>
    cases hfront : s.front k with
    | some held => exact ⟨held, by simp [read, hfront]⟩
    | none => exact ⟨v, (read_of_front_none hfront false).symm.trans h⟩

variable [DecidableEq κ]

/-- Write `v` at `k`: the front store accepts or refuses it. -/
def write (s : Tiers κ ν) (accepts : Bool) (k : κ) (v : ν) : Tiers κ ν :=
  if accepts then { s with front := Function.update s.front k (some v) }
  else { s with back := Function.update s.back k (some v) }

/-- What is read where a write went: the value written, or what the front store held when it
refused. -/
theorem read_write_self (s : Tiers κ ν) (accepts : Bool) (k : κ) (v : ν) :
    (s.write accepts k v).read true k = if accepts then some v else (s.front k).or (some v) := by
  cases accepts <;> simp [write, read]

theorem read_write_of_ne (s : Tiers κ ν) (accepts answers : Bool) {k q : κ} (v : ν) (h : q ≠ k) :
    (s.write accepts k v).read answers q = s.read answers q := by
  cases accepts <;> simp [write, read, h]

/-- **A write is read back** unless it was shadowed. -/
theorem read_write_self_iff (s : Tiers κ ν) (accepts : Bool) (k : κ) (v : ν) :
    (s.write accepts k v).read true k = some v ↔ ¬ s.Shadows accepts k v := by
  rw [read_write_self]
  cases accepts with
  | true => simp [Shadows]
  | false => cases hfront : s.front k <;> simp [Shadows, hfront]

end Tiers

end Cwhost.Lib
