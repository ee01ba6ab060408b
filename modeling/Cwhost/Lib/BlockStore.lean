import Cwhost.Lib.Layout
import Mathlib.Logic.Function.Basic

/-!
# Stores of resizable byte strings

What a memory manager is for, without addresses: it holds byte strings under keys, gives a new key
to a new one, cuts or extends one and writes into one. What a new or an extended string holds
behind the old bytes is not said, and a request for room may always be refused.

* `Step`: one request with its answer, the key it is about, or nothing when it was refused.
* `Step.at`, `Step.byteAt`: what a step does to one string and to one byte.
* `Steps`, `Steps.byteAt`: **a byte is what was stored there last**, whatever happened to the size
  of its string meanwhile, as long as the byte was inside.
-/

namespace Cwhost.Lib

/-- A byte string of a store. -/
structure Block where
  contents : List UInt8
  locked : Bool
  deriving DecidableEq, Repr

/-- The bytes from `offset` on are `data`. -/
def Block.store (b : Block) (offset : Nat) (data : List UInt8) : Block :=
  { b with contents := assign b.contents offset (offset + data.length) data }

/-- The bytes of a string written into. -/
theorem Block.getElem?_store {b : Block} {offset : Nat} {data : List UInt8}
    (inside : offset + data.length ≤ b.contents.length) (i : Nat) :
    (b.store offset data).contents[i]? =
      (if offset ≤ i then data[i - offset]? else none).or b.contents[i]? := by
  unfold Block.store
  by_cases hi : offset ≤ i ∧ i < offset + data.length
  · rw [if_pos hi.1, getElem?_assign_self inside hi,
      List.getElem?_eq_getElem (show i - offset < data.length by omega), Option.some_or]
  · rw [getElem?_assign inside (by omega)]
    split
    · rw [List.getElem?_eq_none (show data.length ≤ i - offset by omega), Option.none_or]
    · rfl

/-- What is held under each key. -/
abbrev BlockStore (κ : Type) := κ → Option Block

namespace BlockStore

variable {κ : Type}

/-- The store without strings. -/
def empty : BlockStore κ := fun _ => none

/-- A request. -/
inductive Request (κ : Type)
  | create (size : Nat)
  | dispose (key : κ)
  | resize (key : κ) (size : Nat)
  | lock (key : κ) (locked : Bool)
  | store (key : κ) (offset : Nat) (data : List UInt8)
  deriving DecidableEq, Repr

/-- A request with its answer. -/
abbrev Event (κ : Type) := Request κ × Option κ

variable [DecidableEq κ]

/-- **One request**, and what it answers. -/
inductive Step (a : BlockStore κ) : Event κ → BlockStore κ → Prop
  | create {n : Nat} {k : κ} {contents : List UInt8} (fresh : a k = none)
    (size : contents.length = n) :
    Step a (.create n, some k) (Function.update a k (some ⟨contents, false⟩))
  | dispose {k : κ} {b : Block} (held : a k = some b) :
    Step a (.dispose k, some k) (Function.update a k none)
  | resize {k : κ} {n : Nat} {b : Block} {contents : List UInt8} (held : a k = some b)
    (size : contents.length = n)
    (kept : contents.take (min b.contents.length n) = b.contents.take (min b.contents.length n)) :
    Step a (.resize k n, some k) (Function.update a k (some ⟨contents, b.locked⟩))
  | lock {k : κ} {locked : Bool} {b : Block} (held : a k = some b) :
    Step a (.lock k locked, some k) (Function.update a k (some { b with locked := locked }))
  | store {k : κ} {offset : Nat} {data : List UInt8} {b : Block} (held : a k = some b)
    (inside : offset + data.length ≤ b.contents.length) :
    Step a (.store k offset data, some k) (Function.update a k (some (b.store offset data)))
  /-- There is no room. -/
  | full {n : Nat} : Step a (.create n, none) a
  /-- There is no room, or nothing under the key. -/
  | stuck {k : κ} {n : Nat} : Step a (.resize k n, none) a
  | unknownDispose {k : κ} (unknown : a k = none) : Step a (.dispose k, none) a
  | unknownLock {k : κ} {locked : Bool} (unknown : a k = none) : Step a (.lock k locked, none) a

/-- A run of requests. -/
inductive Steps (a : BlockStore κ) : List (Event κ) → BlockStore κ → Prop
  | nil : Steps a [] a
  | snoc {events : List (Event κ)} {e : Event κ} {b c : BlockStore κ} (steps : Steps a events b)
    (step : Step b e c) : Steps a (events ++ [e]) c

/-! ## One byte -/

/-- The byte at `i` of the string under `k`. -/
def byteAt (a : BlockStore κ) (k : κ) (i : Nat) : Option UInt8 :=
  (a k).bind fun b => b.contents[i]?

/-- What a request stores at `i` under `k`, if it is one that does. -/
def stores (k : κ) (i : Nat) : Event κ → Option UInt8
  | (.store key offset data, some _) =>
    if key = k ∧ offset ≤ i then data[i - offset]? else none
  | _ => none

/-- The request leaves a string under `k` that has an `i`-th byte. -/
def Spares (k : κ) (i : Nat) : Event κ → Prop
  | (.create _, answer) => answer ≠ some k
  | (.dispose key, answer) => answer = none ∨ key ≠ k
  | (.resize key n, answer) => answer = none ∨ key ≠ k ∨ i < n
  | (.lock .., _) | (.store .., _) => True

instance (k : κ) (i : Nat) (e : Event κ) : Decidable (Spares k i e) := by
  rcases e with ⟨request, answer⟩
  cases request <;> unfold Spares <;> infer_instance

/-- What the requests have stored at `i` under `k` last. -/
def lastStored (k : κ) (i : Nat) (events : List (Event κ)) : Option UInt8 :=
  events.reverse.findSome? (stores k i)

theorem lastStored_concat (k : κ) (i : Nat) (events : List (Event κ)) (e : Event κ) :
    lastStored k i (events ++ [e]) = (stores k i e).or (lastStored k i events) := by
  unfold lastStored
  rw [List.reverse_append, List.reverse_singleton, List.singleton_append, List.findSome?_cons]
  cases stores k i e <;> rfl

theorem byteAt_update_of_ne {a : BlockStore κ} {k key : κ} (h : k ≠ key) (b : Option Block)
    (i : Nat) : byteAt (Function.update a key b) k i = byteAt a k i := by
  unfold byteAt
  rw [Function.update_of_ne h]

theorem byteAt_update_self (a : BlockStore κ) (k : κ) (b : Block) (i : Nat) :
    byteAt (Function.update a k (some b)) k i = b.contents[i]? := by
  unfold byteAt
  rw [Function.update_self]
  rfl

omit [DecidableEq κ] in
theorem byteAt_of_held {a : BlockStore κ} {k : κ} {b : Block} (h : a k = some b) (i : Nat) :
    byteAt a k i = b.contents[i]? := by
  unfold byteAt
  rw [h]
  rfl

/-- **One step** at a byte that stays inside its string: what was stored there now, or what was
there before. -/
theorem Step.byteAt {a a' : BlockStore κ} {e : Event κ} (h : Step a e a') {k : κ} {i : Nat}
    {v : UInt8} (hv : BlockStore.byteAt a k i = some v) (hspares : Spares k i e) :
    BlockStore.byteAt a' k i = some ((stores k i e).getD v) := by
  cases h with
  | full | stuck | unknownDispose _ | unknownLock _ => exact hv
  | @create n key contents fresh size =>
    have hne : k ≠ key := fun he => hspares (congrArg some he.symm)
    rw [byteAt_update_of_ne hne, hv]
    rfl
  | @dispose key b held =>
    have hne : k ≠ key := fun he => hspares.elim (fun h => Option.some_ne_none _ h) (· he.symm)
    rw [byteAt_update_of_ne hne, hv]
    rfl
  | @resize key n b contents held size kept =>
    by_cases he : k = key
    · subst he
      rw [byteAt_of_held held] at hv
      have hold : i < b.contents.length := (List.getElem?_eq_some_iff.mp hv).1
      have hnew : i < n := hspares.elim (fun h => absurd h (Option.some_ne_none _))
        (·.resolve_left fun h => h rfl)
      show BlockStore.byteAt _ k i = some v
      rw [byteAt_update_self, ← hv,
        ← List.getElem?_take_of_lt (show i < min b.contents.length n by omega), kept,
        List.getElem?_take_of_lt (by omega)]
    · rw [byteAt_update_of_ne he, hv]
      rfl
  | @lock key locked b held =>
    by_cases he : k = key
    · subst he
      rw [byteAt_of_held held] at hv
      rw [byteAt_update_self]
      exact hv
    · rw [byteAt_update_of_ne he, hv]
      rfl
  | @store key offset data b held inside =>
    by_cases he : k = key
    · subst he
      rw [byteAt_of_held held] at hv
      rw [byteAt_update_self, Block.getElem?_store inside, hv, stores]
      simp only [true_and]
      cases (if offset ≤ i then data[i - offset]? else none) <;> rfl
    · rw [byteAt_update_of_ne he, hv, stores, if_neg fun h => he h.1.symm]
      rfl

/-- **A run** of them: a byte that stays inside its string is what was stored there last. -/
theorem Steps.byteAt {a a' : BlockStore κ} {events : List (Event κ)} (h : Steps a events a')
    {k : κ} {i : Nat} {v : UInt8} (hv : BlockStore.byteAt a k i = some v)
    (hspares : ∀ e ∈ events, Spares k i e) :
    BlockStore.byteAt a' k i = some ((lastStored k i events).getD v) := by
  induction h with
  | nil => exact hv
  | @snoc events e b c _ step ih =>
    have hb := ih fun e' he' => hspares e' (List.mem_append_left _ he')
    rw [step.byteAt hb (hspares e (List.mem_append_right _ List.mem_cons_self)),
      lastStored_concat]
    cases stores k i e <;> rfl

end BlockStore

end Cwhost.Lib
