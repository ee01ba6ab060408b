import Mathlib.Data.List.Nodup
import Mathlib.Data.List.Perm.Basic

/-!
# Insertion-ordered finite maps

A `Dict κ ν` is a list of key/value items with distinct keys, in insertion order: assigning to
a present key keeps its place, assigning to a new key appends it, and removal closes the gap.
The distinctness of the keys is a field, so a duplicate key cannot be built.

* `get?_eq_some_iff`: a lookup answers exactly the stored items.
* `get?_set`, `get?_erase`: reading after a write and after a removal.
* `perm_erase`, `set_perm`: the items up to order, which is what sums and counts over a
  dictionary are computed from.
* `Inverse`: two tables that hold the same pairs, turned round.
-/

namespace Cwhost.Lib

/-- A finite map, its items in insertion order. -/
structure Dict (κ ν : Type) where
  items : List (κ × ν)
  nodup : (items.map Prod.fst).Nodup

namespace Dict

variable {κ ν : Type} [DecidableEq κ]

/-- The dictionary without items. -/
def empty : Dict κ ν := ⟨[], List.nodup_nil⟩

/-- The keys in insertion order. -/
def keys (d : Dict κ ν) : List κ := d.items.map Prod.fst

/-- The values in insertion order. -/
def values (d : Dict κ ν) : List ν := d.items.map Prod.snd

/-- The value stored under `k`. -/
def get? (d : Dict κ ν) (k : κ) : Option ν := d.items.lookup k

/-- Remove `k`; a missing key changes nothing. -/
def erase (d : Dict κ ν) (k : κ) : Dict κ ν :=
  ⟨d.items.filter fun e => decide (e.1 ≠ k),
    d.nodup.sublist (List.filter_sublist.map Prod.fst)⟩

theorem map_fst_replace (l : List (κ × ν)) (k : κ) (v : ν) :
    (l.map fun e => if e.1 = k then (k, v) else e).map Prod.fst = l.map Prod.fst := by
  rw [List.map_map]
  refine List.map_congr_left fun e _ => ?_
  simp only [Function.comp_apply]
  split
  · rename_i h
    exact h.symm
  · rfl

/-- Store `v` under `k`: in place when `k` is present, at the end otherwise. -/
def set (d : Dict κ ν) (k : κ) (v : ν) : Dict κ ν :=
  if h : k ∈ d.keys then
    ⟨d.items.map fun e => if e.1 = k then (k, v) else e, by
      rw [map_fst_replace]
      exact d.nodup⟩
  else
    ⟨d.items ++ [(k, v)], by
      rw [List.map_append]
      refine List.Nodup.append d.nodup (List.nodup_singleton k) fun a ha hk => ?_
      have ha' : a = k := List.mem_singleton.mp hk
      exact h (ha' ▸ ha)⟩

/-- A dictionary is its items. -/
theorem eq_of_items {κ ν : Type} {d d' : Dict κ ν} (h : d.items = d'.items) : d = d' := by
  cases d
  cases d'
  cases h
  rfl

/-! ## Lookup -/

@[simp] theorem get?_empty (k : κ) : (empty : Dict κ ν).get? k = none := rfl

theorem lookup_eq_some_iff {l : List (κ × ν)} (hl : (l.map Prod.fst).Nodup) {k : κ} {v : ν} :
    l.lookup k = some v ↔ (k, v) ∈ l := by
  induction l with
  | nil => simp
  | cons e l ih =>
    obtain ⟨k', v'⟩ := e
    rw [List.map_cons, List.nodup_cons] at hl
    by_cases hk : k = k'
    · subst hk
      rw [List.lookup_cons, beq_self_eq_true]
      simp only [List.mem_cons, Prod.mk.injEq, true_and, Option.some.injEq]
      constructor
      · exact fun h => Or.inl h.symm
      · rintro (h | h)
        · exact h.symm
        · exact absurd (List.mem_map_of_mem (f := Prod.fst) h) hl.1
    · have hb : (k == k') = false := by simpa using hk
      rw [List.lookup_cons, hb]
      simp only [List.mem_cons, Prod.mk.injEq, hk, false_and, false_or]
      exact ih hl.2

/-- **A lookup answers exactly the stored items.** -/
theorem get?_eq_some_iff {d : Dict κ ν} {k : κ} {v : ν} :
    d.get? k = some v ↔ (k, v) ∈ d.items :=
  lookup_eq_some_iff d.nodup

theorem get?_eq_none_iff {d : Dict κ ν} {k : κ} : d.get? k = none ↔ k ∉ d.keys := by
  constructor
  · intro h hm
    obtain ⟨⟨k', v⟩, he, rfl⟩ := List.mem_map.mp hm
    rw [get?_eq_some_iff.mpr he] at h
    exact absurd h (by simp)
  · intro h
    cases hg : d.get? k with
    | none => rfl
    | some v => exact absurd (List.mem_map_of_mem (f := Prod.fst) (get?_eq_some_iff.mp hg)) h

/-! ## Removal -/

theorem mem_erase {d : Dict κ ν} {k : κ} {e : κ × ν} :
    e ∈ (d.erase k).items ↔ e ∈ d.items ∧ e.1 ≠ k := by
  simp [erase, List.mem_filter]

theorem get?_erase (d : Dict κ ν) (k q : κ) :
    (d.erase k).get? q = if q = k then none else d.get? q := by
  refine Option.ext fun v => ?_
  rw [get?_eq_some_iff, mem_erase]
  split
  · rename_i h
    simp [h]
  · rename_i h
    simp [h, get?_eq_some_iff]

@[simp] theorem get?_erase_self (d : Dict κ ν) (k : κ) : (d.erase k).get? k = none := by
  rw [get?_erase, if_pos rfl]

theorem get?_erase_of_ne (d : Dict κ ν) {k q : κ} (h : q ≠ k) :
    (d.erase k).get? q = d.get? q := by
  rw [get?_erase, if_neg h]

theorem filter_ne_of_notMem {l : List (κ × ν)} {k : κ} (h : k ∉ l.map Prod.fst) :
    (l.filter fun e => decide (e.1 ≠ k)) = l := by
  refine List.filter_eq_self.mpr fun e he => ?_
  simp only [ne_eq, decide_eq_true_eq]
  rintro rfl
  exact h (List.mem_map_of_mem he)

/-- Removing a key that is not there. -/
theorem erase_of_get?_eq_none {d : Dict κ ν} {k : κ} (h : d.get? k = none) : d.erase k = d := by
  obtain ⟨items, nodup⟩ := d
  unfold erase
  congr
  exact filter_ne_of_notMem (get?_eq_none_iff.mp h)

theorem perm_filter_ne {l : List (κ × ν)} (hl : (l.map Prod.fst).Nodup) {k : κ} {v : ν}
    (h : (k, v) ∈ l) : l.Perm ((k, v) :: l.filter fun e => decide (e.1 ≠ k)) := by
  induction l with
  | nil => exact absurd h List.not_mem_nil
  | cons e l ih =>
    rw [List.map_cons, List.nodup_cons] at hl
    rcases List.mem_cons.mp h with rfl | h
    · rw [List.filter_cons_of_neg (by simp), filter_ne_of_notMem hl.1]
    · have hne : e.1 ≠ k := fun he =>
        hl.1 (he ▸ List.mem_map_of_mem (f := Prod.fst) h)
      rw [List.filter_cons_of_pos (by simpa using hne)]
      exact ((ih hl.2 h).cons e).trans (List.Perm.swap _ _ _)

/-- The items are the removed one and the rest, up to order. -/
theorem perm_erase {d : Dict κ ν} {k : κ} {v : ν} (h : d.get? k = some v) :
    d.items.Perm ((k, v) :: (d.erase k).items) :=
  perm_filter_ne d.nodup (get?_eq_some_iff.mp h)

/-! ## Assignment -/

theorem filter_ne_map_replace (l : List (κ × ν)) (k : κ) (v : ν) :
    ((l.map fun e => if e.1 = k then (k, v) else e).filter fun e => decide (e.1 ≠ k))
      = l.filter fun e => decide (e.1 ≠ k) := by
  induction l with
  | nil => rfl
  | cons e l ih =>
    rw [List.map_cons]
    by_cases he : e.1 = k
    · rw [if_pos he, List.filter_cons_of_neg (by simp), List.filter_cons_of_neg (by simp [he]), ih]
    · rw [if_neg he, List.filter_cons_of_pos (by simpa using he),
        List.filter_cons_of_pos (by simpa using he), ih]

/-- After an assignment the items are the new one and the others, up to order. -/
theorem set_perm (d : Dict κ ν) (k : κ) (v : ν) :
    (d.set k v).items.Perm ((k, v) :: (d.erase k).items) := by
  unfold set
  split
  · rename_i h
    have hm : (k, v) ∈ d.items.map fun e => if e.1 = k then (k, v) else e := by
      obtain ⟨e, he, rfl⟩ := List.mem_map.mp h
      exact List.mem_map.mpr ⟨e, he, if_pos rfl⟩
    have hn : ((d.items.map fun e => if e.1 = k then (k, v) else e).map Prod.fst).Nodup := by
      rw [map_fst_replace]
      exact d.nodup
    have hp := perm_filter_ne hn hm
    rw [filter_ne_map_replace] at hp
    exact hp
  · rename_i h
    show (d.items ++ [(k, v)]).Perm ((k, v) :: d.items.filter fun e => decide (e.1 ≠ k))
    rw [filter_ne_of_notMem h]
    exact List.perm_append_singleton _ _

theorem mem_set {d : Dict κ ν} {k : κ} {v : ν} {e : κ × ν} :
    e ∈ (d.set k v).items ↔ e = (k, v) ∨ (e ∈ d.items ∧ e.1 ≠ k) := by
  rw [(set_perm d k v).mem_iff, List.mem_cons, mem_erase]

/-- **Reading after a write.** -/
theorem get?_set (d : Dict κ ν) (k : κ) (v : ν) (q : κ) :
    (d.set k v).get? q = if q = k then some v else d.get? q := by
  refine Option.ext fun w => ?_
  rw [get?_eq_some_iff, mem_set]
  split
  · rename_i h
    subst h
    simp [eq_comm]
  · rename_i h
    simp [h, get?_eq_some_iff]

@[simp] theorem get?_set_self (d : Dict κ ν) (k : κ) (v : ν) : (d.set k v).get? k = some v := by
  rw [get?_set, if_pos rfl]

theorem get?_set_of_ne (d : Dict κ ν) {k q : κ} (v : ν) (h : q ≠ k) :
    (d.set k v).get? q = d.get? q := by
  rw [get?_set, if_neg h]

/-- A new key is appended. -/
theorem set_items_of_notMem {d : Dict κ ν} {k : κ} (v : ν) (h : k ∉ d.keys) :
    (d.set k v).items = d.items ++ [(k, v)] := by
  unfold set
  rw [dif_neg h]

/-- An assignment keeps the order of the keys, a new one comes last. -/
theorem keys_set (d : Dict κ ν) (k : κ) (v : ν) :
    (d.set k v).keys = if k ∈ d.keys then d.keys else d.keys ++ [k] := by
  by_cases h : k ∈ d.keys
  · rw [set, dif_pos h, if_pos h]
    exact map_fst_replace d.items k v
  · rw [if_neg h, keys, set_items_of_notMem v h, List.map_append]
    rfl

/-- Removing what has just been stored under a new key. -/
theorem erase_set_of_get?_eq_none {d : Dict κ ν} {k : κ} (v : ν) (h : d.get? k = none) :
    (d.set k v).erase k = d := by
  have hk := get?_eq_none_iff.mp h
  refine eq_of_items ?_
  show (d.set k v).items.filter _ = d.items
  rw [set_items_of_notMem v hk, List.filter_append]
  have hold : d.items.filter (fun e => decide (e.1 ≠ k)) = d.items :=
    congrArg items (erase_of_get?_eq_none h)
  rw [hold]
  simp

/-! ## Lists collected from the values -/

/-- The lists `f v` of all values `v`, in insertion order. -/
def collect {β : Type} (d : Dict κ ν) (f : ν → List β) : List β := d.values.flatMap f

theorem collect_set {β : Type} (d : Dict κ ν) (f : ν → List β) (k : κ) (v : ν) :
    ((d.set k v).collect f).Perm (f v ++ (d.erase k).collect f) :=
  ((set_perm d k v).map Prod.snd).flatMap_right f

theorem collect_erase {β : Type} {d : Dict κ ν} (f : ν → List β) {k : κ} {v : ν}
    (h : d.get? k = some v) : (d.collect f).Perm (f v ++ (d.erase k).collect f) :=
  ((perm_erase h).map Prod.snd).flatMap_right f

theorem collect_set_of_none {β : Type} {d : Dict κ ν} (f : ν → List β) {k : κ} (v : ν)
    (h : d.get? k = none) : ((d.set k v).collect f).Perm (f v ++ d.collect f) := by
  have he := collect_set d f k v
  rwa [erase_of_get?_eq_none h] at he

theorem collect_subset {β : Type} {d : Dict κ ν} {f : ν → List β} {k : κ} {v : ν}
    (h : d.get? k = some v) : f v ⊆ d.collect f := fun _ hr =>
  (collect_erase f h).mem_iff.mpr (List.mem_append_left _ hr)

/-! ## Two tables that invert each other -/

section Inverse

variable [DecidableEq ν] {d : Dict κ ν} {e : Dict ν κ} {k : κ} {v : ν}

/-- Both hold the same pairs, turned round. -/
def Inverse (d : Dict κ ν) (e : Dict ν κ) : Prop := ∀ k v, d.get? k = some v ↔ e.get? v = some k

theorem inverse_empty : Inverse (empty : Dict κ ν) (empty : Dict ν κ) := fun _ _ => by
  rw [get?_empty, get?_empty]
  exact iff_of_false (Option.some_ne_none _).symm (Option.some_ne_none _).symm

/-- No two keys have one value. -/
theorem Inverse.injective (h : Inverse d e) {w : ν} (hv : e.get? v = some k)
    (hw : e.get? w = some k) : v = w :=
  Option.some.inj (((h k v).mpr hv).symm.trans ((h k w).mpr hw))

/-- A new pair. -/
theorem Inverse.set (h : Inverse d e) (hk : d.get? k = none) (hv : e.get? v = none) :
    Inverse (d.set k v) (e.set v k) := by
  intro q w
  have hqw := h q w
  rw [get?_set, get?_set]
  by_cases hq : q = k
  · by_cases hw : w = v
    · simp [hq, hw]
    · rw [hq, hk] at hqw
      simp [hq, hw, Ne.symm hw, ← hqw]
  · by_cases hw : w = v
    · rw [hw, hv] at hqw
      simp [hq, hw, Ne.symm hq, hqw]
    · rw [if_neg hq, if_neg hw, hqw]

end Inverse

/-! ## Integer keys -/

/-- The value stored under an integer; a negative one is never a key. -/
def find? (d : Dict Nat ν) (k : Int) : Option ν := if 0 ≤ k then d.get? k.toNat else none

theorem find?_eq_some {d : Dict Nat ν} {k : Int} {v : ν} (h : d.find? k = some v) :
    d.get? k.toNat = some v ∧ (k.toNat : Int) = k := by
  unfold find? at h
  split at h
  · exact ⟨h, by omega⟩
  · exact absurd h (by simp)

@[simp] theorem find?_natCast (d : Dict Nat ν) (k : Nat) : d.find? (k : Int) = d.get? k := by
  unfold find?
  rw [if_pos (by omega), Int.toNat_natCast]

end Dict

end Cwhost.Lib
