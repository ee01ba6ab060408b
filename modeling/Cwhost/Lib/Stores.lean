import Cwhost.Lib.Dict
import Mathlib.Data.List.Induction

/-!
# Dictionaries filled by stores

`ofStores calls` is what a sequence of assignments makes of the empty dictionary. A key keeps the
place of its first assignment and has the value of its last one, so the last item need not be the
assignment made last.

* `get?_ofStores`, `keys_getLast?_ofStores`: the value of a key and the last key, from the sequence.
* `values_getLast?_ofStores`: the last value is the newest one in the sense of `Newest`.
* `newest_concat`: that is the assignment made last when its key is new.
-/

namespace Cwhost.Lib

section

variable {κ ν : Type}

/-- The key whose first store is the latest first store. -/
def FirstStoredLast (calls : List (κ × ν)) (k : κ) : Prop :=
  ∃ before v after, calls = before ++ (k, v) :: after ∧ k ∉ before.map Prod.fst ∧
    ∀ c ∈ after, c.1 = k ∨ c.1 ∈ before.map Prod.fst

theorem not_firstStoredLast_nil (k : κ) : ¬ FirstStoredLast ([] : List (κ × ν)) k := by
  rintro ⟨before, v, after, h, -⟩
  exact absurd h.symm (by simp)

/-- A store under a key that was stored before does not count. -/
theorem firstStoredLast_concat_of_mem {calls : List (κ × ν)} {c : κ × ν}
    (hc : c.1 ∈ calls.map Prod.fst) (k : κ) :
    FirstStoredLast (calls ++ [c]) k ↔ FirstStoredLast calls k := by
  constructor
  · rintro ⟨before, v, after, h, hnew, hafter⟩
    rcases List.eq_nil_or_concat after with rfl | ⟨after, last, rfl⟩
    · obtain ⟨rfl, hlast⟩ := List.append_inj' h rfl
      rw [List.singleton_inj.mp hlast] at hc
      exact absurd hc hnew
    · rw [List.concat_eq_append, ← List.cons_append, ← List.append_assoc] at h
      obtain ⟨rfl, -⟩ := List.append_inj' h rfl
      exact ⟨before, v, after, rfl, hnew, fun c hm =>
        hafter c (by rw [List.concat_eq_append]; exact List.mem_append_left _ hm)⟩
  · rintro ⟨before, v, after, rfl, hnew, hafter⟩
    refine ⟨before, v, after ++ [c], by simp, hnew, fun d hd => ?_⟩
    rcases List.mem_append.mp hd with hd | hd
    · exact hafter d hd
    · rw [List.mem_singleton.mp hd]
      rw [List.map_append, List.mem_append, List.map_cons, List.mem_cons] at hc
      rcases hc with hc | hc | hc
      · exact Or.inr hc
      · exact Or.inl hc
      · obtain ⟨e, he, hec⟩ := List.mem_map.mp hc
        exact hec ▸ hafter e he

/-- A store under a new key is the latest first store. -/
theorem firstStoredLast_concat_of_notMem {calls : List (κ × ν)} {c : κ × ν}
    (hc : c.1 ∉ calls.map Prod.fst) (k : κ) :
    FirstStoredLast (calls ++ [c]) k ↔ c.1 = k := by
  constructor
  · rintro ⟨before, v, after, h, hnew, hafter⟩
    rcases List.eq_nil_or_concat after with rfl | ⟨after, last, rfl⟩
    · obtain ⟨-, hlast⟩ := List.append_inj' h rfl
      exact congrArg Prod.fst (List.singleton_inj.mp hlast)
    · rw [List.concat_eq_append] at h hafter
      rw [← List.cons_append, ← List.append_assoc] at h
      obtain ⟨rfl, hlast⟩ := List.append_inj' h rfl
      have hlast := hafter c (List.mem_append_right _ (hlast ▸ List.mem_singleton_self c))
      refine absurd ?_ hc
      rw [List.map_append, List.mem_append, List.map_cons, List.mem_cons]
      exact hlast.symm.imp_right Or.inl
  · rintro rfl
    exact ⟨calls, c.2, [], rfl, hc, by simp⟩

variable [DecidableEq κ]

/-- **Newest**: what was stored last under the key that was stored for the first time last. -/
def Newest (calls : List (κ × ν)) (v : ν) : Prop :=
  ∃ k, FirstStoredLast calls k ∧ calls.reverse.lookup k = some v

end

namespace Dict

variable {κ ν : Type} [DecidableEq κ]

/-- The assignments of a sequence, one after the other, from the empty dictionary on. -/
def ofStores (calls : List (κ × ν)) : Dict κ ν := calls.foldl (fun d c => d.set c.1 c.2) empty

theorem ofStores_concat (calls : List (κ × ν)) (c : κ × ν) :
    ofStores (calls ++ [c]) = (ofStores calls).set c.1 c.2 := by
  rw [ofStores, List.foldl_append]
  rfl

theorem mem_keys_ofStores (calls : List (κ × ν)) (k : κ) :
    k ∈ (ofStores calls).keys ↔ k ∈ calls.map Prod.fst := by
  induction calls using List.reverseRecOn with
  | nil => exact Iff.rfl
  | append_singleton calls c ih =>
    rw [ofStores_concat, keys_set, List.map_append, List.mem_append, ← ih]
    split
    · rename_i hc
      constructor
      · exact Or.inl
      · rintro (h | h)
        · exact h
        · exact List.mem_singleton.mp h ▸ hc
    · exact List.mem_append

/-- Assignments of different keys on top of a dictionary. -/
theorem get?_foldl_set {l : List (κ × ν)} (hnd : (l.map Prod.fst).Nodup) (d : Dict κ ν) (k : κ) :
    (l.foldl (fun d e => d.set e.1 e.2) d).get? k = (l.lookup k).or (d.get? k) := by
  induction l generalizing d with
  | nil => rfl
  | cons e l ih =>
    rw [List.map_cons, List.nodup_cons] at hnd
    rw [List.foldl_cons, ih hnd.2, get?_set, List.lookup_cons]
    by_cases hk : k = e.1
    · have hnone : l.lookup k = none := List.lookup_eq_none_iff.mpr fun e' he' =>
        bne_iff_ne.mpr fun heq => hnd.1 (hk ▸ heq ▸ List.mem_map_of_mem he')
      rw [hnone, if_pos hk, beq_iff_eq.mpr hk]
      rfl
    · rw [if_neg hk, beq_false_of_ne hk]

/-- A key has the value it was assigned last. -/
theorem get?_ofStores (calls : List (κ × ν)) (k : κ) :
    (ofStores calls).get? k = calls.reverse.lookup k := by
  induction calls using List.reverseRecOn with
  | nil => rfl
  | append_singleton calls c ih =>
    rw [ofStores_concat, get?_set, List.reverse_append, List.reverse_singleton,
      List.singleton_append, List.lookup_cons, ih]
    by_cases h : k = c.1
    · rw [if_pos h, h, beq_self_eq_true]
    · rw [if_neg h, beq_eq_false_iff_ne.mpr h]

/-- **The last key** is the one assigned for the first time last. -/
theorem keys_getLast?_ofStores (calls : List (κ × ν)) (k : κ) :
    (ofStores calls).keys.getLast? = some k ↔ FirstStoredLast calls k := by
  induction calls using List.reverseRecOn with
  | nil => exact iff_of_false (by simp [ofStores, empty, keys]) (not_firstStoredLast_nil k)
  | append_singleton calls c ih =>
    rw [ofStores_concat, keys_set]
    by_cases hc : c.1 ∈ calls.map Prod.fst
    · rw [if_pos ((mem_keys_ofStores calls c.1).mpr hc), ih, firstStoredLast_concat_of_mem hc]
    · rw [if_neg (mt (mem_keys_ofStores calls c.1).mp hc), List.getLast?_append,
        firstStoredLast_concat_of_notMem hc]
      exact Option.some_inj

/-- The value of the last key is the last value. -/
theorem values_getLast? (d : Dict κ ν) (v : ν) :
    d.values.getLast? = some v ↔ ∃ k, d.keys.getLast? = some k ∧ d.get? k = some v := by
  have hmap : d.values.getLast? = d.items.getLast?.map Prod.snd := List.getLast?_map
  have hkeys : d.keys.getLast? = d.items.getLast?.map Prod.fst := List.getLast?_map
  rw [hmap, hkeys]
  cases hlast : d.items.getLast? with
  | none => simp
  | some c =>
    have hget : d.get? c.1 = some c.2 := get?_eq_some_iff.mpr (List.mem_of_getLast? hlast)
    simp [hget]

/-- **The last value** is the newest. -/
theorem values_getLast?_ofStores (calls : List (κ × ν)) (v : ν) :
    (ofStores calls).values.getLast? = some v ↔ Newest calls v := by
  rw [values_getLast?]
  refine exists_congr fun k => ?_
  rw [keys_getLast?_ofStores, get?_ofStores]

end Dict

/-- The store made last, when its key is new. -/
theorem newest_concat {κ ν : Type} [DecidableEq κ] {calls : List (κ × ν)} {c : κ × ν}
    (hc : c.1 ∉ calls.map Prod.fst) : Newest (calls ++ [c]) c.2 :=
  ⟨c.1, (firstStoredLast_concat_of_notMem hc c.1).mpr rfl, by
    rw [List.reverse_append, List.reverse_singleton, List.singleton_append,
      List.lookup_cons_self]⟩

end Cwhost.Lib
