import Cwhost.Memory.Reachable

/-!
# Owning heap blocks

A list of `(address, size)` pairs is owned when its entries are pairwise different live
allocations. The three allocator calls move entries in and out of the list; a block nobody
answers for any more is dropped from it (`Owns.sublist`).

* `Owns.allocated`, `Owns.freed`, `Owns.reallocated`: what the calls do to an owned list.
* `Exact`: every live allocation is in the list; the calls keep it with the same lists.
* `Keeps`: the bytes of a list of ranges are the same before and after.
-/

namespace Cwhost.Heap

open Lib

variable {M : ByteMemory} {h h' : Heap M} {l l' : List Range}

/-- **Ownership**: the entries are live allocations at pairwise different addresses. -/
structure Owns (h : Heap M) (l : List Range) : Prop where
  wf : WF h
  live : ∀ r ∈ l, h.allocations.get? r.1 = some r.2
  nodup : (l.map Prod.fst).Nodup

theorem WF.owns_nil (hw : WF h) : Owns h [] :=
  ⟨hw, fun _ hr => absurd hr List.not_mem_nil, List.nodup_nil⟩

theorem Owns.perm (ho : Owns h l) (hp : l.Perm l') : Owns h l' :=
  ⟨ho.wf, fun r hr => ho.live r (hp.mem_iff.mpr hr), (hp.map Prod.fst).nodup_iff.mp ho.nodup⟩

theorem Owns.sublist (ho : Owns h l) (hs : l'.Sublist l) : Owns h l' :=
  ⟨ho.wf, fun r hr => ho.live r (hs.subset hr), ho.nodup.sublist (hs.map Prod.fst)⟩

theorem Owns.tail {r : Range} (ho : Owns h (r :: l)) : Owns h l :=
  ho.sublist (List.sublist_cons_self r l)

theorem Owns.head {r : Range} (ho : Owns h (r :: l)) : h.allocations.get? r.1 = some r.2 :=
  ho.live r List.mem_cons_self

theorem Owns.covers (ho : Owns h l) {r : Range} (hr : r ∈ l) {x : Nat} (hx : Has r x) :
    Covers h.allocations.items x := covers_of_get? (ho.live r hr) hx

theorem Owns.ne_head {r s : Range} (ho : Owns h (r :: l)) (hs : s ∈ l) : s.1 ≠ r.1 := by
  have hnd := ho.nodup
  rw [List.map_cons, List.nodup_cons] at hnd
  intro he
  have hm : s.1 ∈ l.map Prod.fst := List.mem_map_of_mem hs
  exact hnd.1 (he ▸ hm)

/-- Owned entries share no byte. -/
theorem Owns.disjoint {r s : Range} (ho : Owns h (r :: l)) (hs : s ∈ l) {x : Nat}
    (hx : Has s x) : ¬ Has r x :=
  ho.wf.live_disjoint (ho.live s (List.mem_cons_of_mem _ hs)) ho.head (ho.ne_head hs) hx

/-- A fresh allocation joins the owned list. -/
theorem Owns.allocated (ho : Owns h l) {a n : Nat} (hn : 0 < n) (ha : Allocated h h' a n) :
    Owns h' ((a, n) :: l) := by
  have hnone := ha.get?_eq_none ho.wf hn
  have hne : ∀ r ∈ l, r.1 ≠ a := fun r hr he => by
    have := ho.live r hr
    rw [he, hnone] at this
    exact absurd this (by simp)
  refine ⟨ha.wf, fun r hr => ?_, ?_⟩
  · rcases List.mem_cons.mp hr with rfl | hr
    · rw [ha.table, Dict.get?_set_self]
    · rw [ha.table, Dict.get?_set_of_ne _ _ (hne r hr), ho.live r hr]
  · rw [List.map_cons, List.nodup_cons]
    refine ⟨fun hm => ?_, ho.nodup⟩
    obtain ⟨r, hr, he⟩ := List.mem_map.mp hm
    exact hne r hr he

/-- A freed block leaves the owned list. -/
theorem Owns.freed {a n : Nat} (ho : Owns h ((a, n) :: l)) (hf : Freed h h' a) : Owns h' l := by
  refine ⟨hf.wf, fun r hr => ?_, ho.tail.nodup⟩
  rw [hf.table, Dict.get?_erase_of_ne _ (ho.ne_head hr)]
  exact ho.live r (List.mem_cons_of_mem _ hr)

/-- A resized block stands in for the old one. -/
theorem Owns.reallocated {a old n p : Nat} (ho : Owns h ((a, old) :: l))
    (hr : Reallocated h h' a old n p) : Owns h' ((p, n) :: l) := by
  have hna : ∀ r ∈ l, r.1 ≠ a := fun r hr => ho.ne_head hr
  have hnp : ∀ r ∈ l, r.1 ≠ p := fun r hrl he => by
    by_cases hpa : p = a
    · exact hna r hrl (he.trans hpa)
    · have := ho.live r (List.mem_cons_of_mem _ hrl)
      rw [he, hr.fresh hpa] at this
      exact absurd this (by simp)
  refine ⟨hr.wf, fun r hrl => ?_, ?_⟩
  · rcases List.mem_cons.mp hrl with rfl | hrl
    · exact hr.live
    · rw [hr.others r.1 (hna r hrl) (hnp r hrl)]
      exact ho.live r (List.mem_cons_of_mem _ hrl)
  · rw [List.map_cons, List.nodup_cons]
    refine ⟨fun hm => ?_, ho.tail.nodup⟩
    obtain ⟨r, hrl, he⟩ := List.mem_map.mp hm
    exact hnp r hrl he

/-- **Nothing is leaked**: every live allocation is an entry of the list. -/
def Exact (h : Heap M) (l : List Range) : Prop :=
  ∀ r : Range, h.allocations.get? r.1 = some r.2 → r ∈ l

theorem Exact.perm (hx : Exact h l) (hp : l.Perm l') : Exact h l' := fun r hr =>
  hp.mem_iff.mp (hx r hr)

theorem Exact.of_table_eq (hx : Exact h l) (he : h'.allocations = h.allocations) : Exact h' l :=
  fun r hr => hx r (he ▸ hr)

theorem Exact.allocated {a n : Nat} (hx : Exact h l) (ha : Allocated h h' a n) :
    Exact h' ((a, n) :: l) := fun r hr => by
  rw [ha.table, Dict.get?_set] at hr
  split at hr
  · rename_i hra
    exact List.mem_cons.mpr (Or.inl (Prod.ext hra (Option.some.inj hr).symm))
  · exact List.mem_cons_of_mem _ (hx r hr)

theorem Exact.freed {a n : Nat} (hx : Exact h ((a, n) :: l)) (hf : Freed h h' a) :
    Exact h' l := fun r hr => by
  rw [hf.table, Dict.get?_erase] at hr
  split at hr
  · exact absurd hr (by simp)
  · rename_i hra
    exact (List.mem_cons.mp (hx r hr)).resolve_left fun he => hra (congrArg Prod.fst he)

theorem Exact.reallocated {a old n p : Nat} (hx : Exact h ((a, old) :: l))
    (hr : Reallocated h h' a old n p) : Exact h' ((p, n) :: l) := fun r hrl => by
  rw [hr.moved.table] at hrl
  split at hrl
  · rename_i hrp
    exact List.mem_cons.mpr (Or.inl (Prod.ext hrp (Option.some.inj hrl).symm))
  · split at hrl
    · exact absurd hrl (by simp)
    · rename_i hra
      refine List.mem_cons_of_mem _ ((List.mem_cons.mp (hx r hrl)).resolve_left fun he => ?_)
      exact hra (congrArg Prod.fst he)

/-- **Freeing an owned block succeeds.** -/
theorem Owns.free_spec {a n : Nat} (ho : Owns h ((a, n) :: l)) :
    wp (free (a : Int)) (fun _ h' => Freed h h' a ∧ Owns h' l ∧ h'.guest = h.guest ∧
      ∀ x, Covers h'.freeList x ↔ Covers h.freeList x ∨ Has (a, n) x) (fun _ _ => False) h := by
  refine wp_mono (Heap.free_spec ho.wf (a : Int)) (fun _ h' hf => ?_) fun _ _ he => ?_
  · rw [Int.toNat_natCast] at hf
    exact ⟨hf.2, ho.freed hf.2, hf.2.guest, hf.2.covers_free_iff ho.wf ho.head⟩
  · rw [Dict.find?_natCast, ho.head] at he
    simp at he

/-- **Freeing two owned blocks**, the way a handle is disposed of. -/
theorem Owns.free_two {r s : Range} (ho : Owns h (r :: s :: l)) :
    wp (free (r.1 : Int) >>= fun _ => free (s.1 : Int))
      (fun _ h' => Owns h' l ∧ (Exact h (r :: s :: l) → Exact h' l) ∧ h'.guest = h.guest ∧
        ∀ x, Covers h'.freeList x ↔ Covers h.freeList x ∨ Has r x ∨ Has s x)
      (fun _ _ => False) h := by
  rw [wp_bind]
  refine wp_mono ho.free_spec (fun _ h₁ h1 => ?_) fun _ _ h' => h'.elim
  obtain ⟨hf₁, ho₁, hg₁, hc₁⟩ := h1
  refine wp_mono ho₁.free_spec (fun _ h₂ h2 => ?_) fun _ _ h' => h'.elim
  obtain ⟨hf₂, ho₂, hg₂, hc₂⟩ := h2
  refine ⟨ho₂, fun hx => (hx.freed hf₁).freed hf₂, hg₂.trans hg₁, fun x => ?_⟩
  rw [hc₂ x, hc₁ x, or_assoc]

/-- Another guest memory with the same addresses mapped. -/
theorem Owns.withGuest (ho : Owns h l) {g : Guest M}
    (hm : ∀ x, M.mapped g.uc x ↔ M.mapped h.guest.uc x) : Owns { h with guest := g } l :=
  ⟨ho.wf.withGuest hm, ho.live, ho.nodup⟩

theorem Owns.accessible (ho : Owns h l) {r : Range} (hr : r ∈ l) : h.guest.Accessible r.1 r.2 :=
  ho.wf.live_accessible (ho.live r hr)

/-! ## Kept bytes -/

/-- The bytes of the ranges are the same in both heaps. -/
def Keeps (h h' : Heap M) (l : List Range) : Prop :=
  ∀ x, Covers l x → h'.guest.byte x = h.guest.byte x

theorem Keeps.of_guest_eq (he : h'.guest = h.guest) (l : List Range) : Keeps h h' l :=
  fun _ _ => by rw [he]

theorem Keeps.trans {h'' : Heap M} (h1 : Keeps h h' l) (h2 : Keeps h' h'' l) : Keeps h h'' l :=
  fun x hx => (h2 x hx).trans (h1 x hx)

theorem Keeps.mono (hk : Keeps h h' l) (hs : l' ⊆ l) : Keeps h h' l' := fun x hx => by
  obtain ⟨r, hr, hx⟩ := hx
  exact hk x ⟨r, hs hr, hx⟩

/-- A write into the head of an owned list keeps the bytes of the others. -/
theorem Owns.keeps_write {r : Range} (ho : Owns h (r :: l)) {g : Guest M} {addr : Nat}
    {data : List UInt8} (hw : Guest.Written h.guest g addr data) (h1 : r.1 ≤ addr)
    (h2 : addr + data.length ≤ r.1 + r.2) : Keeps h { h with guest := g } l := by
  rintro x ⟨s, hs, hx⟩
  refine hw.frame x fun hin => ho.disjoint hs hx ?_
  unfold Has at hin ⊢
  simp only at hin
  omega

/-- **A write into an owned block** changes only its own bytes. -/
theorem Owns.write_spec {r : Range} (ho : Owns h (r :: l)) {addr : Nat} {data : List UInt8}
    (hn : 0 < data.length) (h1 : r.1 ≤ addr) (h2 : addr + data.length ≤ r.1 + r.2) :
    wp (Guest.write addr data)
      (fun _ g => Guest.Written h.guest g addr data ∧ Owns { h with guest := g } (r :: l) ∧
        Keeps h { h with guest := g } l) (fun _ _ => False) h.guest :=
  wp_mono (Guest.write_spec ((ho.accessible List.mem_cons_self).sub h1 h2) hn)
    (fun _ _ hw => ⟨hw, ho.withGuest hw.mapped, ho.keeps_write hw h1 h2⟩) fun _ _ h' => h'

theorem Owns.w32_spec {r : Range} (ho : Owns h (r :: l)) {addr : Nat} (value : Nat)
    (h1 : r.1 ≤ addr) (h2 : addr + 4 ≤ r.1 + r.2) :
    wp (Guest.w32 addr value)
      (fun _ g => (Guest.Written h.guest g addr (toBE 4 (value % 2 ^ 32)) ∧
        g.word addr = value % 2 ^ 32) ∧ Owns { h with guest := g } (r :: l) ∧
        Keeps h { h with guest := g } l) (fun _ _ => False) h.guest :=
  wp_mono (Guest.w32_spec ((ho.accessible List.mem_cons_self).sub h1 h2))
    (fun _ _ hw => ⟨hw, ho.withGuest hw.1.mapped, ho.keeps_write hw.1 h1 (by simpa using h2)⟩)
    fun _ _ h' => h'

/-- The address of an owned block fits in a word. -/
theorem Owns.mod_eq (ho : Owns h l) {r : Range} (hr : r ∈ l) : r.1 % 2 ^ 32 = r.1 :=
  (ho.accessible hr).mod (ho.wf.size_pos (ho.live r hr))

/-- A kept word is the same word. -/
theorem Keeps.word_eq (hk : Keeps h h' l) {r : Range} (hr : r ∈ l) {a : Nat} (h1 : r.1 ≤ a)
    (h2 : a + 4 ≤ r.1 + r.2) : h'.guest.word a = h.guest.word a :=
  Guest.word_congr fun x hx hx' => hk x ⟨r, hr, by unfold Has; omega⟩

/-- A kept block has the same contents. -/
theorem Keeps.bytes_eq (hk : Keeps h h' l) {r : Range} (hr : r ∈ l) {n : Nat} (hn : n ≤ r.2) :
    ByteMemory.bytes h'.guest.uc r.1 n = ByteMemory.bytes h.guest.uc r.1 n :=
  ByteMemory.bytes_congr fun x hx hx' => hk x ⟨r, hr, by unfold Has; omega⟩

/-- `realloc` writes no byte of an owned block. -/
theorem Owns.keeps_realloc (ho : Owns h l) {a old n p : Nat} (hr : Reallocated h h' a old n p) :
    Keeps h h' l := fun x hx => by
  obtain ⟨r, hrl, hx⟩ := hx
  exact hr.frame x (ho.covers hrl hx)

end Cwhost.Heap
